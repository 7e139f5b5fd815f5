import NextDBM.Library.Runs
import NextDBM.Web.Auth

/-!
# The operation log

`ErrorHandler` stands before `TcpWall` and `Auth`. When the rest of the way of a request has ended, it looks
up the account of the request's token, answers an error, and starts a goroutine that stores one row of the
log. The account is looked up again, after the handler, and is used as if it had been found: where it is not,
the lookup of its id panics, and the recovery before `ErrorHandler` answers what has no answer yet.
-/

namespace NextDBM

/-- `model.OperLog`, but for its id and the times. -/
structure OperLog where
  name : String
  userId : String
  username : String
  path : String
  method : Method
  statusCode : Int
  clientIp : String
  reason : String
  deriving DecidableEq, Repr

namespace OperationLog

/-- What is written to the client, one after another. -/
inductive Answer
  | fail (code : Int) (message : String)
  | html (status : Nat) (body : String)
  /-- What a handler writes. -/
  | own (body : String)
  /-- `Internal Server Error`, of the recovery. -/
  | internal
  deriving DecidableEq, Repr

/-- How a handler ends; an error that is no `HTTPError` has the code -1. -/
inductive Ending
  | returned
  | failed (code : Int) (message : String)
  | panicked
  deriving DecidableEq, Repr

/-- What the handlers behind `ErrorHandler` have done. -/
structure Handled where
  answers : List Answer
  ending : Ending
  deriving DecidableEq

def answerOf : Rejection → Answer
  | .fail code message => .fail code message
  | .html status body => .html status body

/-- What the framework answers where no route is found. -/
structure Unrouted where
  path : String
  code : Int
  message : String

/-- What has become of the row of a request. -/
inductive RowState
  /-- There is none. -/
  | missing
  | writing
  | stored
  | lost
  deriving DecidableEq, Repr

/-- A request that has been through the handlers. -/
structure Exchange where
  req : HttpRequest
  handled : Handled
  /-- The account of the token when `ErrorHandler` goes on; `none` before it does. -/
  account : Option (Option User) := none
  answers : List Answer := []
  row : RowState := .missing

section

variable (matcher : Matcher) (router : Router) (unrouted : HttpRequest → Unrouted)
  (menuName : Method → String → String)

/-- `c.Path()` -/
def contextPath (req : HttpRequest) : String :=
  match router.find req.method req.routePath with
  | some route => route.path
  | none => (unrouted req).path

/-- `next(c)` of `ErrorHandler`; `own` is what the handler of the route does. -/
def next (server : Server) (req : HttpRequest) (own : Handled) : Handled :=
  match (serve matcher server req router).1 with
  | .rejected answer => ⟨[answerOf answer], .returned⟩
  | .notFound => ⟨[], .failed (unrouted req).code (unrouted req).message⟩
  | .handled _ => own

/-- The recovery; an answer that was begun stays. -/
def recovered (answers : List Answer) : List Answer := if answers = [] then [.internal] else answers

/-- The code and the reason of the row. -/
def status : Ending → Option (Int × String)
  | .returned => some (1, "-")
  | .failed code message => some (code, message)
  | .panicked => none

/-- `OperationLogMiddleware`, for the account of the token: the row, or the panic. -/
def operationLog (req : HttpRequest) (ending : Ending) (account : Option User) : Option OperLog := do
  let (statusCode, reason) ← status ending
  let account ← account
  return {
    name := menuName req.method (contextPath router unrouted req)
    userId := account.id
    username := account.nickname
    path := contextPath router unrouted req
    method := req.method
    statusCode
    clientIp := req.realIP
    reason }

/-- `ErrorHandler` after `next(c)`, with the answers of the whole way. -/
def errorHandler (h : Handled) (account : Option User) : List Answer :=
  match account, h.ending with
  | some _, .returned => h.answers
  | some _, .failed code message => h.answers ++ [.fail code message]
  | none, _ | some _, .panicked => recovered h.answers

/-- The server, the rows that are stored, and the requests so far. -/
structure Site where
  server : Server
  operLogs : List OperLog := []
  exchanges : List Exchange := []

inductive Action
  /-- A request, with what the handler of its route does. -/
  | request (req : HttpRequest) (own : Handled)
  /-- `ErrorHandler` goes on with the request. -/
  | proceed (i : Nat)
  /-- The goroutine of the request stores its row, or fails to. -/
  | write (i : Nat) (ok : Bool)
  /-- Handlers and the time change the tokens and the rest of the server. -/
  | change (server : Server)

/-- The row of a request that has one. -/
def Exchange.operLog (e : Exchange) : Option OperLog :=
  e.account.bind (operationLog router unrouted menuName e.req e.handled.ending)

/-- `ErrorHandler` goes on, with the account that the token has now. -/
def proceed (server : Server) (e : Exchange) : Exchange :=
  let account := server.tokens e.req.token
  { e with
    account := some account
    answers := errorHandler e.handled account
    row := if (operationLog router unrouted menuName e.req e.handled.ending account).isSome then .writing
      else .missing }

def step (s : Site) : Action → Option Site
  | .request req own =>
    some { s with
      server := (serve matcher s.server req router).2
      exchanges := s.exchanges ++ [{ req, handled := next matcher router unrouted s.server req own }] }
  | .proceed i =>
    match s.exchanges[i]? with
    | some e =>
      if e.account = none then
        some { s with exchanges := s.exchanges.set i (proceed router unrouted menuName s.server e) }
      else none
    | none => none
  | .write i ok =>
    match s.exchanges[i]? with
    | some e =>
      match e.row, Exchange.operLog router unrouted menuName e with
      | .writing, some operLog =>
        some { s with
          operLogs := if ok then operLog :: s.operLogs else s.operLogs
          exchanges := s.exchanges.set i { e with row := if ok then .stored else .lost } }
      | _, _ => none
    | none => none
  | .change server => some { s with server }

/-! ## What is expected -/

/-- Its handlers did not panic, and its token was live when they had ended. -/
def Exchange.Recorded (e : Exchange) : Prop :=
  e.handled.ending ≠ .panicked ∧ ∃ user, e.account = some (some user)

/-- The rows of the requests that have stored one. -/
def stored (exchanges : List Exchange) : List OperLog :=
  exchanges.filterMap fun e => if e.row = .stored then e.operLog router unrouted menuName else none

/-- What is known of a request. -/
structure Exchange.Known (e : Exchange) : Prop where
  /-- One that is refused on its way counts as one that went through. -/
  way : ∃ server own, e.handled = next matcher router unrouted server e.req own
  /-- It has a row just if its token was live in the end and nothing panicked. -/
  row : e.row ≠ .missing ↔ e.Recorded
  /-- With a live token, an error is answered. -/
  live : ∀ user code message, e.account = some (some user) → e.handled.ending = .failed code message →
    e.answers = e.handled.answers ++ [.fail code message]
  /-- Without one, the error is not, and what was answered stays. -/
  dead : e.account = some none → e.answers = if e.handled.answers = [] then [.internal] else e.handled.answers

end

end OperationLog

end NextDBM
