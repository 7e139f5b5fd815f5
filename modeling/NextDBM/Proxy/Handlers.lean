import Mathlib.Data.Finset.Card
import NextDBM.Library.Calls
import NextDBM.Library.Runs

/-!
# Handlers of the MariaDB proxy

`acceptConnections` starts a goroutine for every connection that it lets in. The goroutine counts in the
wait group, its connection stands in the map under the id of its session, and after the login it comes
to `CheckLicense` and then to the loop over the commands. `CloseConnection` takes a connection out of
the map from outside, and `Stop` closes the listener. Calls to the network and to the database may return,
fail or panic at every step; a client that disconnects shows in what they answer.
-/

namespace NextDBM

open Calls

/-- `mp.listener` -/
inductive Listener
  | listening
  | closed
  /-- `nil` -/
  | gone
  deriving DecidableEq, Repr

/-- Where `acceptConnections` is. -/
inductive AcceptPhase
  /-- Before `Accept`. -/
  | accepting
  /-- With a connection whose address is not checked yet. -/
  | accepted
  /-- After `connManager.Add(1)`. -/
  | creating
  /-- The goroutine has returned. -/
  | ended
  deriving DecidableEq, Repr

/-- The proxy and its goroutines. The handlers are `connecting` before `CheckLicense`, in the loop over
the `commands`, or `failed`: `handleConnection` has returned an error that is not recorded yet. `closed`
is a history variable: the ids that `CloseConnection` has taken out of the map. -/
structure ProxyServer where
  listener : Listener := .listening
  cancelled : Bool := false
  stopCalled : Bool := false
  accept : AcceptPhase := .accepting
  crashed : Bool := false
  connManager : Int := 0
  connections : Finset String := ∅
  connecting : Finset String := ∅
  commands : Finset String := ∅
  failed : Finset String := ∅
  closed : Finset String := ∅

/-- A step of the accept loop, of a handler, of a request that closes a connection, or of `Stop`. An error
`none` of a handler stands for a panic, after which `handleConnection` returns `nil`. -/
inductive ProxyStep
  | accept (r : Outcome Unit)
  /-- `allowIP`; when the address is refused also `Write` and `Close`, which panic or not. -/
  | allowIP (r : Outcome Bool)
  /-- The session with a new id is inserted. -/
  | createSession (id : String) (r : Outcome Unit)
  /-- `handleConnection` ends before `CheckLicense`. -/
  | leave (id : String) (err : Option String)
  /-- `CheckLicense`; the error is that of a refusal. -/
  | checkLicense (id : String) (err : Option String)
  /-- A turn of the loop; with an error it is the last one. -/
  | processCommand (id : String) (err : Option String)
  /-- The error of a handler is written to its session and to the log. -/
  | record (id : String) (r : Outcome Unit)
  | closeConnection (id : String)
  /-- The steps of `Stop` up to the wait. -/
  | stopClose (r : Outcome Unit)
  | stopListener
  | stopCancel

namespace ProxyServer

/-- `Accept`: an error ends the loop when the context is cancelled. -/
def acceptConnection (s : ProxyServer) (r : Outcome Unit) : Option ProxyServer :=
  match s.listener, r with
  | .gone, _ => some { s with accept := .ended }
  | _, .panicked => some { s with accept := .ended }
  | _, .failed _ => some (if s.cancelled then { s with accept := .ended } else s)
  | .listening, .returned () => some { s with accept := .accepted }
  | .closed, .returned () => none

/-- The check of the address; an error of `Write` or `Close` is ignored. -/
def checkIP (s : ProxyServer) : Outcome Bool → ProxyServer
  | .returned true => { s with accept := .creating, connManager := s.connManager + 1 }
  | .returned false => { s with accept := .accepting }
  | .failed _ => { s with accept := .accepting }
  | .panicked => { s with accept := .ended }

/-- `SessionRepository.Create`, `AddConnection` and the start of the goroutine. -/
def startHandler (s : ProxyServer) (id : String) : Outcome Unit → ProxyServer
  | .returned () =>
    { s with
      accept := .accepting
      connections := insert id s.connections
      connecting := insert id s.connecting }
  | .failed _ => { s with accept := .ended }
  | .panicked => { s with accept := .ended }

/-- The deferred function of `handleConnection`; a panic of its last calls is recovered. -/
def finish (s : ProxyServer) (id : String) (err : Option String) : ProxyServer :=
  { s with
    connections := s.connections.erase id
    connManager := s.connManager - 1
    failed := if err.isSome then insert id s.failed else s.failed }

/-- `CheckLicense`, and the first turn of the loop after it. -/
def checkLicense (s : ProxyServer) (id : String) (err : Option String) : ProxyServer :=
  if 3 < s.connections.card then
    finish { s with connecting := s.connecting.erase id } id err
  else { s with connecting := s.connecting.erase id, commands := insert id s.commands }

/-- The calls after a failed `handleConnection` stand in no recover. -/
def record (s : ProxyServer) (id : String) : Outcome Unit → ProxyServer
  | .panicked => { s with crashed := true }
  | _ => { s with connections := s.connections.erase id, failed := s.failed.erase id }

/-- `CloseConnection` -/
def closeConnection (s : ProxyServer) (id : String) : ProxyServer :=
  if id ∈ s.connections then
    { s with connections := s.connections.erase id, closed := insert id s.closed }
  else s

/-- The step on a process that runs. -/
def act (s : ProxyServer) : ProxyStep → Option ProxyServer
  | .accept r => if s.accept = .accepting then s.acceptConnection r else none
  | .allowIP r => if s.accept = .accepted then some (s.checkIP r) else none
  | .createSession id r =>
    if s.accept = .creating ∧
        id ∉ s.connections ∪ s.connecting ∪ s.commands ∪ s.failed ∪ s.closed then
      some (s.startHandler id r)
    else none
  | .leave id err =>
    if id ∈ s.connecting then
      some (finish { s with connecting := s.connecting.erase id } id err)
    else none
  | .checkLicense id err => if id ∈ s.connecting then some (s.checkLicense id err) else none
  | .processCommand id err =>
    if id ∈ s.commands then
      some (if err.isSome then finish { s with commands := s.commands.erase id } id err else s)
    else none
  | .record id r => if id ∈ s.failed then some (s.record id r) else none
  | .closeConnection id => some (s.closeConnection id)
  | .stopClose r =>
    if s.listener = .listening then
      some { s with
        stopCalled := true, listener := if r.succeeded then .closed else .listening }
    else none
  | .stopListener => if s.listener = .closed then some { s with listener := .gone } else none
  | .stopCancel => if s.listener = .gone then some { s with cancelled := true } else none

def step (s : ProxyServer) (a : ProxyStep) : Option ProxyServer :=
  if s.crashed then none else s.act a

/-- The condition of the cap: when a connection passes the check, neither it nor a connection of the loop
has been closed by `CloseConnection`. -/
def ClosedHaveLeft (s : ProxyServer) : ProxyStep → Prop
  | .checkLicense id _ => s.connections.card ≤ 3 → ∀ j ∈ insert id s.commands, j ∉ s.closed
  | _ => True

instance (s : ProxyServer) : (a : ProxyStep) → Decidable (s.ClosedHaveLeft a)
  | .checkLicense id _ => inferInstanceAs
    (Decidable (s.connections.card ≤ 3 → ∀ j ∈ insert id s.commands, j ∉ s.closed))
  | .accept _ | .allowIP _ | .createSession _ _ | .leave _ _ | .processCommand _ _ | .record _ _
  | .closeConnection _ | .stopClose _ | .stopListener | .stopCancel => inferInstanceAs (Decidable True)

/-- The connections that the wait group has to count: those of the handlers that have not finished, and the
one whose handler is about to be started. -/
def unfinished (s : ProxyServer) : Nat :=
  s.connecting.card + s.commands.card + if s.accept = .creating then 1 else 0

/-- The accept loop runs until `Stop`, and the wait group counts the unfinished connections. -/
structure Accounted (s : ProxyServer) : Prop where
  loop : s.accept = .ended ∨ s.crashed = true → s.stopCalled = true
  connManager : s.connManager = s.unfinished

/-- The condition of the accounting: the session of a connection is inserted, and before `Stop` neither a
call of the accept loop nor one that records an error panics. -/
def Answered (s : ProxyServer) : ProxyStep → Prop
  | .accept r => r = .panicked → s.stopCalled = true
  | .allowIP r => r = .panicked → s.stopCalled = true
  | .createSession _ r => r = .returned ()
  | .record _ r => r = .panicked → s.stopCalled = true
  | _ => True

instance (s : ProxyServer) : (a : ProxyStep) → Decidable (s.Answered a)
  | .accept r => inferInstanceAs (Decidable (r = .panicked → s.stopCalled = true))
  | .allowIP r => inferInstanceAs (Decidable (r = .panicked → s.stopCalled = true))
  | .createSession _ r => inferInstanceAs (Decidable (r = .returned ()))
  | .record _ r => inferInstanceAs (Decidable (r = .panicked → s.stopCalled = true))
  | .leave _ _ | .checkLicense _ _ | .processCommand _ _ | .closeConnection _ | .stopClose _
  | .stopListener | .stopCancel => inferInstanceAs (Decidable True)

end ProxyServer

end NextDBM
