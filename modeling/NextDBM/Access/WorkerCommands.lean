import NextDBM.Accounts.PropertyCache
import NextDBM.Backups.Backup

/-!
# The commands of a user

The worker endpoints get, update and delete commands by the id of the request. Each asks
`checkPermission` about the id first; the delete endpoint splits the id at its commas and deletes
every part.
-/

namespace NextDBM

open Relational

abbrev Commands : Type := Table Command Command.id

/-- Which statements of a request the database serves; the `i`-th round of a request asks for the
permission and then acts. -/
structure CommandCalls where
  check : Nat → Bool := fun _ => true
  act : Nat → Bool := fun _ => true

inductive CommandResponse
  | command (command : Command)
  | success
  | permissionDenied
  | failed (err : Error)
  deriving DecidableEq, Repr

namespace CommandRepository

def findById (commands : Commands) (id : String) : Except Error Command :=
  firstOrNotFound (commands.findById id)

/-- `Updates` of a row with the id of the request. -/
def assign (o p : Command) : Command :=
  { p with
    name := nonZero o.name p.name
    content := nonZero o.content p.content
    owner := nonZero o.owner p.owner }

theorem assign_id (o p : Command) : (assign o p).id = p.id := rfl

def updateById (commands : Commands) (o : Command) (id : String) : Except Error Commands :=
  if id = "" then .error .missingWhereClause
  else .ok (commands.updateById id (assign o) (assign_id o))

def deleteById (commands : Commands) (id : String) : Commands :=
  commands.deleteWhere fun r => r.id == id

end CommandRepository

namespace WorkCommandApi

open PropertyCache (serve)

/-- `checkPermission`. The arguments of `errors.Is` are in the wrong order, which makes no difference
for `ErrRecordNotFound` itself. -/
def checkPermission (served : Bool) (commands : Commands) (userId commandId : String) : Bool :=
  match serve served (CommandRepository.findById commands commandId) with
  | .error .recordNotFound => true
  | .error _ => false
  | .ok command => command.owner == userId

/-- `CommandGetEndpoint` -/
def commandGet (calls : CommandCalls) (commands : Commands) (userId id : String) :
    Commands × CommandResponse :=
  if !checkPermission (calls.check 0) commands userId id then (commands, .permissionDenied)
  else
    match serve (calls.act 0) (CommandRepository.findById commands id) with
    | .ok item => (commands, .command item)
    | .error err => (commands, .failed err)

/-- `CommandUpdateEndpoint`; `item` is what `Bind` reads from the body. -/
def commandUpdate (calls : CommandCalls) (commands : Commands) (userId id : String)
    (item : Except Error Command) : Commands × CommandResponse :=
  if !checkPermission (calls.check 0) commands userId id then (commands, .permissionDenied)
  else
    match item with
    | .error err => (commands, .failed err)
    | .ok item =>
      match serve (calls.act 0) (CommandRepository.updateById commands item id) with
      | .ok commands => (commands, .success)
      | .error err => (commands, .failed err)

/-- The loop of `CommandDeleteEndpoint` over the parts of the id, with their places. -/
def deleteParts (calls : CommandCalls) (userId id : String) :
    Commands → List (String × Nat) → Commands × CommandResponse
  | commands, [] => (commands, .success)
  | commands, (part, i) :: parts =>
    if !checkPermission (calls.check i) commands userId id then (commands, .permissionDenied)
    else if !calls.act i then (commands, .failed databaseFault)
    else deleteParts calls userId id (CommandRepository.deleteById commands part) parts

/-- `CommandDeleteEndpoint` -/
def commandDelete (calls : CommandCalls) (commands : Commands) (userId id : String) :
    Commands × CommandResponse :=
  deleteParts calls userId id commands (Text.split id ',').zipIdx

end WorkCommandApi

inductive CommandRequest
  | get (id : String)
  | update (id : String) (item : Except Error Command)
  | delete (id : String)

/-- A request of a user. -/
def CommandRequest.handle (calls : CommandCalls) (commands : Commands) (userId : String) :
    CommandRequest → Commands × CommandResponse
  | get id => WorkCommandApi.commandGet calls commands userId id
  | update id item => WorkCommandApi.commandUpdate calls commands userId id item
  | delete id => WorkCommandApi.commandDelete calls commands userId id

/-- Whichever statements are served, the request returns only a command of the user and leaves the
commands of the other users as they are. -/
def OwnOnly (commands : Commands) (userId : String) (request : CommandRequest) : Prop :=
  ∀ calls : CommandCalls,
    (∀ command, (request.handle calls commands userId).2 = .command command →
      command ∈ commands ∧ command.owner = userId) ∧
    ∀ command ∈ commands, command.owner ≠ userId →
      command ∈ (request.handle calls commands userId).1

/-- The condition on a request to delete: its whole id is the id of a command of another user, or
every command that a part of it names is the user's own. -/
def Deletable (commands : Commands) (userId id : String) : Prop :=
  (∃ command ∈ commands, command.id = id ∧ command.owner ≠ userId) ∨
    ∀ part ∈ Text.split id ',', ∀ command ∈ commands, command.id = part → command.owner = userId

end NextDBM
