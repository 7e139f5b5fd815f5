import NextDBM.Library.Runs
import NextDBM.Library.Text
import NextDBM.Model.Rows

/-!
# Gateways in memory

Tunnels are opened with the gateways of `GlobalGatewayManager`: copies of rows, made by the endpoints
and by `GetGatewayById`. `AccessGatewayUpdateEndpoint` writes the non-zero fields of its body to the row
and makes the copy from the body. Any statement may fail.
-/

namespace NextDBM

open Relational

/-- `gateway.Gateway`: what it is connected with. -/
structure HeldGateway where
  id : String
  gatewayType : String
  ip : String
  port : Int
  username : String
  password : String
  privateKey : String
  passphrase : String
  deriving DecidableEq, Repr

/-- The copy that `Add` makes. -/
def AccessGateway.held (m : AccessGateway) : HeldGateway :=
  { id := m.id, gatewayType := m.gatewayType, ip := m.ip, port := m.port, username := m.username
    password := m.password, privateKey := m.privateKey, passphrase := m.passphrase }

abbrev GatewayRows : Type := Table AccessGateway AccessGateway.id

abbrev GatewayManager : Type := Table HeldGateway HeldGateway.id

namespace GatewayManager

def add (m : GatewayManager) (model : AccessGateway) : GatewayManager := m.put model.held

def del (m : GatewayManager) (id : String) : GatewayManager := m.deleteWhere fun g => g.id == id

end GatewayManager

namespace GatewayRepository

/-- `Updates` writes the non-zero fields. -/
def assign (o g : AccessGateway) : AccessGateway :=
  { g with
    gatewayType := nonZero o.gatewayType g.gatewayType
    name := nonZero o.name g.name
    ip := nonZero o.ip g.ip
    port := if o.port = 0 then g.port else o.port
    accountType := nonZero o.accountType g.accountType
    username := nonZero o.username g.username
    password := nonZero o.password g.password
    privateKey := nonZero o.privateKey g.privateKey
    passphrase := nonZero o.passphrase g.passphrase }

@[simp] theorem assign_id (o g : AccessGateway) : (assign o g).id = g.id := rfl

def create (rows : GatewayRows) (o : AccessGateway) : Except Error GatewayRows :=
  match rows.insert o with
  | some rows => .ok rows
  | none => .error .duplicatedKey

/-- `UpdateById`; a row that is not there is no error. -/
def updateById (rows : GatewayRows) (o : AccessGateway) (id : String) : Except Error GatewayRows :=
  if id = "" then .error .missingWhereClause
  else .ok (rows.updateById id (assign o) (assign_id o))

def deleteById (rows : GatewayRows) (id : String) : GatewayRows :=
  rows.deleteWhere fun g => g.id == id

end GatewayRepository

/-- The table and the manager. -/
structure GatewaySystem where
  rows : GatewayRows := ∅
  manager : GatewayManager := ∅

/-- A call, with the statements of it that the database serves. -/
inductive GatewayCall
  /-- `AccessGatewayCreateEndpoint`, with the id that it draws. -/
  | create (item : AccessGateway) (uuid : String) (served : Bool)
  | update (id : String) (item : AccessGateway) (served : Bool)
  /-- `AccessGatewayDeleteEndpoint`: `id` may list several, separated by commas. -/
  | delete (id : String) (served : Nat → Bool)
  | getGatewayById (id : String) (served : Bool)
  | loadAll (served : Bool)

namespace GatewaySystem

/-- `ReLoad` -/
def reLoad (s : GatewaySystem) (m : AccessGateway) : GatewaySystem :=
  { s with manager := (s.manager.del m.id).add m }

def disconnectById (s : GatewaySystem) (id : String) : GatewaySystem :=
  { s with manager := s.manager.del id }

def create (s : GatewaySystem) (item : AccessGateway) (uuid : String) (served : Bool) :
    GatewaySystem :=
  let item := { item with id := uuid }
  if !served then s
  else match GatewayRepository.create s.rows item with
    | .error _ => s
    | .ok rows => { s with rows }.reLoad item

/-- `UpdateById` sets the id of the body to the one of the path. -/
def update (s : GatewaySystem) (id : String) (item : AccessGateway) (served : Bool) :
    GatewaySystem :=
  if !served then s
  else match GatewayRepository.updateById s.rows item id with
    | .error _ => s
    | .ok rows => { s with rows }.reLoad { item with id }

/-- The loop of `AccessGatewayDeleteEndpoint`, over the ids with their places. -/
def deleteParts (served : Nat → Bool) : GatewaySystem → List (String × Nat) → GatewaySystem
  | s, [] => s
  | s, (id, i) :: parts =>
    if !served i then s
    else deleteParts served
      ({ s with rows := GatewayRepository.deleteById s.rows id }.disconnectById id) parts

def getGatewayById (s : GatewaySystem) (id : String) (served : Bool) : GatewaySystem :=
  if (s.manager.findById id).isSome || !served then s
  else match s.rows.findById id with
    | none => s
    | some accessGateway => s.reLoad accessGateway

def loadAll (s : GatewaySystem) (served : Bool) : GatewaySystem :=
  if served then s.rows.rows.foldl reLoad s else s

def call (s : GatewaySystem) : GatewayCall → GatewaySystem
  | .create item uuid served => s.create item uuid served
  | .update id item served => s.update id item served
  | .delete id served => deleteParts served s (Text.split id ',').zipIdx
  | .getGatewayById id served => s.getGatewayById id served
  | .loadAll served => s.loadAll served

/-- Every call is enabled in every state. -/
def step (s : GatewaySystem) (c : GatewayCall) : Option GatewaySystem := some (s.call c)

/-- Every gateway in memory is the copy of a row. -/
def Coherent (s : GatewaySystem) : Prop := ∀ g ∈ s.manager, ∃ r ∈ s.rows, r.held = g

end GatewaySystem

/-- The body leaves out no field of the copy that the row has: what is empty in it, is empty there. -/
structure AccessGateway.Covers (item r : AccessGateway) : Prop where
  gatewayType : item.gatewayType = "" → r.gatewayType = ""
  ip : item.ip = "" → r.ip = ""
  port : item.port = 0 → r.port = 0
  username : item.username = "" → r.username = ""
  password : item.password = "" → r.password = ""
  privateKey : item.privateKey = "" → r.privateKey = ""
  passphrase : item.passphrase = "" → r.passphrase = ""

/-- The condition: an update that is served is of a row, with a body that covers it. -/
def GatewaySystem.CoversRow (s : GatewaySystem) : GatewayCall → Prop
  | .update id item served => served = true → id ≠ "" → ∃ r ∈ s.rows, r.id = id ∧ item.Covers r
  | _ => True

end NextDBM
