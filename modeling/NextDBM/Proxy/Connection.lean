import Mathlib.Logic.Function.Basic
import NextDBM.Model.Secrets
import NextDBM.Proxy.Login

/-!
# Connections of the MariaDB proxy

`handleConnection` runs once for every connection, on one shared `MariaDBProxy`. It resolves the
login, writes the gateway of the asset to `mp.sshConfig` and its data source to `mp.dataSource`, tests
`mp.sshConfig`, and dials upstream with what it then reads from the two fields. Each access to a
field is one step here; connections are told apart by an arbitrary type, and their steps interleave in
any order.
-/

namespace NextDBM

/-- `SSHConfig`; its zero value stands for no gateway. -/
structure SSHConfig where
  host : String := ""
  port : Int := 0
  user : String := ""
  password : String := ""
  privateKey : String := ""
  passphrase : String := ""
  deriving DecidableEq, Repr

/-- `CoreDataSource`: the fields that `handleConnection` sets. -/
structure CoreDataSource where
  username : String := ""
  password : String := ""
  ip : String := ""
  port : Int := 0
  deriving DecidableEq, Repr

/-- What an upstream client is dialled with: the data source, and the gateway of the tunnel. -/
structure Dial where
  dataSource : CoreDataSource
  gateway : Option SSHConfig
  deriving DecidableEq, Repr

/-- What a login was resolved to: the asset as stored, its decrypted form, and the row of its access
gateway when it has one. -/
structure Resolved where
  assert : Asset
  assertDecrypt : Asset
  gateway : Option AccessGateway
  deriving DecidableEq, Repr

def sshConfigOf (gateway : AccessGateway) : SSHConfig :=
  { host := gateway.ip
    password := gateway.password
    port := gateway.port
    user := gateway.username
    privateKey := gateway.privateKey
    passphrase := gateway.passphrase }

namespace Resolved

/-- The value written to `mp.sshConfig`. -/
def sshConfig (r : Resolved) : SSHConfig :=
  match r.gateway with
  | some gateway => sshConfigOf gateway
  | none => {}

/-- The value written to `mp.dataSource`. -/
def dataSource (r : Resolved) : CoreDataSource :=
  { username := r.assert.username
    password := r.assertDecrypt.password
    ip := r.assert.ip
    port := r.assert.port }

/-- The dial that belongs to the asset: its own data source, through its own gateway. -/
def intended (r : Resolved) : Dial :=
  { dataSource := r.dataSource, gateway := r.gateway.map sshConfigOf }

end Resolved

namespace MariaDBProxy

/-- Resolve a login: the user, the asset, its secrets and its gateway. `policyOk` is the outcome of
`loginPolicyCheck`; an error of the gateway lookup ends the connection, the errors of the other
lookups are ignored. -/
def resolve (c : Cipher) (db : Database) (login : String) (policyOk : Bool) : Option Resolved := do
  let (_, assert) ← resolveLogin db login
  if policyOk then
    let assertDecrypt := okOrZero (AssetRepository.findByIdAndDecrypt c db assert.id)
    if assert.accessGatewayId ≠ "" ∧ assert.accessGatewayId ≠ "-" then
      let gateway ← (GatewayRepository.findById db assert.accessGatewayId).toOption
      some { assert, assertDecrypt, gateway := some gateway }
    else
      some { assert, assertDecrypt, gateway := none }
  else none

/-- How far a connection has come. -/
inductive Phase
  | idle
  /-- The login is resolved. -/
  | resolved (r : Resolved)
  /-- `mp.sshConfig` is written. -/
  | sshWritten (r : Resolved)
  /-- `mp.dataSource` is written. -/
  | dataSourceWritten (r : Resolved)
  /-- The test found a gateway: `createMariaDBClientUseSocks` is entered. -/
  | useSocks (r : Resolved)
  /-- `dsn := mp.dataSource` is read, `mp.sshConfig` is not. -/
  | useSocksDsn (r : Resolved) (dsn : CoreDataSource)
  /-- The test found no gateway: `createMariaDBClient` is entered. -/
  | direct (r : Resolved)
  | dialled (r : Resolved) (dial : Dial)
  | closed
  deriving DecidableEq, Repr

/-- The shared proxy object and the connections that run on it. -/
structure State (κ : Type) where
  db : Database
  sshConfig : SSHConfig := {}
  dataSource : CoreDataSource := {}
  conns : κ → Phase := fun _ => .idle

/-- What can happen next. -/
inductive Action (κ : Type)
  /-- A client logs in on a fresh connection. -/
  | login (k : κ) (name : String) (policyOk : Bool)
  /-- A connection takes its next step. -/
  | next (k : κ)
  /-- A connection ends with an error. -/
  | abort (k : κ)
  /-- The rest of the server changes the database. -/
  | database (db : Database)

variable {κ : Type} [DecidableEq κ]

def State.setPhase (s : State κ) (k : κ) (p : Phase) : State κ :=
  { s with conns := Function.update s.conns k p }

@[simp] theorem State.setPhase_self (s : State κ) (k : κ) (p : Phase) :
    (s.setPhase k p).conns k = p := by
  simp [setPhase]

theorem State.setPhase_of_ne {j k : κ} (h : j ≠ k) (s : State κ) (p : Phase) :
    (s.setPhase k p).conns j = s.conns j := by
  simp [setPhase, h]

/-- The next step of `handleConnection` on the connection `k`. -/
def nextStep (s : State κ) (k : κ) : Option (State κ) :=
  match s.conns k with
  | .resolved r => some ({ s with sshConfig := r.sshConfig }.setPhase k (.sshWritten r))
  | .sshWritten r => some ({ s with dataSource := r.dataSource }.setPhase k (.dataSourceWritten r))
  | .dataSourceWritten r =>
    if s.sshConfig ≠ {} then some (s.setPhase k (.useSocks r))
    else some (s.setPhase k (.direct r))
  | .useSocks r => some (s.setPhase k (.useSocksDsn r s.dataSource))
  | .useSocksDsn r dsn =>
    some (s.setPhase k (.dialled r { dataSource := dsn, gateway := some s.sshConfig }))
  | .direct r =>
    some (s.setPhase k (.dialled r { dataSource := s.dataSource, gateway := none }))
  | .idle | .dialled _ _ | .closed => none

def step (c : Cipher) (s : State κ) : Action κ → Option (State κ)
  | .login k name policyOk =>
    if s.conns k = .idle then
      match resolve c s.db name policyOk with
      | some r => some (s.setPhase k (.resolved r))
      | none => some (s.setPhase k .closed)
    else none
  | .next k => nextStep s k
  | .abort k => some (s.setPhase k .closed)
  | .database db => some { s with db }

/-- Every dialled client is dialled with the parameters of the asset that its login resolved to. -/
def Isolated (s : State κ) : Prop :=
  ∀ k r dial, s.conns k = .dialled r dial → dial = r.intended

/-! ## The condition on the interleaving -/

/-- The gateway that a connection has written and will still read. -/
def Phase.pendingSsh : Phase → Option SSHConfig
  | .sshWritten r | .dataSourceWritten r | .useSocks r | .useSocksDsn r _ => some r.sshConfig
  | _ => none

/-- The data source that a connection has written and will still read. -/
def Phase.pendingDataSource : Phase → Option CoreDataSource
  | .dataSourceWritten r | .useSocks r | .direct r => some r.dataSource
  | _ => none

/-- A step that writes a shared field writes the value that every other connection between its own
write and its read of the field has written; and the row of a gateway is not all empty. -/
def Undisturbed (s : State κ) : Action κ → Prop
  | .next k =>
    match s.conns k with
    | .resolved r =>
      (∀ j ≠ k, ∀ cfg, (s.conns j).pendingSsh = some cfg → r.sshConfig = cfg) ∧
        (r.gateway.isSome → r.sshConfig ≠ {})
    | .sshWritten r =>
      ∀ j ≠ k, ∀ dsn, (s.conns j).pendingDataSource = some dsn → r.dataSource = dsn
    | _ => True
  | _ => True

end MariaDBProxy

end NextDBM
