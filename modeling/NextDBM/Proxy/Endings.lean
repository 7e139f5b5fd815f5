import NextDBM.Library.Rounds
import NextDBM.Proxy.Commands
import NextDBM.Proxy.Connection
import NextDBM.Proxy.Handlers

/-!
# The end of a proxied connection

`handleConnection` has two loops without a bound, the attempts of `createMariaDBClient` and the
commands of the client. Every call is answered by the surroundings of the connection, which have their
own answers for each attempt and for each command; the shared fields are read as the other connections
leave them. Only when the handler returns does its deferred function give back the entry of the
connection in the map and its count in the wait group.
-/

namespace NextDBM

open Calls

namespace ProxyHandler

/-- The calls of `handleConnection` outside `processCommand`. -/
inductive Call
  /-- The handshake with the client; it answers with the login. -/
  | newCustomizedConn
  | findByUsername (username : String)
  | findAssetByName (name : String)
  | loginPolicyCheck (userId remoteAddr : String)
  | findByIdAndDecrypt (assetId : String)
  | findGateway (gatewayId : String)
  | updateSession (session : Session)
  | parsePrivateKeyWithPassphrase (privateKey passphrase : String)
  | parsePrivateKey (privateKey : String)
  | dialSSH (sshConf : SSHConfig)
  | connectWithDialer (dsn : CoreDataSource) (dbName : String)
  | connect (dsn : CoreDataSource) (dbName : String)
  | useDB (dbName : String)
  | ping
  | createOperLog (state reason username name clientIP : String)
  | writeValue (err : String)

@[reducible] def Answer : Call → Type
  | .newCustomizedConn => String
  | .findByUsername _ => User
  | .findAssetByName _ => Asset
  | .findByIdAndDecrypt _ => Asset
  | .findGateway _ => AccessGateway
  | _ => Unit

abbrev Response (c : Call) : Type := Outcome (Answer c)

abbrev Exit : Type := MariaDBProxy.Exit

abbrev Program (α : Type) : Type := Prog Call Response Exit α

/-- `c, err := …` where the error is looked at. -/
def check (c : Call) : Program (Except String (Answer c)) := attempt .panic c

/-- `c, err := …; if err != nil { return err }`. -/
def orReturn (c : Call) : Program (Answer c) := obtained .panic .returned c

/-- `c, _ := …` -/
def orZero (c : Call) [Inhabited (Answer c)] : Program (Answer c) := do
  match ← check c with
  | .ok a => return a
  | .error _ => return default

/-- `handleConnection` up to the choice of the route: the user, and the session as it is stored. What
it writes to `mp.sshConfig` and `mp.dataSource` is read back from the shared fields. -/
def prepare (session : Session) : Program (User × Session) := do
  let login ← orReturn .newCustomizedConn
  let parts := Text.split login '#'
  let user ← orZero (.findByUsername (parts.headD ""))
  match parts[1]? with
  -- `parts[1]` is out of range
  | none => Prog.stop .panic
  | some name =>
    let assert ← orZero (.findAssetByName name)
    let _ ← orReturn (.loginPolicyCheck user.id session.clientIP)
    let _ ← orZero (.findByIdAndDecrypt assert.id)
    if assert.accessGatewayId ≠ "" ∧ assert.accessGatewayId ≠ "-" then
      let _ ← orReturn (.findGateway assert.accessGatewayId)
    let stored : Session :=
      { session with
        status := nd.connected
        assetId := assert.id
        creator := user.id
        connectionId := session.id
        username := login
        password := "-"
        passphrase := "-"
        privateKey := "-"
        accessGatewayId := assert.accessGatewayId }
    let _ ← orReturn (.updateSession stored)
    return (user, stored)

/-- The key of the gateway, if it has one. -/
def parseKey (sshConf : SSHConfig) : Program Unit :=
  if sshConf.privateKey = "" then pure ()
  else if sshConf.passphrase = "" then orReturn (.parsePrivateKey sshConf.privateKey)
  else orReturn (.parsePrivateKeyWithPassphrase sshConf.privateKey sshConf.passphrase)

/-- `createMariaDBClientUseSocks`: the first error is returned. -/
def createMariaDBClientUseSocks (dsn : CoreDataSource) (sshConf : SSHConfig) (dbName : String) :
    Program Unit := do
  parseKey sshConf
  orReturn (.dialSSH sshConf)
  orReturn (.connectWithDialer dsn dbName)
  orReturn .ping

/-- The calls on the client of a gateway; the error of `UseDB` is ignored. -/
def useClient (dbName : String) : Program Unit := do
  let _ ← check (.useDB dbName)
  orReturn .ping

/-- One attempt of `createMariaDBClient`: whether it returns its client. After an error of `Connect`,
and a pause of ten seconds, or of `Ping`, the loop continues. -/
def connectOnce (dsn : CoreDataSource) (dbName : String) : Program Bool := do
  match ← check (.connect dsn dbName) with
  | .error _ => return false
  | .ok _ =>
    match ← check .ping with
    | .error _ => return false
    | .ok _ => return true

def licenseErr : String := "License is out of user count max 3"

/-- `CheckLicense`, with `len(mp.connections)`. -/
def checkLicense (connections : Nat) (user : User) (clientIP : String) : Program Unit :=
  if 3 < connections then do
    let _ ← check (.createOperLog "0" licenseErr user.username (nd.proxy ++ "MariaDB") clientIP)
    let _ ← check (.writeValue ("Next-DBM Error : " ++ licenseErr))
    Prog.stop (.returned licenseErr)
  else pure ()

/-- What one connection meets. -/
structure Surroundings where
  /-- The session that `acceptConnections` makes. -/
  session : Session
  /-- The insert of the session. -/
  createSession : Outcome Unit
  /-- The answers to the calls of `handleConnection` itself. -/
  handler : (c : Call) → Response c
  /-- `handler.GetDBName()` -/
  dbName : String
  /-- `mp.sshConfig` where the route is chosen. -/
  sshConfig : SSHConfig
  /-- `mp.dataSource` and `mp.sshConfig` where the client is created. -/
  dsn : CoreDataSource
  sshConf : SSHConfig
  /-- The answers to `createMariaDBClientUseSocks`. -/
  socks : (c : Call) → Response c
  /-- The answers to each attempt of `createMariaDBClient`. -/
  attempts : Nat → (c : Call) → Response c
  /-- `len(mp.connections)` at `CheckLicense`. -/
  connections : Nat
  /-- The id that each command draws. -/
  ids : Nat → String
  /-- The answers to each call of `processCommand`. -/
  turns : Nat → (c : MariaDBProxy.Call) → MariaDBProxy.Response c

/-- A program of the handler that has ended. -/
def ended {α : Type} (x : Except Exit α) : ExceptT Exit Option α := ExceptT.mk (some x)

/-- A loop of the handler; there is no value while it goes on. -/
def left {σ α : Type} : σ ⊕ Except Exit α → ExceptT Exit Option α
  | .inl _ => ExceptT.mk none
  | .inr x => ended x

namespace Surroundings

/-- A round of the loop of `createMariaDBClient`. -/
def attemptRound (env : Surroundings) (i : Nat) (_ : Unit) : Unit ⊕ Except Exit Unit :=
  match ((connectOnce env.dsn env.dbName).exec (env.attempts i)).2 with
  | .ok true => .inr (.ok ())
  | .ok false => .inl ()
  | .error x => .inr (.error x)

/-- `createMariaDBClient` after `n` attempts. -/
def createMariaDBClient (env : Surroundings) : Nat → Unit ⊕ Except Exit Unit :=
  Rounds.after env.attemptRound ()

/-- A round of the loop over the commands; it goes on with `c.Conn` open or not. -/
def commandRound (env : Surroundings) (session : Session) (i : Nat) (isOpen : Bool) :
    Bool ⊕ Except Exit Empty :=
  match ((MariaDBProxy.processCommand session (env.ids i) isOpen).exec (env.turns i)).2 with
  | .ok (none, isOpen') => .inl isOpen'
  | .ok (some err, _) => .inr (.error (.returned err))

/-- The loop over the commands after `n` of them. -/
def commands (env : Surroundings) (session : Session) : Nat → Bool ⊕ Except Exit Empty :=
  Rounds.after (env.commandRound session) true

/-- The client of the route, after at most `n` attempts. -/
def createClient (env : Surroundings) (n : Nat) : ExceptT Exit Option Unit :=
  if env.sshConfig ≠ {} then do
    ended ((createMariaDBClientUseSocks env.dsn env.sshConf env.dbName).exec env.socks).2
    ended ((useClient env.dbName).exec env.handler).2
  else left (env.createMariaDBClient n)

/-- The body of `handleConnection`, with at most `n` attempts and `n` commands. -/
def handle (env : Surroundings) (n : Nat) : ExceptT Exit Option Empty := do
  let (user, session) ← ended ((prepare env.session).exec env.handler).2
  env.createClient n
  ended ((checkLicense env.connections user session.clientIP).exec env.handler).2
  left (env.commands session n)

/-- `handleConnection`, with at most `n` attempts and `n` commands: the error that it returns, `nil`
after a panic, or nothing while one of its loops goes on. -/
def handleConnection (env : Surroundings) (n : Nat) : Option (Option String) :=
  match (env.handle n).run with
  | none => none
  | some (.error (.returned err)) => some (some err)
  | some (.error .panic) => some none

/-- The goroutine of an accepted connection is started after the insert of its session. -/
def goroutine (env : Surroundings) (n : Nat) : Option (Option String) :=
  match env.createSession with
  | .returned () => env.handleConnection n
  | _ => none

/-! ## Connections that end -/

/-- From the turn `k` on, reading a packet from the socket of the client fails. -/
def SocketFails (env : Surroundings) (k : Nat) : Prop :=
  ∀ i, k ≤ i → (env.turns i .readPacket).Failed

/-- The handler comes to `createMariaDBClient`: the login is let in, and the shared field names no
gateway. -/
def TakesDirect (env : Surroundings) : Prop :=
  (∃ r, ((prepare env.session).exec env.handler).2 = .ok r) ∧ env.sshConfig = {}

/-- The handler returns, and its deferred function gives the entry and the count back, in whatever state
the server is then. -/
def GivesBack (env : Surroundings) : Prop :=
  ∃ n err, env.goroutine n = some err ∧ ∀ s : ProxyServer,
    env.session.id ∉ (s.finish env.session.id err).connections ∧
      (s.finish env.session.id err).connManager = s.connManager - 1

/-- A connection whose socket has failed by the turn `k` ends. -/
structure ConnectionEnds (env : Surroundings) (k : Nat) : Prop where
  /-- `createMariaDBClient` makes finitely many attempts. -/
  attempts : env.TakesDirect → Rounds.Ends env.attemptRound ()
  /-- The turn `k` is the last one at the latest. -/
  commands : ∀ session, ∃ x, env.commands session (k + 1) = .inr x
  givesBack : env.GivesBack

/-- The outcomes of the attempt `i` end the loop: neither `Connect` nor the `Ping` that follows it
returns an error. -/
def Settles (env : Surroundings) (i : Nat) : Prop :=
  ¬ (env.attempts i (.connect env.dsn env.dbName)).Failed ∧
    (env.attempts i (.connect env.dsn env.dbName) = .returned () →
      ¬ (env.attempts i .ping).Failed)

/-- What a connection needs in order to end: the insert of its session, and on the direct route an
attempt without an error. -/
structure Reachable (env : Surroundings) : Prop where
  inserted : env.createSession = .returned ()
  settles : env.TakesDirect → ∃ i, env.Settles i

end Surroundings

end ProxyHandler

end NextDBM
