import NextDBM.Library.Runs
import NextDBM.Model.Rows

/-!
# Tunnels of a gateway

A gateway keeps one SSH client and a map from ids to tunnels; a tunnel is a listener on the host of the
server that forwards through the client. `OpenSshTunnel` and `CloseSshTunnel` hold the lock of the
gateway from their beginning to their end, so an interleaving of them is a sequence. The entrances
close what they open under the same id, also after an `OpenSshTunnel` that has failed; `Gateway.Close`
is a sequence of closes by one that has opened nothing.
-/

namespace NextDBM

open Relational

/-- `Tunnel`; listeners and clients are numbered as they are made. -/
structure Tunnel where
  id : String
  localHost : String
  localPort : Int
  remoteHost : String
  remotePort : Int
  listener : Nat
  client : Nat
  deriving DecidableEq, Repr

/-- `Gateway`, without what `NewSshClient` reads. -/
structure Gateway where
  connected : Bool := false
  message : String := "暂未使用"
  sshClient : Option Nat := none
  tunnels : Table Tunnel Tunnel.id := ∅

/-- The gateway and what is open around it: `next` numbers the next listener or client. -/
structure GatewayWorld where
  gateway : Gateway := {}
  listeners : List Nat := []
  clients : List Nat := []
  next : Nat := 0

/-- The answers of the network and the system to a call of `OpenSshTunnel`. -/
structure OpenAnswers where
  newSshClient : Except String Unit := .ok ()
  getAvailablePort : Except Error Int
  hostname : Except Error String
  listen : Except Error Unit := .ok ()

namespace Gateway

/-- The client of an `OpenSshTunnel`: the one of the gateway, or a new one. -/
def connect (w : GatewayWorld) (answers : OpenAnswers) : Except Error Unit × GatewayWorld :=
  if w.gateway.connected then (.ok (), w)
  else match answers.newSshClient with
    | .error err =>
      let message := "接入网关不可用：" ++ err
      (.error (.text message), { w with gateway := { w.gateway with connected := false, message } })
    | .ok () =>
      (.ok (), { w with
        gateway := { w.gateway with connected := true, sshClient := some w.next, message := "使用中" }
        clients := w.next :: w.clients
        next := w.next + 1 })

/-- The listener of an `OpenSshTunnel`, and its tunnel in the map. -/
def listen (w : GatewayWorld) (answers : OpenAnswers) (id ip : String) (port : Int) :
    Except Error Tunnel × GatewayWorld :=
  match (do
      let localPort ← answers.getAvailablePort
      let hostname ← answers.hostname
      answers.listen
      pure (localPort, hostname)) with
  | .error e => (.error e, w)
  | .ok (localPort, hostname) =>
    let tunnel : Tunnel :=
      { id, localHost := hostname, localPort, remoteHost := ip, remotePort := port
        listener := w.next, client := w.gateway.sshClient.getD 0 }
    (.ok tunnel, { w with
      gateway := { w.gateway with tunnels := w.gateway.tunnels.put tunnel }
      listeners := w.next :: w.listeners
      next := w.next + 1 })

/-- `OpenSshTunnel` -/
def openSshTunnel (w : GatewayWorld) (answers : OpenAnswers) (id ip : String) (port : Int) :
    Except Error Tunnel × GatewayWorld :=
  match connect w answers with
  | (.error e, w) => (.error e, w)
  | (.ok (), w) => listen w answers id ip port

/-- The tunnel of an id is closed and leaves the map. -/
def closeTunnel (w : GatewayWorld) (id : String) : GatewayWorld :=
  match w.gateway.tunnels.findById id with
  | some t =>
    { w with
      gateway := { w.gateway with tunnels := w.gateway.tunnels.deleteWhere fun t => t.id == id }
      listeners := w.listeners.filter fun l => l != t.listener }
  | none => w

/-- Without tunnels the client is closed. -/
def disconnectIdle (w : GatewayWorld) : GatewayWorld :=
  if w.gateway.tunnels.rows = [] then
    { w with
      gateway := { w.gateway with connected := false, message := "暂未使用" }
      clients := w.clients.filter fun c => some c != w.gateway.sshClient }
  else w

/-- `CloseSshTunnel` -/
def closeSshTunnel (w : GatewayWorld) (id : String) : GatewayWorld :=
  disconnectIdle (closeTunnel w id)

end Gateway

/-! ## The callers -/

/-- A call by one of the users of the gateway. -/
inductive TunnelCall (κ : Type)
  | openSshTunnel (caller : κ) (answers : OpenAnswers) (id ip : String) (port : Int)
  | closeSshTunnel (caller : κ) (id : String)

/-- The gateway, and a history variable: the tunnels that callers have got and not closed. -/
structure TunnelState (κ : Type) where
  world : GatewayWorld := {}
  held : List (κ × Tunnel) := []

namespace TunnelState

variable {κ : Type} [DecidableEq κ]

/-- The state after an `OpenSshTunnel` has returned to its caller. -/
def returned (s : TunnelState κ) (caller : κ) : Except Error Tunnel × GatewayWorld → TunnelState κ
  | (.ok tunnel, world) => { world, held := (caller, tunnel) :: s.held }
  | (.error _, world) => { s with world }

/-- The state after a call. -/
def call (s : TunnelState κ) : TunnelCall κ → TunnelState κ
  | .openSshTunnel caller answers id ip port =>
    s.returned caller (Gateway.openSshTunnel s.world answers id ip port)
  | .closeSshTunnel caller id =>
    { world := Gateway.closeSshTunnel s.world id
      held := s.held.filter fun p => ¬ (p.1 = caller ∧ p.2.id = id) }

/-- Every call is enabled in every state. -/
def step (s : TunnelState κ) (c : TunnelCall κ) : Option (TunnelState κ) := some (s.call c)

/-- The open listeners are those of the tunnels in the map, and a tunnel that its caller has not closed
is open, with its client. -/
structure Belong (s : TunnelState κ) : Prop where
  listeners : ∀ l, l ∈ s.world.listeners ↔ ∃ t ∈ s.world.gateway.tunnels, t.listener = l
  held : ∀ p ∈ s.held, p.2.listener ∈ s.world.listeners ∧ p.2.client ∈ s.world.clients

/-- The answers with which a call opens a listener. -/
def Opens (s : TunnelState κ) (answers : OpenAnswers) : Prop :=
  (s.world.gateway.connected = true ∨ answers.newSshClient.isOk = true) ∧
    answers.getAvailablePort.isOk = true ∧ answers.hostname.isOk = true ∧
    answers.listen.isOk = true

/-- The condition: an id is not opened while the map has a tunnel of it, and what a close finds in the map
is its caller's own. -/
def OwnIds (s : TunnelState κ) : TunnelCall κ → Prop
  | .openSshTunnel _ answers id _ _ =>
    s.Opens answers → ∀ t ∈ s.world.gateway.tunnels, t.id ≠ id
  | .closeSshTunnel caller id => ∀ t ∈ s.world.gateway.tunnels, t.id = id → (caller, t) ∈ s.held

end TunnelState

end NextDBM
