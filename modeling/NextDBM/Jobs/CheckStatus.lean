import NextDBM.Jobs.Scheduler
import NextDBM.Jobs.ShellRun

/-!
# Runs of the status check

`CheckAssetStatusJob` finds its assets and starts a goroutine for each, which dials the asset, stores whether
it could, and sends its message to a channel without a buffer. The job receives as many messages as there are
assets, in the order in which the goroutines come to their sends, and stores them in one log.
-/

namespace NextDBM

open Relational

/-- The job of a run, whether its assets could be read, and the id and the outcome of the insert of its
log. -/
structure CheckJobCall where
  id : String
  mode : String
  resourceIds : String
  found : Bool
  logId : String
  created : Except Error Unit

/-- What the calls for an asset return. -/
structure CheckCalls where
  attributes : Except Error (List (String × String))
  /-- `proxy.SOCKS5`, for the address of the proxy and its account. -/
  socks5 : String → String → String → Except Error Unit
  /-- `dailer.Dial`. -/
  dial : String → Except Error Unit
  gateway : String → Except Error Unit
  openSshTunnel : String → Int → Except Error (String × Int)
  /-- `net.DialTimeout`. -/
  dialTimeout : String → Except Error Unit
  elapsed : String

namespace CheckRun

/-- `Tcping` -/
def tcping (calls : CheckCalls) (ip : String) (port : Int) : Except Error Unit :=
  let bracketed := ip.toList.head? == some '[' && ip.toList.getLast? == some ']'
  calls.dialTimeout (if bracketed then ip ++ ":" ++ toString port else "[" ++ ip ++ "]:" ++ toString port)

/-- `attributes[name]` -/
def attr (attributes : List (String × String)) (name : String) : String :=
  (attributes.lookup name).getD ""

/-- `CheckStatus`: `true` without an error, or `false` with one. -/
def checkStatus (calls : CheckCalls) (asset : Asset) : Except Error Unit := do
  let attributes ← calls.attributes
  if attr attributes nd.socksProxyEnable = "true" then
    calls.socks5 (attr attributes nd.socksProxyHost ++ ":" ++ attr attributes nd.socksProxyPort)
      (attr attributes nd.socksProxyUsername) (attr attributes nd.socksProxyPassword)
    calls.dial (asset.ip ++ ":" ++ toString asset.port)
  else if asset.accessGatewayId ≠ "" ∧ asset.accessGatewayId ≠ "-" then
    calls.gateway asset.accessGatewayId
    let (exposedIP, exposedPort) ← calls.openSshTunnel asset.ip asset.port
    tcping calls exposedIP exposedPort
  else tcping calls asset.ip asset.port

/-- The line of the log. -/
def lineOf (calls : CheckCalls) (asset : Asset) : String :=
  let line (active : String) :=
    "资产「" ++ asset.name ++ "」存活状态检测完成，存活「" ++ active ++ "」，耗时「" ++ calls.elapsed ++ "」"
  match checkStatus calls asset with
  | .ok () => line "true"
  | .error err => line "false" ++ "，原因： " ++ err.message

/-- The update of the asset's row. -/
def update (calls : CheckCalls) (asset : Asset) (a : Asset) : Asset :=
  match checkStatus calls asset with
  | .ok () => AssetRepository.setActive true "" a
  | .error err => AssetRepository.setActive false err.message a

theorem update_id (calls : CheckCalls) (asset a : Asset) : (update calls asset a).id = a.id := by
  unfold update
  split <;> rfl

inductive Main
  /-- At the receives, with the number of those that are left. -/
  | receiving (n : Nat)
  | ended

structure State where
  main : Main
  assets : Table Asset Asset.id
  /-- The goroutines that have not stored their result, by their assets. -/
  checking : List Asset := []
  /-- Those at their send. -/
  sending : List Asset := []
  received : List String := []
  /-- The ids whose update went through. -/
  updated : List String := []
  logs : List JobLog := []

inductive Action
  /-- A goroutine stores its result, or fails to. -/
  | finish (i : Nat) (ok : Bool)
  /-- The job takes the message of a goroutine. -/
  | receive (i : Nat)
  /-- The job stores its log. -/
  | record
  /-- Something else changes the assets. -/
  | others (assets : Table Asset Asset.id)

section

variable (job : CheckJobCall) (calls : Asset → CheckCalls)

/-- The assets of the job; none where they cannot be read. -/
def assetsOf (table : Table Asset Asset.id) : List Asset :=
  if job.found then
    if job.mode = nd.jobModeAll then table.rows
    else table.select fun a => (Text.split job.resourceIds ',').contains a.id
  else []

def start (table : Table Asset Asset.id) : State :=
  if job.id = "" then { main := .ended, assets := table }
  else match assetsOf job table with
    | [] => { main := .ended, assets := table }
    | assets => { main := .receiving assets.length, assets := table, checking := assets }

def finish (s : State) (i : Nat) (ok : Bool) : Option State :=
  (s.checking[i]?).map fun asset =>
    { s with
      checking := s.checking.eraseIdx i
      sending := asset :: s.sending
      updated := if ok then asset.id :: s.updated else s.updated
      assets := if ok then
          s.assets.updateById asset.id (update (calls asset) asset) (update_id (calls asset) asset)
        else s.assets }

def receive (s : State) (i : Nat) : Option State :=
  match s.main with
  | .receiving (n + 1) => (s.sending[i]?).map fun asset =>
    { s with
      main := .receiving n
      sending := s.sending.eraseIdx i
      received := s.received ++ [lineOf (calls asset) asset] }
  | _ => none

def record (s : State) : Option State :=
  match s.main, job.created with
  | .receiving 0, .ok () =>
    let jobLog := { id := job.logId, jobId := job.id, message := ShellRun.joined s.received }
    some { s with main := .ended, logs := jobLog :: s.logs }
  | .receiving 0, .error _ => some { s with main := .ended }
  | _, _ => none

def step (s : State) : Action → Option State
  | .finish i ok => finish calls s i ok
  | .receive i => receive calls s i
  | .record => record job s
  | .others assets => some { s with assets }

/-- Others change and delete rows, and leave it to the job to say which assets are active. -/
def Apart (s : State) : Action → Prop
  | .others assets => ∀ a ∈ assets, ∃ b ∈ s.assets, a.id = b.id ∧ a.active = b.active ∧
      a.activeMessage = b.activeMessage
  | _ => True

/-- A step of the job or one of its goroutines. -/
def Own (_ : State) : Action → Prop
  | .others _ => False
  | _ => True

abbrev Reaches : State → State → Prop := Transition.Reaches (step job calls) Apart

/-- What an asset's row says after its check. -/
structure Tells (asset row : Asset) : Prop where
  active : row.active = (checkStatus (calls asset) asset).isOk
  message : row.activeMessage =
    match checkStatus (calls asset) asset with
    | .ok () => ""
    | .error err => err.message

/-- What a run has done when the job has ended. -/
structure Done (table : Table Asset Asset.id) (s : State) : Prop where
  /-- Nothing waits. -/
  idle : s.checking = [] ∧ s.sending = []
  /-- One log with a line for each asset, in some order. -/
  log : ∃ lines : List String,
    lines.Perm ((assetsOf job table).map fun asset => lineOf (calls asset) asset) ∧
      s.logs = if job.id ≠ "" ∧ assetsOf job table ≠ [] ∧ job.created = .ok () then
          [{ id := job.logId, jobId := job.id, message := ShellRun.joined lines }]
        else []
  /-- The rows that were updated say what was found, whenever that was. -/
  checked : ∀ asset ∈ assetsOf job table, asset.id ∈ s.updated →
    ∀ row ∈ s.assets, row.id = asset.id → Tells calls asset row
  /-- The others say what they said. -/
  kept : ∀ row ∈ s.assets, row.id ∉ s.updated → ∃ old ∈ table, old.id = row.id ∧
    row.active = old.active ∧ row.activeMessage = old.activeMessage

end

end CheckRun

end NextDBM
