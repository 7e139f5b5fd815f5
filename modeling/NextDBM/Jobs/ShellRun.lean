import NextDBM.Editor.Attach

/-!
# Runs of a shell job

`executeShellByAssets` looks up one asset after the other, and starts a goroutine for each that
executes the command there and sends its message to a channel without a buffer. Then it receives as many
messages as there are assets, and stores them in one log. A send waits until a receive takes its message,
and the only receives are those of the main goroutine.
-/

namespace NextDBM

/-- `model.JobLog` -/
structure JobLog where
  id : String
  jobId : String
  message : String
  deriving DecidableEq, Repr

/-- The arguments of `execute` after the command. -/
structure ShellTarget where
  accessGatewayId : String
  ip : String
  port : Int
  username : String
  password : String
  privateKey : String
  passphrase : String
  deriving DecidableEq, Repr

/-- An asset of the list, with what the calls for it return: the asset as `FindByIdAndDecrypt` finds it,
its credential, the outcome of the command on a target and how long it took. -/
structure ShellAsset where
  name : String
  found : Except Error Asset
  credential : Except Error Credential
  execute : ShellTarget → Except Error String
  elapsed : String

/-- The job, the outcome of `Unmarshal` on its metadata, and the id and the outcome of the insert of its
log. -/
structure ShellJobCall where
  id : String
  metadata : Except Error Unit
  logId : String
  created : Except Error Unit

namespace ShellRun

/-- The account of the asset. -/
def ownTarget (asset : Asset) : ShellTarget :=
  { accessGatewayId := asset.accessGatewayId
    ip := asset.ip
    port := asset.port
    username := asset.username
    password := asset.password
    privateKey := asset.privateKey
    passphrase := asset.passphrase }

/-- The account of a credential. -/
def credentialTarget (asset : Asset) (credential : Credential) : ShellTarget :=
  if credential.type = nd.custom then
    { ownTarget asset with username := credential.username, password := credential.password }
  else
    { ownTarget asset with
      username := credential.username
      privateKey := credential.privateKey
      passphrase := credential.passphrase }

/-- The lookups for an asset, or the message of the one that fails. -/
def lookup (a : ShellAsset) : Except String (Asset × ShellTarget) :=
  match a.found with
  | .error err => .error ("资产「" ++ a.name ++ "」Shell执行失败，查询数据异常「" ++ err.message ++ "」")
  | .ok asset =>
    if asset.accountType = "credential" then
      match a.credential with
      | .error err =>
        .error ("资产「" ++ a.name ++ "」Shell执行失败，查询授权凭证数据异常「" ++ err.message ++ "」")
      | .ok credential => .ok (asset, credentialTarget asset credential)
    else .ok (asset, ownTarget asset)

/-- The message of a goroutine. -/
def executed (a : ShellAsset) (asset : Asset) (target : ShellTarget) : String :=
  match a.execute target with
  | .error .recordNotFound =>
    "资产「" ++ asset.name ++ "」Shell执行失败，请检查资产所关联接入网关是否存在，耗时「" ++ a.elapsed ++ "」"
  | .error err =>
    "资产「" ++ asset.name ++ "」Shell执行失败，错误内容为：「" ++ err.message ++ "」，耗时「" ++ a.elapsed ++ "」"
  | .ok result =>
    "资产「" ++ asset.name ++ "」Shell执行成功，返回值「" ++ result ++ "」，耗时「" ++ a.elapsed ++ "」"

/-- The message for an asset. -/
def resultMessage (a : ShellAsset) : String :=
  match lookup a with
  | .error msg => msg
  | .ok (asset, target) => executed a asset target

/-- Where the main goroutine is. -/
inductive Main
  /-- In the loop over the assets, with those that are left. -/
  | starting (rest : List ShellAsset)
  /-- At the send of a message, before it returns. -/
  | sending (msg : String)
  /-- At the receives, with the number of those that are left. -/
  | receiving (n : Nat)
  | ended

/-- The main goroutine, the goroutines that execute, the messages of those that wait at their send, the
messages received, and the logs stored. -/
structure State where
  main : Main
  executing : List (ShellAsset × Asset × ShellTarget) := []
  sending : List String := []
  received : List String := []
  logs : List JobLog := []

/-- Whose step is next. -/
inductive Action
  | main
  /-- A goroutine has its result. -/
  | execute (i : Nat)
  /-- The main goroutine receives the message of a goroutine. -/
  | receive (i : Nat)

/-- `message`: each message with a line feed. -/
def joined (msgs : List String) : String := String.join (msgs.map fun msg => msg ++ "\n")

section

variable (job : ShellJobCall) (assets : List ShellAsset)

/-- The state after the checks at the beginning. -/
def start : State :=
  if assets = [] then { main := .ended }
  else match job.metadata with
    | .error _ => { main := .ended }
    | .ok () => { main := .starting assets }

/-- The turn of the loop for an asset. -/
def startOne (s : State) (a : ShellAsset) (rest : List ShellAsset) : State :=
  match lookup a with
  | .error msg => { s with main := .sending msg }
  | .ok (asset, target) =>
    { s with main := .starting rest, executing := (a, asset, target) :: s.executing }

/-- The log of the job. -/
def record (s : State) : State :=
  match job.created with
  | .ok () =>
    let jobLog := { id := job.logId, jobId := job.id, message := joined s.received }
    { s with main := .ended, logs := jobLog :: s.logs }
  | .error _ => { s with main := .ended }

/-- The main goroutine; its send finds no receive. -/
def mainStep (s : State) : Option State :=
  match s.main with
  | .starting (a :: rest) => some (startOne s a rest)
  | .starting [] => some { s with main := .receiving assets.length }
  | .sending _ => none
  | .receiving (_ + 1) => none
  | .receiving 0 => some (record job s)
  | .ended => none

/-- The main goroutine at its receives takes the message of a goroutine. -/
def receiveStep (s : State) (i : Nat) : Option State :=
  match s.main with
  | .receiving (n + 1) => (s.sending[i]?).map fun msg =>
    { s with
      main := .receiving n
      sending := s.sending.eraseIdx i
      received := s.received ++ [msg] }
  | _ => none

def step (s : State) : Action → Option State
  | .main => mainStep job assets s
  | .execute i => (s.executing[i]?).map fun (a, asset, target) =>
    { s with
      executing := s.executing.eraseIdx i
      sending := executed a asset target :: s.sending }
  | .receive i => receiveStep s i

abbrev Reaches : State → State → Prop := Transition.Reaches (step job assets) Transition.Any

/-- The run ends, with one log that has one message for each asset. -/
structure Completes : Prop where
  progress : ∀ s, Reaches job assets (start job assets) s →
    s.main = .ended ∨ ∃ a t, step job assets s a = some t
  recorded : ∀ s, Reaches job assets (start job assets) s → s.main = .ended →
    ∃ log msgs, s.logs = [log] ∧ log.message = joined msgs ∧
      msgs.Perm (assets.map resultMessage)

/-- The condition: there are assets, and everything but the commands goes through. -/
structure LookupsSucceed : Prop where
  nonempty : assets ≠ []
  unmarshalled : job.metadata = .ok ()
  lookups : ∀ a ∈ assets, (lookup a).isOk = true
  inserted : job.created = .ok ()

end

end ShellRun

end NextDBM
