import NextDBM.Accounts.Sshd
import NextDBM.Gate.Security
import NextDBM.Library.Int64

/-!
# Login policies

A login policy allows or rejects addresses and times of the week for the users it is bound to.
`LoginSuccess` checks the policies on the bare address of the client, the MariaDB proxy runs a copy
of the check on the address with its port. Whether a block contains an address is decided by the
library of the language, for both versions of the protocol, and is a parameter.
-/

namespace NextDBM

section LoginPolicy

@[instance] theorem weekday_neZero : NeZero 7 := ⟨by decide⟩

/-- A time of the week; the days are counted from Sunday. -/
structure Moment where
  weekday : Fin 7
  hour : Fin 24
  minute : Fin 60
  deriving DecidableEq, Repr

/-- A number below 100 with two digits. -/
def twoDigits (n : Nat) : String := if n < 10 then "0" ++ Nat.repr n else Nat.repr n

/-- `now.Format("15:04")`. -/
def Moment.hwc (now : Moment) : String := twoDigits now.hour ++ ":" ++ twoDigits now.minute

/-- Why a check of the policies ends without letting the user in. -/
inductive Refusal
  | denied (message : String)
  /-- The run-time panic of `timeRange[1]`. -/
  | indexOutOfRange
  deriving DecidableEq, Repr

namespace LoginPolicyRepository

/-- `FindByUserId`: the policies that are bound to the user, those with the largest priority number
first. -/
def findByUserId (db : AccountDatabase) (userId : String) : List LoginPolicy :=
  let bound := db.loginPolicies.rows.flatMap fun policy =>
    (db.loginPolicyUserRefs.rows.filter fun ref =>
      ref.loginPolicyId == policy.id && ref.userId == userId).map fun _ => policy
  bound.insertionSort fun policy policy' => policy'.priority ≤ policy.priority

end LoginPolicyRepository

namespace TimePeriodRepository

def findByLoginPolicyId (db : AccountDatabase) (loginPolicyId : String) : List TimePeriod :=
  db.timePeriods.rows.filter fun period => period.loginPolicyId == loginPolicyId

end TimePeriodRepository

section

variable (contains : String → String → Bool)

/-- The reading of one IP group; `contains` is `ParseCIDR` followed by `Contains (ParseIP ip)`. -/
def groupMatches (clientIp group : String) : Bool :=
  if hasChar group '/' then contains group clientIp
  else if hasChar group '-' then
    match Text.split group '-' with
    | start :: stop :: _ =>
      !(ipToInt clientIp < ipToInt start || ipToInt clientIp > ipToInt stop)
    | _ => false
  else group == clientIp

/-- `checkClientIp`. -/
def checkClientIp (policies : List LoginPolicy) (clientIp : String) : Except Refusal Unit :=
  let pass := policies.foldl (fun pass policy =>
    if !policy.enabled then pass
    else (Text.split policy.ipGroup ',').foldl (fun pass group =>
      if groupMatches contains clientIp group then policy.rule == "allow" else pass) pass) true
  if pass then .ok () else .error (.denied "非常抱歉，您当前使用的IP地址不允许进行登录。")

/-- Whether one time range covers a time of day; a text without a second part panics. -/
def rangeMatches (hwc t : String) : Except Refusal Bool :=
  match Text.split t '~' with
  | start :: stop :: _ =>
    .ok ((start == "00:00" && stop == "00:00") || decide (start ≤ hwc ∧ hwc ≤ stop))
  | _ => .error .indexOutOfRange

/-- The error of a login outside the allowed times. -/
def timeDenied : Refusal := .denied "非常抱歉，当前时段不允许您进行登录。"

/-- `checkWeekDay`. -/
def checkWeekDay (db : AccountDatabase) (policies : List LoginPolicy) (now : Moment) :
    Except Refusal Unit := do
  let timePass ← policies.foldlM (fun timePass policy =>
    if !policy.enabled then pure timePass
    else
      (TimePeriodRepository.findByLoginPolicyId db policy.id).foldlM (fun timePass period =>
        if (now.weekday.val : Int) ≠ period.key then pure timePass
        else if period.value = "" then pure timePass
        else (Text.split period.value '、').foldlM (fun timePass t => do
          let hit ← rangeMatches now.hwc t
          pure (if hit then policy.rule == "allow" else timePass)) timePass) timePass) true
  if timePass then pure () else throw timeDenied

/-- `Check`. -/
def LoginPolicyService.check (db : AccountDatabase) (userId clientIp : String) (now : Moment) :
    Except Refusal Unit :=
  let policies := LoginPolicyRepository.findByUserId db userId
  if policies.isEmpty then .ok ()
  else do
    checkClientIp contains policies clientIp
    checkWeekDay db policies now

/-- `loginPolicyCheck`, a copy of `Check` and of the two functions that it calls. -/
def MariaDBProxy.loginPolicyCheck (db : AccountDatabase) (userId clientIp : String)
    (now : Moment) : Except Refusal Unit :=
  LoginPolicyService.check contains db userId clientIp now

end

/-! ## The entrances -/

/-- The address of a client, as the text of its IP and a port. -/
structure ClientAddr where
  ip : String
  port : Nat
  deriving DecidableEq, Repr

/-- `RemoteAddr().String()`: an IP with a colon is put in brackets. -/
def ClientAddr.text (addr : ClientAddr) : String :=
  if hasChar addr.ip ':' then "[" ++ addr.ip ++ "]:" ++ Nat.repr addr.port
  else addr.ip ++ ":" ++ Nat.repr addr.port

/-- A login that has come as far as the policies at the web login and the proxy; the SSH session of
the same user comes with the inputs of its prompts. -/
structure PolicyLogin where
  user : User
  addr : ClientAddr
  now : Moment
  attempts : List Sshd.Attempt := []

inductive Entrance
  | web
  | proxy
  | ssh
  deriving DecidableEq, Repr

section

variable (contains : String → String → Bool) (validate : Nat → String → String → Bool)

/-- Whether the entrance lets the login pass: `LoginSuccess` when `Check` returns no error on the
bare IP, `handleConnection` when `loginPolicyCheck` returns none on the remote address, and
`sessionHandler` when it starts a session. -/
def Entrance.admits (db : AccountDatabase) (login : PolicyLogin) : Entrance → Bool
  | web => (LoginPolicyService.check contains db login.user.id login.addr.ip login.now).isOk
  | proxy =>
    (MariaDBProxy.loginPolicyCheck contains db login.user.id login.addr.text login.now).isOk
  | ssh =>
    (Sshd.startedUser validate db { user := login.user.username, remoteAddr := login.addr.text }
      login.attempts "").isSome

/-- The store without login policies. -/
def AccountDatabase.withoutPolicies (db : AccountDatabase) : AccountDatabase :=
  { db with loginPolicies := ∅, loginPolicyUserRefs := ∅, timePeriods := ∅ }

/-- The policies deny the login: it would pass without them. -/
def Entrance.denies (entrance : Entrance) (db : AccountDatabase) (login : PolicyLogin) : Bool :=
  entrance.admits contains validate db.withoutPolicies login &&
    !entrance.admits contains validate db login

/-- The policies decide alike at all entrances. -/
def PolicyParity (db : AccountDatabase) (login : PolicyLogin) : Prop :=
  ∀ entrance entrance' : Entrance,
    entrance.denies contains validate db login = entrance'.denies contains validate db login

/-! ## What the policies say -/

/-- The IP groups of the enabled policies in the order of the loop, each with its policy. -/
def ipGroups (policies : List LoginPolicy) : List (LoginPolicy × String) :=
  policies.flatMap fun policy =>
    if !policy.enabled then [] else (Text.split policy.ipGroup ',').map fun group => (policy, group)

/-- The time ranges of the enabled policies for a day in the order of the loop. -/
def timeRanges (db : AccountDatabase) (policies : List LoginPolicy) (now : Moment) :
    List (LoginPolicy × String) :=
  policies.flatMap fun policy =>
    if !policy.enabled then []
    else (TimePeriodRepository.findByLoginPolicyId db policy.id).flatMap fun period =>
      if (now.weekday.val : Int) ≠ period.key then []
      else if period.value = "" then []
      else (Text.split period.value '、').map fun t => (policy, t)

/-- No group covers the client, or the last one that does belongs to an allow policy. -/
def AllowsAddress (policies : List LoginPolicy) (clientIp : String) : Prop :=
  ∀ item, ((ipGroups policies).reverse.find? fun item => groupMatches contains clientIp item.2) =
    some item → item.1.rule = "allow"

/-- Every range of the day has two parts, and no range covers the time, or the last one that does
belongs to an allow policy. -/
def AllowsTime (db : AccountDatabase) (policies : List LoginPolicy) (now : Moment) : Prop :=
  (∀ item ∈ timeRanges db policies now, '~' ∈ item.2.toList) ∧
    ∀ item, ((timeRanges db policies now).reverse.find? fun item =>
      rangeMatches now.hwc item.2 == .ok true) = some item → item.1.rule = "allow"

/-- The policies of the user deny neither of the two texts of the address, nor the time. -/
def NoneDenies (db : AccountDatabase) (login : PolicyLogin) : Prop :=
  let policies := LoginPolicyRepository.findByUserId db login.user.id
  AllowsAddress contains policies login.addr.ip ∧ AllowsAddress contains policies login.addr.text ∧
    AllowsTime db policies login.now

end

end LoginPolicy

/-! ## Ranges of addresses

The network entrances and the login policies share one test of a range: the client and both bounds are
turned into integers by `IpToInt`, which are compared. A range should match the addresses between two
addresses, and no other text.
-/

/-- The bounds of a range, as the gates cut them out of an item. -/
structure RangeText where
  start : String
  stop : String
  startPlain : '/' ∉ start.toList ∧ '-' ∉ start.toList
  stopPlain : '/' ∉ stop.toList ∧ '-' ∉ stop.toList

def RangeText.text (r : RangeText) : String := r.start ++ "-" ++ r.stop

/-- Where ranges are tested; the proxy has a copy of `checkClientIp`. -/
inductive RangeGate
  | tcpWall
  | connCallback
  | allowIP
  | checkClientIp
  deriving DecidableEq, Repr

def RangeGate.reports : RangeGate → String → String → Bool
  | tcpWall, text, ip => matchText (2 ≤ ·) text ip
  | connCallback, text, ip => matchText (2 ≤ ·) text ip
  | allowIP, text, ip => matchText (· == 2) text ip
  | checkClientIp, text, ip => groupMatches cidrContains ip text

/-- The bounds and the client are addresses, and the client lies between the bounds. -/
def RangeText.Covers (r : RangeText) (client : String) : Prop :=
  ∃ start stop ip, IPv4.parse r.start = some start ∧ IPv4.parse r.stop = some stop ∧
    IPv4.parse client = some ip ∧ start.toNat ≤ ip.toNat ∧ ip.toNat ≤ stop.toNat

/-- The gate reports a match exactly when the range covers the client. -/
def RangeRead (gate : RangeGate) (r : RangeText) (client : String) : Prop :=
  gate.reports r.text client = true ↔ r.Covers client

/-! ## When it does -/

def IsAddress (s : String) : Prop := (IPv4.parse s).isSome = true

/-- The number to the base 256 of the first four pieces of a text, on 64 bits. A piece that is no integer
counts as 0, and so does a text of less than four pieces. -/
def looseNumber (s : String) : Int :=
  let pieces := Text.split s '.'
  if 4 ≤ pieces.length then
    Int64Arith.wrap ((pieces.take 4).foldl (fun n piece => 256 * n + stringToInt piece) 0)
  else 0

/-- All three are addresses, or their loose numbers are out of order. -/
def ReadsRight (r : RangeText) (client : String) : Prop :=
  (IsAddress r.start ∧ IsAddress r.stop ∧ IsAddress client) ∨
    looseNumber client < looseNumber r.start ∨ looseNumber r.stop < looseNumber client

end NextDBM
