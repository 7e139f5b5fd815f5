import NextDBM.Accounts.LoginPolicy

/-!
# The rules of the login policies

What the loops of `checkClientIp` and `checkWeekDay` are for: each policy covers an address or a time
or does not, and among the enabled policies that do the one with the smallest priority number decides.
-/

namespace NextDBM

/-- The address test of a policy. -/
def coversAddress (contains : String → String → Bool) (clientIp : String) (policy : LoginPolicy) :
    Bool :=
  (Text.split policy.ipGroup ',').any (groupMatches contains clientIp)

/-- The period test of a policy. -/
def coversTime (db : AccountDatabase) (now : Moment) (policy : LoginPolicy) : Bool :=
  (TimePeriodRepository.findByLoginPolicyId db policy.id).any fun period =>
    decide ((now.weekday.val : Int) = period.key) && decide (period.value ≠ "") &&
      (Text.split period.value '、').any fun t => rangeMatches now.hwc t == .ok true

/-- The policy is the first in rank among the enabled policies that cover. -/
structure Decides (policies : List LoginPolicy) (covers : LoginPolicy → Bool)
    (policy : LoginPolicy) : Prop where
  mem : policy ∈ policies
  enabled : policy.enabled = true
  covered : covers policy = true
  least : ∀ other ∈ policies, other.enabled = true → covers other = true →
    policy.priority ≤ other.priority

/-- The policy that decides is not an allow policy; without one that decides nothing is rejected. -/
def Rejects (policies : List LoginPolicy) (covers : LoginPolicy → Bool) : Prop :=
  ∃ policy, Decides policies covers policy ∧ policy.rule ≠ "allow"

/-- A check denies the login. -/
def Denied (result : Except Refusal Unit) : Prop := ∃ message, result = .error (.denied message)

/-- A check returns a decision: it does not panic. -/
def Decided (result : Except Refusal Unit) : Prop := result ≠ .error .indexOutOfRange

/-! ## Periods -/

/-- `HH:MM`, two numbers of two digits. -/
def clockText (t : Fin 100 × Fin 100) : String := twoDigits t.1.val ++ ":" ++ twoDigits t.2.val

/-- `HH:MM~HH:MM`. -/
def periodText (r : (Fin 100 × Fin 100) × (Fin 100 × Fin 100)) : String :=
  clockText r.1 ++ "~" ++ clockText r.2

/-- The value of a period consists of ranges, joined by the list mark. -/
def WellFormedPeriod (value : String) : Prop :=
  ∃ ranges : List ((Fin 100 × Fin 100) × (Fin 100 × Fin 100)),
    value = Text.join "、" (ranges.map periodText)

/-- Every piece of the periods of the day has a second part after `~`. -/
def RangesSplit (db : AccountDatabase) (policies : List LoginPolicy) (now : Moment) : Prop :=
  ∀ policy ∈ policies, policy.enabled = true →
    ∀ period ∈ TimePeriodRepository.findByLoginPolicyId db policy.id,
      (now.weekday.val : Int) = period.key → period.value ≠ "" →
        ∀ t ∈ Text.split period.value '、', '~' ∈ t.toList

/-! ## IP groups of login policies

The documented form of the IP group of a login policy: a list of addresses, blocks and ranges with
commas between them and spaces around them, where `0.0.0.0` stands for every address. `checkClientIp`
cuts the text at its commas and reads the pieces with their spaces.
-/

/-- A member of an IP group, with the number of spaces before and after it. -/
structure GroupMember where
  item : IPItem
  before : Nat := 0
  after : Nat := 0
  deriving DecidableEq, Repr

def spaces (n : Nat) : String := String.ofList (List.replicate n ' ')

namespace GroupMember

def text (m : GroupMember) : String := spaces m.before ++ m.item.text ++ spaces m.after

/-- The member has the address, or is the one that stands for all. -/
def Contains (m : GroupMember) (ip : IPv4) : Prop :=
  m.item = .address ⟨0, 0, 0, 0⟩ ∨ m.item.covers ip = true

/-- The end of a range when the spaces after it make its last number a 0. -/
def stopRead (m : GroupMember) (stop : IPv4) : Nat :=
  if m.after = 0 then stop.toNat else { stop with d := 0 }.toNat

/-- The member has the address and is read so: it has no spaces around it, or it is a range that has
the address up to its end as that is read. -/
def Found (m : GroupMember) (ip : IPv4) : Prop :=
  m.item.covers ip = true ∧
    match m.item with
    | .range _ stop => ip.toNat ≤ m.stopRead stop
    | _ => m.before = 0 ∧ m.after = 0

/-- The address lies below a range that has spaces before it, whose first number is read as 0. -/
def Overread (m : GroupMember) (ip : IPv4) : Prop :=
  match m.item with
  | .range start stop => m.before ≠ 0 ∧ { start with a := 0 }.toNat ≤ ip.toNat ∧
      ip.toNat < start.toNat ∧ ip.toNat ≤ m.stopRead stop
  | _ => False

end GroupMember

/-- The text of an IP group. -/
def groupText (members : List GroupMember) : String := Text.join "," (members.map GroupMember.text)

example : groupText [{ item := .address ⟨192, 168, 0, 1⟩ },
    { item := .cidr ⟨⟨192, 168, 1, 0⟩, 24⟩, before := 1 },
    { item := .range ⟨192, 168, 2, 0⟩ ⟨192, 168, 2, 20⟩, before := 1 }] =
    "192.168.0.1, 192.168.1.0/24, 192.168.2.0-192.168.2.20" := by decide

/-- `checkClientIp` treats a policy with the group as matching: whatever policies come before it, its
rule is the decision. -/
def TreatedAsMatching (clientIp ipGroup : String) : Prop :=
  ∀ (policies : List LoginPolicy) (policy : LoginPolicy), policy.enabled = true →
    policy.ipGroup = ipGroup →
      (checkClientIp cidrContains (policies ++ [policy]) clientIp = .ok () ↔ policy.rule = "allow")

/-- A policy with the group is treated as matching exactly when a member contains the client. -/
def GroupRead (members : List GroupMember) (ip : IPv4) : Prop :=
  TreatedAsMatching ip.text (groupText members) ↔ ∃ m ∈ members, m.Contains ip

/-- A group that contains the client has a member that is read as containing it, and a range that is
read too widely for the client only when some member contains the client. -/
structure ReadAsWritten (members : List GroupMember) (ip : IPv4) : Prop where
  found : (∃ m ∈ members, m.Contains ip) → ∃ m ∈ members, m.Found ip ∨ m.Overread ip
  within : (∃ m ∈ members, m.Overread ip) → ∃ m ∈ members, m.Contains ip

end NextDBM
