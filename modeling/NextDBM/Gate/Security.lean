import Mathlib.Data.List.Sort
import Mathlib.Algebra.Order.Ring.Int
import NextDBM.Library.IPv4
import NextDBM.Model.Rows

/-!
# Access rules at the three entrances

The access-security rules decide which clients may connect. `Manager` keeps them sorted by priority,
where a smaller number takes precedence, and each entrance runs its own loop over them: `tcpWall` for
HTTP, `connCallback` for SSH and `allowIP` for the MariaDB proxy. The texts of addresses and blocks
are those of IPv4; on a text that is neither, `net.ParseCIDR` is taken to fail, which for an IPv4
client has the effect of a block that does not contain it.
-/

namespace NextDBM

/-- `security.Security`. -/
structure Security where
  id : String := ""
  rule : String := ""
  ip : String := ""
  /-- The smaller the number, the higher the priority. -/
  priority : Int := 0
  deriving DecidableEq, Repr

namespace Manager

/-- `LoadData`: the rules in ascending order of their priority numbers. -/
def loadData (securities : List Security) : List Security :=
  securities.insertionSort fun s t => s.priority ≤ t.priority

end Manager

/-! ## Numbers of texts (`server/utils`) -/

/-- `strconv.Atoi` without its error: an optional sign and decimal digits; other texts give 0, and a
number outside the 64-bit range gives the nearest bound. -/
def stringToInt (s : String) : Int :=
  let unsigned : List Char → Option Nat := fun cs => IPv4.decimal (String.ofList cs)
  let value : Option Int := match s.toList with
    | '-' :: cs => (unsigned cs).map fun n => -(n : Int)
    | '+' :: cs => (unsigned cs).map fun n => (n : Int)
    | cs => (unsigned cs).map fun n => (n : Int)
  max (-2 ^ 63) (min (2 ^ 63 - 1) (value.getD 0))

/-- `IpToInt`, in 64-bit two's complement arithmetic. -/
def ipToInt (ip : String) : Int :=
  if ip = "" then 0
  else match Text.split ip '.' with
    | b0 :: b1 :: b2 :: b3 :: _ =>
      Int.bmod (stringToInt b0 * 2 ^ 24 + stringToInt b1 * 2 ^ 16 + stringToInt b2 * 2 ^ 8 +
        stringToInt b3) (2 ^ 64)
    | _ => 0

/-- `strings.Contains` for a single character. -/
def hasChar (s : String) (ch : Char) : Bool := s.toList.contains ch

/-- `ParseCIDR` followed by `Contains (ParseIP ip)`. -/
def cidrContains (cidr ip : String) : Bool :=
  match CIDR.parse cidr, IPv4.parse ip with
  | some ipNet, some addr => ipNet.contains addr
  | _, _ => false

/-- The reading of one IP text that the three loops share: a block when it has a slash, a range when
it has a dash, otherwise an address. They differ in how many parts a range may have. -/
def matchText (rangeParts : Nat → Bool) (text ip : String) : Bool :=
  if hasChar text '/' then cidrContains text ip
  else if hasChar text '-' then
    match Text.split text '-' with
    | start :: stop :: rest =>
      rangeParts (rest.length + 2) && !(ipToInt ip < ipToInt start || ipToInt ip > ipToInt stop)
    | _ => false
  else text == ip

/-! ## The entrances -/

/-- What `TcpWall` does with a request. -/
inductive WallResponse
  | next
  | fail (code : Int) (message : String)
  | html (status : Nat) (body : String)
  deriving DecidableEq, Repr

/-- The loop of `TcpWall`: every group of every rule that matches overwrites the decision. -/
def tcpWallPass (securities : List Security) (ip : String) : Bool :=
  securities.foldl (fun pass s =>
    (Text.split s.ip ',').foldl (fun pass ipGroup =>
      if matchText (2 ≤ ·) ipGroup ip then s.rule == nd.accessRuleAllow else pass) pass) true

/-- `TcpWall`; `scripted` says whether one of the headers `X-Requested-With` and `X-Auth-Token` is
set. -/
def tcpWall (securities : List Security) (ip : String) (scripted : Bool) : WallResponse :=
  if securities.isEmpty then .next
  else if tcpWallPass securities ip then .next
  else if scripted then .fail (-1) "您的访问请求被拒绝 :("
  else .html 666 "您的访问请求被拒绝 :("

/-- The loop of `connCallback` and `allowIP`: the first rule that matches with its whole IP text and
is an allow or a reject rule decides; without one the connection is allowed. -/
def firstDecision (rangeParts : Nat → Bool) (ip : String) : List Security → Bool
  | [] => true
  | s :: securities =>
    if matchText rangeParts s.ip ip then
      if s.rule = nd.accessRuleAllow then true
      else if s.rule = nd.accessRuleReject then false
      else firstDecision rangeParts ip securities
    else firstDecision rangeParts ip securities

def deniedText : String := "your access request was denied :(\n"

/-- `connCallback`: whether the connection is kept, and what is written to it otherwise. -/
def connCallback (securities : List Security) (remoteAddr : String) : Bool × String :=
  if securities.isEmpty then (true, "")
  else
    let ip := (Text.split remoteAddr ':').headD ""
    if firstDecision (2 ≤ ·) ip securities then (true, "") else (false, deniedText)

/-- `allowIP`: the decision and its reason. -/
def allowIP (securities : List Security) (ip : String) : Bool × String :=
  if securities.isEmpty then (true, "")
  else if firstDecision (· == 2) ip securities then (true, "") else (false, deniedText)

/-! ## The documented meaning -/

/-- An item of an IP group. -/
inductive IPItem
  | address (ip : IPv4)
  | cidr (net : CIDR)
  | range (start stop : IPv4)
  deriving DecidableEq, Repr

namespace IPItem

def text : IPItem → String
  | address ip => ip.text
  | cidr net => net.text
  | range start stop => start.text ++ "-" ++ stop.text

def covers (ip : IPv4) : IPItem → Bool
  | address a => a == ip
  | cidr net => net.contains ip
  | range start stop => decide (start.toNat ≤ ip.toNat ∧ ip.toNat ≤ stop.toNat)

end IPItem

/-- A rule whose IP group is a comma-separated list of items. -/
structure AccessRule where
  id : String := ""
  rule : String := ""
  /-- The first item of the group. -/
  item : IPItem
  items : List IPItem := []
  priority : Int := 0
  deriving DecidableEq, Repr

namespace AccessRule

def group (r : AccessRule) : List IPItem := r.item :: r.items

def ipText (r : AccessRule) : String := Text.join "," (r.group.map IPItem.text)

def covers (r : AccessRule) (ip : IPv4) : Bool := r.group.any (IPItem.covers ip)

def allows (r : AccessRule) : Bool := r.rule == nd.accessRuleAllow

/-- The rule as the manager stores it. -/
def toSecurity (r : AccessRule) : Security :=
  { id := r.id, rule := r.rule, ip := r.ipText, priority := r.priority }

/-- The rule is an allow or a reject rule, and its IP text, read as a single item, covers the
client. -/
def coversAsOneItem (rangeParts : Nat → Bool) (ip : IPv4) (r : AccessRule) : Bool :=
  matchText rangeParts r.ipText ip.text &&
    (r.rule == nd.accessRuleAllow || r.rule == nd.accessRuleReject)

end AccessRule

/-- Rules with pairwise distinct priorities. -/
abbrev RuleTable : Type := Relational.Table AccessRule AccessRule.priority

namespace RuleTable

/-- The sorted list that the entrances loop over. -/
def values (rules : RuleTable) : List Security :=
  Manager.loadData (rules.rows.map AccessRule.toSecurity)

/-- The decision of the rule that is found, and allow without one. -/
def verdict : Option AccessRule → Bool
  | some r => r.allows
  | none => true

/-- The documented decision: that of the covering rule with the smallest priority number. -/
def documented (rules : RuleTable) (ip : IPv4) : Bool :=
  verdict (rules.first fun r => r.covers ip)

end RuleTable

end NextDBM
