import NextDBM.Accounts.LoginPolicy
import NextDBM.Gate.Security
import NextDBM.Library.LastMatch

/-!
# Proofs: the three entrances against the documented rule

`tcpWall` lets the last covering rule decide, the other two entrances the first rule that covers the
client when its whole IP text is read as a single item. Each loop is brought to the rule it finds in
the table of rules; the entrances give the documented decision exactly when these rules decide alike.
-/

namespace NextDBM

open Relational

/-! ## Texts of items -/

theorem isDigit_of_decimal {s : String} {n : Nat} (h : IPv4.decimal s = some n) :
    s ≠ "" ∧ ∀ ch ∈ s.toList, ch.isDigit = true := by
  unfold IPv4.decimal at h
  split at h
  next hdigits => exact ⟨hdigits.1, List.all_eq_true.mp hdigits.2⟩
  · cases h

/-- A decimal number is read as it is, up to the largest integer. -/
theorem stringToInt_of_decimal {s : String} {n : Nat} (h : IPv4.decimal s = some n) (hn : n < 2 ^ 63) :
    stringToInt s = n := by
  have hdigits := (isDigit_of_decimal h).2
  have hdecimal : IPv4.decimal (String.ofList s.toList) = some n := by
    rw [String.ofList_toList, h]
  unfold stringToInt
  split
  · next cs hcs =>
    have hdigit := hdigits '-' (by rw [hcs]; exact List.mem_cons_self)
    cases hdigit
  · next cs hcs =>
    have hdigit := hdigits '+' (by rw [hcs]; exact List.mem_cons_self)
    cases hdigit
  · simp only [hdecimal]
    show max (-2 ^ 63) (min (2 ^ 63 - 1) (n : Int)) = n
    omega

theorem stringToInt_repr {n : Nat} (hn : n < 2 ^ 63) : stringToInt n.repr = n :=
  stringToInt_of_decimal (IPv4.decimal_repr n) hn

theorem stringToInt_octetText (n : Fin 256) : stringToInt (IPv4.octetText n) = n.val :=
  stringToInt_repr (by omega)

/-- `IpToInt` of the text of an address is the number of the address. -/
theorem ipToInt_text (ip : IPv4) : ipToInt ip.text = ip.toNat := by
  have hne : ip.text ≠ "" := by
    intro h
    have hparse := ip.parse_text
    rw [h] at hparse
    exact absurd hparse (by simp [show IPv4.parse "" = none by decide])
  rw [ipToInt, if_neg hne, ip.split_text]
  simp only [stringToInt_octetText, IPv4.toNat]
  have ha := ip.a.isLt
  have hb := ip.b.isLt
  have hc := ip.c.isLt
  have hd := ip.d.isLt
  rw [Int.bmod_eq_of_le (by omega) (by omega)]
  omega

theorem hasChar_eq_false {s : String} {ch : Char} (h : ch ∉ s.toList) : hasChar s ch = false := by
  simpa [hasChar] using h

theorem dash_toList : "-".toList = ['-'] := by decide

/-- Read as a single item, the text of an item covers what the item covers. -/
theorem matchText_text {rangeParts : Nat → Bool} (hparts : rangeParts 2 = true) (item : IPItem)
    (ip : IPv4) : matchText rangeParts item.text ip.text = item.covers ip := by
  cases item with
  | address a =>
    have hslash : '/' ∉ a.text.toList := a.not_mem_text (by decide) (by decide)
    have hdash : '-' ∉ a.text.toList := a.not_mem_text (by decide) (by decide)
    rw [IPItem.text, matchText, hasChar_eq_false hslash, hasChar_eq_false hdash, IPItem.covers,
      Bool.eq_iff_iff]
    simp only [Bool.false_eq_true, if_false, beq_iff_eq]
    exact ⟨IPv4.text_injective, fun h => h ▸ rfl⟩
  | cidr net =>
    have hslash : hasChar net.text '/' = true := by
      simp [hasChar, CIDR.text, String.toList_append, show "/".toList = ['/'] by decide]
    rw [IPItem.text, matchText, hslash, if_pos rfl, cidrContains, CIDR.parse_text,
      IPv4.parse_text, IPItem.covers]
  | range start stop =>
    have hstart : '-' ∉ start.text.toList := start.not_mem_text (by decide) (by decide)
    have hstop : '-' ∉ stop.text.toList := stop.not_mem_text (by decide) (by decide)
    have hslash : '/' ∉ (start.text ++ "-" ++ stop.text).toList := by
      simp only [String.toList_append, dash_toList, List.mem_append, List.mem_singleton, not_or]
      exact ⟨⟨start.not_mem_text (by decide) (by decide), by decide⟩,
        stop.not_mem_text (by decide) (by decide)⟩
    have hdash : hasChar (start.text ++ "-" ++ stop.text) '-' = true := by
      simp [hasChar, String.toList_append, dash_toList]
    rw [IPItem.text, matchText, hasChar_eq_false hslash, hdash,
      Text.split_append_sep hstart dash_toList, Text.split_of_not_mem hstop, IPItem.covers,
      Bool.eq_iff_iff]
    simp [ipToInt_text, hparts]

/-- No item contains a comma. -/
theorem comma_not_mem_text (item : IPItem) : ',' ∉ item.text.toList := by
  cases item with
  | address a => exact a.not_mem_text (by decide) (by decide)
  | cidr net => exact net.not_mem_text (by decide) (by decide) (by decide)
  | range start stop =>
    simp only [IPItem.text, String.toList_append, dash_toList, List.mem_append,
      List.mem_singleton, not_or]
    exact ⟨⟨start.not_mem_text (by decide) (by decide), by decide⟩,
      stop.not_mem_text (by decide) (by decide)⟩

theorem split_ipText (r : AccessRule) : Text.split r.ipText ',' = r.group.map IPItem.text := by
  refine Text.split_join (by decide) (by simp [AccessRule.group]) fun p hp => ?_
  obtain ⟨item, -, rfl⟩ := List.mem_map.mp hp
  exact comma_not_mem_text item

/-! ## The loops -/

/-- The groups of one rule set the decision when one of them matches. -/
theorem foldl_groups (r : AccessRule) (ip : IPv4) (pass : Bool) :
    (Text.split r.toSecurity.ip ',').foldl (fun pass ipGroup =>
        if matchText (2 ≤ ·) ipGroup ip.text then r.toSecurity.rule == nd.accessRuleAllow
        else pass) pass =
      if r.covers ip then r.allows else pass := by
  rw [LastMatch.foldl_any]
  have hany : (Text.split r.toSecurity.ip ',').any (fun ipGroup => matchText (2 ≤ ·) ipGroup ip.text) =
      r.covers ip := by
    show (Text.split r.ipText ',').any _ = r.group.any (IPItem.covers ip)
    rw [split_ipText, List.any_map]
    refine congrArg r.group.any (funext fun item => ?_)
    exact @matchText_text (2 ≤ ·) (by decide) item ip
  rw [hany]
  rfl

theorem values_eq (rules : RuleTable) :
    rules.values = rules.sorted.map AccessRule.toSecurity :=
  (List.map_insertionSort _ _ AccessRule.toSecurity rules.rows fun _ _ _ _ => Iff.rfl).symm

/-- The HTTP entrance decides as the covering rule with the largest priority number. -/
theorem tcpWallPass_eq (rules : RuleTable) (ip : IPv4) :
    tcpWallPass rules.values ip.text = RuleTable.verdict (rules.last fun r => r.covers ip) := by
  have hfold : tcpWallPass rules.values ip.text =
      rules.sorted.foldl (fun pass r => if r.covers ip then r.allows else pass) true := by
    rw [tcpWallPass, values_eq, List.foldl_map]
    exact congrArg (fun f => rules.sorted.foldl f true)
      (funext fun pass => funext fun r => foldl_groups r ip pass)
  rw [hfold, LastMatch.foldl_last_match, Table.find?_reverse_sorted]
  cases rules.last fun r => r.covers ip <;> rfl

/-- The first-match loop decides as the first rule whose whole text covers the client. -/
theorem firstDecision_map (rangeParts : Nat → Bool) (ip : IPv4) (rs : List AccessRule) :
    firstDecision rangeParts ip.text (rs.map AccessRule.toSecurity) =
      RuleTable.verdict (rs.find? fun r => r.coversAsOneItem rangeParts ip) := by
  induction rs with
  | nil => rfl
  | cons r rs ih =>
    rw [List.map_cons, firstDecision, List.find?_cons, AccessRule.coversAsOneItem]
    cases hmatch : matchText rangeParts r.ipText ip.text with
    | false =>
      rw [if_neg (by simp [AccessRule.toSecurity, hmatch]), Bool.false_and]
      exact ih
    | true =>
      rw [if_pos (by simp [AccessRule.toSecurity, hmatch]), Bool.true_and]
      by_cases hallow : r.rule = nd.accessRuleAllow
      · simp [AccessRule.toSecurity, hallow, RuleTable.verdict, AccessRule.allows]
      · by_cases hreject : r.rule = nd.accessRuleReject
        · simp [AccessRule.toSecurity, hreject, RuleTable.verdict, AccessRule.allows,
            show nd.accessRuleReject ≠ nd.accessRuleAllow by decide]
        · have hunknown : (r.rule == nd.accessRuleAllow || r.rule == nd.accessRuleReject) = false := by
            simp [hallow, hreject]
          rw [hunknown]
          simpa [AccessRule.toSecurity, hallow, hreject] using ih

theorem firstDecision_eq (rangeParts : Nat → Bool) (rules : RuleTable) (ip : IPv4) :
    firstDecision rangeParts ip.text rules.values =
      RuleTable.verdict (rules.first fun r => r.coversAsOneItem rangeParts ip) := by
  rw [values_eq, firstDecision_map, Table.find?_sorted]

/-! ## The entrances -/

/-- The three entrances give the documented decision for a client. -/
structure EntrancesAgree (rules : RuleTable) (ip : IPv4) : Prop where
  http : ∀ scripted, tcpWall rules.values ip.text scripted = .next ↔ rules.documented ip = true
  ssh : ∀ port, (connCallback rules.values (ip.text ++ ":" ++ port)).1 = rules.documented ip
  proxy : (allowIP rules.values ip.text).1 = rules.documented ip

theorem tcpWall_eq_next (rules : RuleTable) (ip : IPv4) (scripted : Bool) :
    tcpWall rules.values ip.text scripted = .next ↔ tcpWallPass rules.values ip.text = true := by
  rw [tcpWall]
  split
  · next hempty =>
    have hnil : rules.values = [] := List.isEmpty_iff.mp hempty
    rw [hnil]
    exact ⟨fun _ => rfl, fun _ => rfl⟩
  · split
    · next hpass => exact ⟨fun _ => hpass, fun _ => rfl⟩
    · next hpass =>
      refine ⟨fun h => ?_, fun h => absurd h hpass⟩
      cases scripted <;> cases h

theorem connCallback_fst (rules : RuleTable) (ip : IPv4) (port : String) :
    (connCallback rules.values (ip.text ++ ":" ++ port)).1 =
      firstDecision (2 ≤ ·) ip.text rules.values := by
  have hcolon : ':' ∉ ip.text.toList := ip.not_mem_text (by decide) (by decide)
  rw [connCallback, Text.split_append_sep hcolon (by decide)]
  split
  · next hempty =>
    have hnil : rules.values = [] := List.isEmpty_iff.mp hempty
    rw [hnil]
    rfl
  · dsimp only [List.headD_cons]
    split
    · next hpass => exact hpass.symm
    · next hpass => exact (Bool.eq_false_iff.mpr hpass).symm

theorem allowIP_fst (securities : List Security) (ip : String) :
    (allowIP securities ip).1 = firstDecision (· == 2) ip securities := by
  rw [allowIP]
  split
  · next hempty =>
    have hnil : securities = [] := List.isEmpty_iff.mp hempty
    rw [hnil]
    rfl
  · split
    · next hpass => exact hpass.symm
    · next hpass => exact (Bool.eq_false_iff.mpr hpass).symm

/-- A rule with a single item is read alike everywhere. -/
theorem coversAsOneItem_of_single {rangeParts : Nat → Bool} (hparts : rangeParts 2 = true)
    {r : AccessRule} (hitems : r.items = [])
    (hrule : r.rule = nd.accessRuleAllow ∨ r.rule = nd.accessRuleReject) (ip : IPv4) :
    r.coversAsOneItem rangeParts ip = r.covers ip := by
  have htext : r.ipText = r.item.text := by
    rw [AccessRule.ipText, AccessRule.group, hitems]
    rfl
  have hknown : (r.rule == nd.accessRuleAllow || r.rule == nd.accessRuleReject) = true := by
    simpa using hrule
  rw [AccessRule.coversAsOneItem, htext, matchText_text hparts, hknown, Bool.and_true,
    AccessRule.covers, AccessRule.group, hitems]
  simp

/-- Two rules for one client, whose decisions differ: one address is rejected out of a block that is
allowed. -/
def rejectOne : RuleTable :=
  ⟨[{ rule := nd.accessRuleReject, item := .address ⟨10, 0, 0, 1⟩, priority := 1 },
    { rule := nd.accessRuleAllow, item := .cidr ⟨⟨10, 0, 0, 0⟩, 8⟩, priority := 2 }], by decide⟩

theorem decimal_of_parseOctet {s : String} {n : Fin 256} (h : IPv4.parseOctet s = some n) :
    IPv4.decimal s = some n.val := by
  unfold IPv4.parseOctet at h
  split at h
  next m hm =>
    split at h
    · obtain rfl := Option.some.inj h
      exact hm
    · cases h
  · cases h

/-- An address has four pieces, which are read as its octets. -/
theorem pieces_of_parse {s : String} {ip : IPv4} (h : IPv4.parse s = some ip) :
    ∃ w x y z, Text.split s '.' = [w, x, y, z] ∧ stringToInt w = ip.a.val ∧ stringToInt x = ip.b.val ∧
      stringToInt y = ip.c.val ∧ stringToInt z = ip.d.val := by
  have hoctet {p : String} {n : Fin 256} (hp : IPv4.parseOctet p = some n) : stringToInt p = n.val :=
    stringToInt_of_decimal (decimal_of_parseOctet hp) (by omega)
  unfold IPv4.parse at h
  split at h
  next w x y z hsplit =>
    obtain ⟨a, ha, h⟩ := Option.bind_eq_some_iff.mp h
    obtain ⟨b, hb, h⟩ := Option.bind_eq_some_iff.mp h
    obtain ⟨c, hc, h⟩ := Option.bind_eq_some_iff.mp h
    obtain ⟨d, hd, h⟩ := Option.bind_eq_some_iff.mp h
    obtain rfl := Option.some.inj h
    exact ⟨w, x, y, z, hsplit, hoctet ha, hoctet hb, hoctet hc, hoctet hd⟩
  · cases h

/-- The shifts of `IpToInt` give the loose number. -/
theorem ipToInt_eq (s : String) : ipToInt s = looseNumber s := by
  unfold ipToInt looseNumber
  by_cases hempty : s = ""
  · subst hempty
    rfl
  · rw [if_neg hempty]
    dsimp only
    split
    next b0 b1 b2 b3 rest hsplit =>
      have hlength : 4 ≤ (Text.split s '.').length := by
        rw [hsplit]
        simp
      have hsum : (((Text.split s '.').take 4).foldl (fun n piece => 256 * n + stringToInt piece) 0) =
          stringToInt b0 * 2 ^ 24 + stringToInt b1 * 2 ^ 16 + stringToInt b2 * 2 ^ 8 + stringToInt b3 := by
        rw [hsplit]
        simp only [List.take_succ_cons, List.take_zero, List.foldl_cons, List.foldl_nil]
        omega
      rw [if_pos hlength, hsum]
      rfl
    next hshort =>
      have hlength : ¬ 4 ≤ (Text.split s '.').length := by
        intro hlong
        match hpieces : Text.split s '.', hlong with
        | b0 :: b1 :: b2 :: b3 :: rest, _ => exact hshort b0 b1 b2 b3 rest hpieces
      rw [if_neg hlength]

/-- The loose number of an address is its number. -/
theorem looseNumber_of_parse {s : String} {ip : IPv4} (h : IPv4.parse s = some ip) :
    looseNumber s = ip.toNat := by
  obtain ⟨w, x, y, z, hsplit, hw, hx, hy, hz⟩ := pieces_of_parse h
  have ha := ip.a.isLt
  have hb := ip.b.isLt
  have hc := ip.c.isLt
  have hd := ip.d.isLt
  unfold looseNumber
  rw [hsplit]
  simp only [List.length_cons, List.length_nil, List.take_succ_cons, List.take_zero, List.foldl_cons,
    List.foldl_nil, hw, hx, hy, hz, IPv4.toNat]
  rw [if_pos (by omega), Int64Arith.wrap_of_fits (by omega) (by omega)]
  omega

/-! ## The test -/

theorem RangeText.hasChar_slash (r : RangeText) : hasChar r.text '/' = false := by
  refine hasChar_eq_false ?_
  simp only [text, String.toList_append, dash_toList, List.mem_append, List.mem_singleton, not_or]
  exact ⟨⟨r.startPlain.1, by decide⟩, r.stopPlain.1⟩

theorem RangeText.hasChar_dash (r : RangeText) : hasChar r.text '-' = true := by
  simp [hasChar, text, String.toList_append, dash_toList]

theorem RangeText.split_text (r : RangeText) : Text.split r.text '-' = [r.start, r.stop] := by
  rw [text, Text.split_append_sep r.startPlain.2 dash_toList, Text.split_of_not_mem r.stopPlain.2]

/-- **All gates compare the loose numbers.** -/
theorem reports_iff (gate : RangeGate) (r : RangeText) (client : String) :
    gate.reports r.text client = true ↔
      looseNumber r.start ≤ looseNumber client ∧ looseNumber client ≤ looseNumber r.stop := by
  have htest : (!(ipToInt client < ipToInt r.start || ipToInt client > ipToInt r.stop)) = true ↔
      looseNumber r.start ≤ looseNumber client ∧ looseNumber client ≤ looseNumber r.stop := by
    rw [ipToInt_eq, ipToInt_eq, ipToInt_eq]
    simp
  have hmatch (rangeParts : Nat → Bool) (hparts : rangeParts 2 = true) :
      matchText rangeParts r.text client =
        !(ipToInt client < ipToInt r.start || ipToInt client > ipToInt r.stop) := by
    rw [matchText, r.hasChar_slash, r.hasChar_dash, r.split_text]
    simp [hparts]
  rw [← htest]
  cases gate with
  | tcpWall => rw [RangeGate.reports, hmatch _ rfl]
  | connCallback => rw [RangeGate.reports, hmatch _ rfl]
  | allowIP => rw [RangeGate.reports, hmatch _ rfl]
  | checkClientIp =>
    rw [RangeGate.reports, groupMatches, r.hasChar_slash, r.hasChar_dash, r.split_text]
    rfl

theorem covers_iff {r : RangeText} {client : String} (hstart : IsAddress r.start)
    (hstop : IsAddress r.stop) (hclient : IsAddress client) : r.Covers client ↔
      looseNumber r.start ≤ looseNumber client ∧ looseNumber client ≤ looseNumber r.stop := by
  obtain ⟨start, hstart⟩ := Option.isSome_iff_exists.mp hstart
  obtain ⟨stop, hstop⟩ := Option.isSome_iff_exists.mp hstop
  obtain ⟨ip, hclient⟩ := Option.isSome_iff_exists.mp hclient
  rw [looseNumber_of_parse hstart, looseNumber_of_parse hstop, looseNumber_of_parse hclient]
  constructor
  · rintro ⟨start', stop', ip', hstart', hstop', hclient', hle, hle'⟩
    rw [hstart] at hstart'
    rw [hstop] at hstop'
    rw [hclient] at hclient'
    obtain rfl := Option.some.inj hstart'
    obtain rfl := Option.some.inj hstop'
    obtain rfl := Option.some.inj hclient'
    exact ⟨Int.ofNat_le.mpr hle, Int.ofNat_le.mpr hle'⟩
  · rintro ⟨hle, hle'⟩
    exact ⟨start, stop, ip, hstart, hstop, hclient, Int.ofNat_le.mp hle, Int.ofNat_le.mp hle'⟩

theorem RangeText.Covers.addresses {r : RangeText} {client : String} (h : r.Covers client) :
    IsAddress r.start ∧ IsAddress r.stop ∧ IsAddress client := by
  obtain ⟨start, stop, ip, hstart, hstop, hclient, -, -⟩ := h
  exact ⟨Option.isSome_of_mem hstart, Option.isSome_of_mem hstop, Option.isSome_of_mem hclient⟩

/-- **When a range is read right.** -/
theorem rangeRead_iff (gate : RangeGate) (r : RangeText) (client : String) :
    RangeRead gate r client ↔ ReadsRight r client := by
  unfold RangeRead ReadsRight
  rw [reports_iff]
  by_cases haddresses : IsAddress r.start ∧ IsAddress r.stop ∧ IsAddress client
  · rw [covers_iff haddresses.1 haddresses.2.1 haddresses.2.2]
    exact iff_of_true Iff.rfl (.inl haddresses)
  · have hnot : ¬ r.Covers client := fun h => haddresses h.addresses
    rw [iff_false_right hnot]
    constructor
    · intro h
      right
      omega
    · rintro (h | h)
      · exact absurd h haddresses
      · omega

/-- `IpToInt` gives 0 for an address of another protocol, which is the address `0.0.0.0`. -/
theorem not_rangeRead_ipv6 :
    ¬ RangeRead .tcpWall ⟨"0.0.0.0", "10.255.255.255", by decide, by decide⟩ "::1" := by
  intro h
  obtain ⟨start, stop, ip, -, -, hclient, -, -⟩ := h.mp (by decide)
  have hnone : IPv4.parse "::1" = none := by decide
  rw [hnone] at hclient
  cases hclient

/-- Between two addresses, a client of less than four pieces is read right unless the range begins with
`0.0.0.0`. -/
theorem rangeRead_short_iff (gate : RangeGate) {r : RangeText} {start stop : IPv4} {client : String}
    (hstart : IPv4.parse r.start = some start) (hstop : IPv4.parse r.stop = some stop)
    (hshort : (Text.split client '.').length < 4) : RangeRead gate r client ↔ start.toNat ≠ 0 := by
  have hclient : ¬ IsAddress client := by
    intro h
    obtain ⟨ip, hip⟩ := Option.isSome_iff_exists.mp h
    obtain ⟨w, x, y, z, hsplit, -⟩ := pieces_of_parse hip
    rw [hsplit] at hshort
    exact absurd hshort (by simp)
  have hzero : looseNumber client = 0 := if_neg (by omega)
  have hnot : ¬ r.Covers client := fun h => hclient h.addresses.2.2
  rw [RangeRead, reports_iff, hzero, looseNumber_of_parse hstart, looseNumber_of_parse hstop,
    iff_false_right hnot]
  omega

end NextDBM
