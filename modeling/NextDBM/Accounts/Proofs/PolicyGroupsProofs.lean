import NextDBM.Accounts.PolicyRules
import NextDBM.Accounts.Proofs.PolicyRulesProofs
import NextDBM.Gate.Proofs.GateProofs

/-!
# Proofs: IP groups of login policies

A piece of a group with spaces around it is no address and no block, and as a range it loses its first
number to spaces before it and its last number to spaces after it. Nothing else separates what
`checkClientIp` reads from what the group says, apart from `0.0.0.0`, which is read as an address.
-/

namespace NextDBM

/-! ## Spaces -/

theorem toList_spaces (n : Nat) : (spaces n).toList = List.replicate n ' ' := String.toList_ofList

theorem spaces_zero : spaces 0 = "" := rfl

theorem space_mem_spaces {n : Nat} (hn : n ≠ 0) : ' ' ∈ (spaces n).toList := by
  rw [toList_spaces]
  exact List.mem_replicate.mpr ⟨hn, rfl⟩

/-- Spaces hold no other character. -/
theorem not_mem_spaces (n : Nat) {ch : Char} (hspace : ch ≠ ' ') : ch ∉ (spaces n).toList := by
  rw [toList_spaces]
  exact fun h => hspace (List.eq_of_mem_replicate h)

theorem mem_before {b : Nat} {s : String} {ch : Char} (hspace : ch ≠ ' ') :
    ch ∈ (spaces b ++ s).toList ↔ ch ∈ s.toList := by
  rw [String.toList_append, List.mem_append]
  exact or_iff_right (not_mem_spaces b hspace)

theorem mem_after {a : Nat} {s : String} {ch : Char} (hspace : ch ≠ ' ') :
    ch ∈ (s ++ spaces a).toList ↔ ch ∈ s.toList := by
  rw [String.toList_append, List.mem_append]
  exact or_iff_left (not_mem_spaces a hspace)

/-- Spaces around a text add no other character. -/
theorem mem_spaced {b a : Nat} {s : String} {ch : Char} (hspace : ch ≠ ' ') :
    ch ∈ (spaces b ++ s ++ spaces a).toList ↔ ch ∈ s.toList :=
  (mem_after hspace).trans (mem_before hspace)

theorem space_mem_before {b : Nat} (hb : b ≠ 0) (s : String) : ' ' ∈ (spaces b ++ s).toList := by
  rw [String.toList_append]
  exact List.mem_append_left _ (space_mem_spaces hb)

theorem space_mem_after {a : Nat} (ha : a ≠ 0) (s : String) : ' ' ∈ (s ++ spaces a).toList := by
  rw [String.toList_append]
  exact List.mem_append_right _ (space_mem_spaces ha)

/-- A text with a space is no number. -/
theorem decimal_of_space {s : String} (h : ' ' ∈ s.toList) : IPv4.decimal s = none := by
  rw [IPv4.decimal, if_neg]
  rintro ⟨-, hdigits⟩
  exact absurd (List.all_eq_true.mp hdigits ' ' h) (by decide)

theorem stringToInt_of_space {s : String} (h : ' ' ∈ s.toList) : stringToInt s = 0 := by
  have hunsigned {cs : List Char} (hcs : ' ' ∈ cs) : IPv4.decimal (String.ofList cs) = none :=
    decimal_of_space (String.toList_ofList.symm ▸ hcs)
  unfold stringToInt
  dsimp only
  split
  · next cs hsplit =>
    rw [hsplit] at h
    rw [hunsigned ((List.mem_cons.mp h).resolve_left (by decide))]
    decide
  · next cs hsplit =>
    rw [hsplit] at h
    rw [hunsigned ((List.mem_cons.mp h).resolve_left (by decide))]
    decide
  · rw [hunsigned h]
    decide

/-! ## Addresses -/

/-- An address with spaces around it is cut at its dots into its octets, with the spaces at the first
and the last of them. -/
theorem split_spaced (b a : Nat) (ip : IPv4) :
    Text.split (spaces b ++ ip.text ++ spaces a) '.' =
      [spaces b ++ IPv4.octetText ip.a, IPv4.octetText ip.b, IPv4.octetText ip.c,
        IPv4.octetText ip.d ++ spaces a] := by
  have hdot : ".".toList = ['.'] := by decide
  have hfirst : '.' ∉ (spaces b ++ IPv4.octetText ip.a).toList := by
    rw [mem_before (by decide)]
    exact IPv4.dot_not_mem_octetText ip.a
  have hlast : '.' ∉ (IPv4.octetText ip.d ++ spaces a).toList := by
    rw [mem_after (by decide)]
    exact IPv4.dot_not_mem_octetText ip.d
  have htext : spaces b ++ ip.text ++ spaces a =
      spaces b ++ IPv4.octetText ip.a ++ "." ++ (IPv4.octetText ip.b ++ "." ++
        (IPv4.octetText ip.c ++ "." ++ (IPv4.octetText ip.d ++ spaces a))) := by
    simp only [IPv4.text, String.append_assoc]
  rw [htext, Text.split_append_sep hfirst hdot,
    Text.split_append_sep (IPv4.dot_not_mem_octetText ip.b) hdot,
    Text.split_append_sep (IPv4.dot_not_mem_octetText ip.c) hdot, Text.split_of_not_mem hlast]

/-- The number of an octet behind spaces. -/
theorem stringToInt_before (b : Nat) (n : Fin 256) :
    stringToInt (spaces b ++ IPv4.octetText n) = if b = 0 then (n.val : Int) else 0 := by
  by_cases hb : b = 0
  · rw [if_pos hb, hb, spaces_zero, String.empty_append, stringToInt_octetText]
  · rw [if_neg hb, stringToInt_of_space (space_mem_before hb _)]

theorem stringToInt_after (a : Nat) (n : Fin 256) :
    stringToInt (IPv4.octetText n ++ spaces a) = if a = 0 then (n.val : Int) else 0 := by
  by_cases ha : a = 0
  · rw [if_pos ha, ha, spaces_zero, String.append_empty, stringToInt_octetText]
  · rw [if_neg ha, stringToInt_of_space (space_mem_after ha _)]

/-- `IpToInt` drops the octet that spaces stand next to. -/
theorem ipToInt_spaced (b a : Nat) (ip : IPv4) : ipToInt (spaces b ++ ip.text ++ spaces a) =
    (⟨if b = 0 then ip.a else 0, ip.b, ip.c, if a = 0 then ip.d else 0⟩ : IPv4).toNat := by
  have hne : spaces b ++ ip.text ++ spaces a ≠ "" := by
    intro h
    have hsplit := split_spaced b a ip
    have hempty : Text.split "" '.' = [""] := by decide
    rw [h, hempty] at hsplit
    exact absurd (congrArg List.tail hsplit) (by simp)
  have hfirst : stringToInt (spaces b ++ IPv4.octetText ip.a) =
      ((if b = 0 then ip.a else 0 : Fin 256).val : Int) := by
    rw [stringToInt_before]
    split
    · rfl
    · rfl
  have hlast : stringToInt (IPv4.octetText ip.d ++ spaces a) =
      ((if a = 0 then ip.d else 0 : Fin 256).val : Int) := by
    rw [stringToInt_after]
    split
    · rfl
    · rfl
  rw [ipToInt, if_neg hne, split_spaced]
  dsimp only
  rw [hfirst, hlast, stringToInt_octetText, stringToInt_octetText, IPv4.toNat]
  dsimp only
  have ha := (if b = 0 then ip.a else 0 : Fin 256).isLt
  have hb := ip.b.isLt
  have hc := ip.c.isLt
  have hd := (if a = 0 then ip.d else 0 : Fin 256).isLt
  rw [Int.bmod_eq_of_le (by omega) (by omega)]
  omega

/-- The first address of a range, behind spaces. -/
theorem ipToInt_before (b : Nat) (ip : IPv4) :
    ipToInt (spaces b ++ ip.text) = (if b = 0 then ip else { ip with a := 0 }).toNat := by
  have h := ipToInt_spaced b 0 ip
  rw [spaces_zero, String.append_empty, if_pos rfl] at h
  rw [h]
  split
  · rfl
  · rfl

/-- The last address of a range, before spaces. -/
theorem ipToInt_after (a : Nat) (ip : IPv4) :
    ipToInt (ip.text ++ spaces a) = (if a = 0 then ip else { ip with d := 0 }).toNat := by
  have h := ipToInt_spaced 0 a ip
  rw [spaces_zero, String.empty_append, if_pos rfl] at h
  rw [h]
  split
  · rfl
  · rfl

theorem parse_before {b : Nat} (hb : b ≠ 0) (ip : IPv4) : IPv4.parse (spaces b ++ ip.text) = none := by
  have hsplit := split_spaced b 0 ip
  rw [spaces_zero, String.append_empty, String.append_empty] at hsplit
  have hoctet : IPv4.parseOctet (spaces b ++ IPv4.octetText ip.a) = none := by
    rw [IPv4.parseOctet, decimal_of_space (space_mem_before hb _)]
  rw [IPv4.parse, hsplit]
  dsimp only
  rw [hoctet]
  rfl

/-! ## Members -/

section Members

variable {m : GroupMember} {ip : IPv4}

/-- A block with spaces around it is not parsed. -/
theorem parse_spaced_cidr {b a : Nat} (hspaced : ¬ (b = 0 ∧ a = 0)) (net : CIDR) :
    CIDR.parse (spaces b ++ net.text ++ spaces a) = none := by
  have hslash : '/' ∉ (spaces b ++ net.base.text).toList := by
    rw [mem_before (by decide)]
    exact net.base.not_mem_text (by decide) (by decide)
  have hrest : '/' ∉ (CIDR.lenText net.len ++ spaces a).toList := by
    rw [mem_after (by decide)]
    exact fun h => absurd (CIDR.isDigit_of_mem_lenText net.len '/' h) (by decide)
  have htext : spaces b ++ net.text ++ spaces a =
      spaces b ++ net.base.text ++ "/" ++ (CIDR.lenText net.len ++ spaces a) := by
    simp only [CIDR.text, String.append_assoc]
  rw [CIDR.parse, htext, Text.split_append_sep hslash (by decide), Text.split_of_not_mem hrest]
  dsimp only
  by_cases hb : b = 0
  · have ha : a ≠ 0 := fun ha => hspaced ⟨hb, ha⟩
    have hlen : CIDR.parseLen (CIDR.lenText net.len ++ spaces a) = none := by
      rw [CIDR.parseLen, decimal_of_space (space_mem_after ha _)]
    rw [hlen]
    cases IPv4.parse (spaces b ++ net.base.text) with
    | none => rfl
    | some base => rfl
  · rw [parse_before hb]
    rfl

/-- Spaces do not change which of the separators a member has. -/
theorem hasChar_spaced {b a : Nat} {s : String} {ch : Char} (hspace : ch ≠ ' ') :
    hasChar (spaces b ++ s ++ spaces a) ch = hasChar s ch := by
  unfold hasChar
  rw [Bool.eq_iff_iff, List.contains_iff_mem, List.contains_iff_mem]
  exact mem_spaced hspace

theorem groupMatches_address (b a : Nat) (addr ip : IPv4) :
    groupMatches cidrContains ip.text (spaces b ++ addr.text ++ spaces a) = true ↔
      addr = ip ∧ b = 0 ∧ a = 0 := by
  have hslash : hasChar addr.text '/' = false :=
    hasChar_eq_false (addr.not_mem_text (by decide) (by decide))
  have hdash : hasChar addr.text '-' = false :=
    hasChar_eq_false (addr.not_mem_text (by decide) (by decide))
  rw [groupMatches, hasChar_spaced (by decide), hasChar_spaced (by decide), hslash, hdash,
    if_neg Bool.false_ne_true, if_neg Bool.false_ne_true, beq_iff_eq]
  constructor
  · intro h
    have hspace : ' ' ∉ (spaces b ++ addr.text ++ spaces a).toList := by
      rw [h]
      exact ip.not_mem_text (by decide) (by decide)
    have hb : b = 0 := by
      by_contra hb
      rw [String.append_assoc] at hspace
      exact hspace (space_mem_before hb _)
    have ha : a = 0 := by
      by_contra ha
      exact hspace (space_mem_after ha _)
    rw [hb, ha, spaces_zero, String.empty_append, String.append_empty] at h
    exact ⟨IPv4.text_injective h, hb, ha⟩
  · rintro ⟨rfl, rfl, rfl⟩
    rw [spaces_zero, String.empty_append, String.append_empty]

theorem groupMatches_cidr (b a : Nat) (net : CIDR) (ip : IPv4) :
    groupMatches cidrContains ip.text (spaces b ++ net.text ++ spaces a) = true ↔
      net.contains ip = true ∧ b = 0 ∧ a = 0 := by
  have hslash : hasChar net.text '/' = true := by
    simp [hasChar, CIDR.text, String.toList_append, show "/".toList = ['/'] by decide]
  rw [groupMatches, hasChar_spaced (by decide), hslash, if_pos rfl, cidrContains]
  by_cases hspaced : b = 0 ∧ a = 0
  · obtain ⟨rfl, rfl⟩ := hspaced
    rw [spaces_zero, String.empty_append, String.append_empty, CIDR.parse_text, IPv4.parse_text]
    exact ⟨fun h => ⟨h, rfl, rfl⟩, And.left⟩
  · rw [parse_spaced_cidr hspaced]
    constructor
    · intro h
      cases h
    · rintro ⟨-, hplain⟩
      exact absurd hplain hspaced

/-- A range is read with the addresses that its ends lose to the spaces. -/
theorem groupMatches_range (b a : Nat) (start stop ip : IPv4) :
    groupMatches cidrContains ip.text (spaces b ++ (start.text ++ "-" ++ stop.text) ++ spaces a) =
        true ↔
      (if b = 0 then start else { start with a := 0 }).toNat ≤ ip.toNat ∧
        ip.toNat ≤ (if a = 0 then stop else { stop with d := 0 }).toNat := by
  have hslash : hasChar (start.text ++ "-" ++ stop.text) '/' = false := by
    refine hasChar_eq_false ?_
    simp only [String.toList_append, dash_toList, List.mem_append, List.mem_singleton, not_or]
    exact ⟨⟨start.not_mem_text (by decide) (by decide), by decide⟩,
      stop.not_mem_text (by decide) (by decide)⟩
  have hdash : hasChar (start.text ++ "-" ++ stop.text) '-' = true := by
    simp [hasChar, String.toList_append, dash_toList]
  have hfirst : '-' ∉ (spaces b ++ start.text).toList := by
    rw [mem_before (by decide)]
    exact start.not_mem_text (by decide) (by decide)
  have hlast : '-' ∉ (stop.text ++ spaces a).toList := by
    rw [mem_after (by decide)]
    exact stop.not_mem_text (by decide) (by decide)
  have htext : spaces b ++ (start.text ++ "-" ++ stop.text) ++ spaces a =
      spaces b ++ start.text ++ "-" ++ (stop.text ++ spaces a) := by
    simp only [String.append_assoc]
  rw [groupMatches, hasChar_spaced (by decide), hasChar_spaced (by decide), hslash, hdash,
    if_neg Bool.false_ne_true, if_pos rfl, htext, Text.split_append_sep hfirst dash_toList,
    Text.split_of_not_mem hlast]
  dsimp only
  rw [ipToInt_before, ipToInt_after, ipToInt_text]
  simp

/-- What is read of a member: it is found, or read too widely. -/
theorem groupMatches_text (m : GroupMember) (ip : IPv4) :
    groupMatches cidrContains ip.text m.text = true ↔ m.Found ip ∨ m.Overread ip := by
  rcases m with ⟨item, b, a⟩
  cases item with
  | address addr =>
    refine (groupMatches_address b a addr ip).trans ⟨?_, ?_⟩
    · rintro ⟨haddr, hplain⟩
      exact .inl ⟨beq_iff_eq.mpr haddr, hplain⟩
    · rintro (⟨hcovers, hplain⟩ | h)
      · exact ⟨beq_iff_eq.mp hcovers, hplain⟩
      · exact h.elim
  | cidr net =>
    refine (groupMatches_cidr b a net ip).trans ⟨.inl, ?_⟩
    rintro (h | h)
    · exact h
    · exact h.elim
  | range start stop =>
    refine (groupMatches_range b a start stop ip).trans ?_
    show _ ↔ (decide (start.toNat ≤ ip.toNat ∧ ip.toNat ≤ stop.toNat) = true ∧
        ip.toNat ≤ if a = 0 then stop.toNat else { stop with d := 0 }.toNat) ∨
      (b ≠ 0 ∧ { start with a := 0 }.toNat ≤ ip.toNat ∧ ip.toNat < start.toNat ∧
        ip.toNat ≤ if a = 0 then stop.toNat else { stop with d := 0 }.toNat)
    have hstart : { start with a := 0 }.toNat ≤ start.toNat := by simp [IPv4.toNat]
    have hstop : { stop with d := 0 }.toNat ≤ stop.toNat := by simp [IPv4.toNat]
    rw [decide_eq_true_iff]
    by_cases hb : b = 0
    · by_cases ha : a = 0
      · rw [if_pos hb, if_pos ha, if_pos ha]
        omega
      · rw [if_pos hb, if_neg ha, if_neg ha]
        omega
    · by_cases ha : a = 0
      · rw [if_neg hb, if_pos ha, if_pos ha]
        omega
      · rw [if_neg hb, if_neg ha, if_neg ha]
        omega

end Members

/-! ## Groups -/

section Groups

variable {members : List GroupMember} {ip : IPv4} {clientIp : String} {policies : List LoginPolicy}
  {policy : LoginPolicy}

/-- No member contains a comma. -/
theorem comma_not_mem_member (m : GroupMember) : ',' ∉ m.text.toList :=
  fun h => comma_not_mem_text m.item ((mem_spaced (by decide)).mp h)

/-- A group is read as its members are. -/
theorem coversAddress_groupText (hgroup : policy.ipGroup = groupText members) :
    coversAddress cidrContains ip.text policy = true ↔ ∃ m ∈ members, m.Found ip ∨ m.Overread ip := by
  rw [coversAddress, hgroup]
  cases members with
  | nil =>
    have hempty : groupMatches cidrContains ip.text "" = false := by
      have hne : "" ≠ ip.text := by
        intro h
        have hparse := ip.parse_text
        rw [← h] at hparse
        exact absurd hparse (by simp [show IPv4.parse "" = none by decide])
      show ("" == ip.text) = false
      exact beq_false_of_ne hne
    have hsplit : Text.split (groupText []) ',' = [""] := by decide
    simp [hsplit, hempty]
  | cons m rest =>
    have hsplit : Text.split (groupText (m :: rest)) ',' = (m :: rest).map GroupMember.text := by
      refine Text.split_join (by decide) (by simp) fun p hp => ?_
      obtain ⟨m', -, rfl⟩ := List.mem_map.mp hp
      exact comma_not_mem_member m'
    rw [hsplit, List.any_map, List.any_eq_true]
    exact exists_congr fun m' => and_congr_right fun _ => groupMatches_text m' ip

/-- An enabled policy at the end of the loop decides when it covers the client. -/
theorem checkClientIp_concat (henabled : policy.enabled = true) :
    checkClientIp cidrContains (policies ++ [policy]) clientIp = .ok () ↔
      if coversAddress cidrContains clientIp policy then policy.rule = "allow"
      else checkClientIp cidrContains policies clientIp = .ok () := by
  have hdecision (pass : Bool) : (if pass then Except.ok () else
      .error (Refusal.denied "非常抱歉，您当前使用的IP地址不允许进行登录。")) = .ok () ↔ pass = true := by
    cases pass with
    | true => exact ⟨fun _ => rfl, fun _ => rfl⟩
    | false => exact ⟨fun h => (by cases h), fun h => (by cases h)⟩
  unfold checkClientIp
  dsimp only
  rw [hdecision, hdecision, List.foldl_append, List.foldl_cons, List.foldl_nil, henabled,
    Bool.not_true, if_neg Bool.false_ne_true, LastMatch.foldl_any]
  show (if coversAddress cidrContains clientIp policy then _ else _) = true ↔ _
  cases coversAddress cidrContains clientIp policy with
  | true => exact beq_iff_eq
  | false => exact Iff.rfl

/-- Being treated as matching is to cover the client. -/
theorem treatedAsMatching_iff {ipGroup : String} : TreatedAsMatching clientIp ipGroup ↔
    coversAddress cidrContains clientIp { ipGroup } = true := by
  constructor
  · intro h
    by_contra hcovers
    have hreject := h [] { ipGroup, enabled := true, rule := "reject" } rfl rfl
    rw [checkClientIp_concat rfl] at hreject
    change (if coversAddress cidrContains clientIp { ipGroup } then _ else _) ↔ _ at hreject
    rw [if_neg hcovers] at hreject
    have hallow : "reject" = "allow" := hreject.mp rfl
    exact absurd hallow (by decide)
  · rintro hcovers policies policy henabled rfl
    rw [checkClientIp_concat henabled]
    exact iff_of_eq (if_pos hcovers)

/-- **IP groups**: a policy is treated as matching exactly when a member of its group contains the
client, provided a member that contains the client is read so: it is not the `0.0.0.0` that stands for
all, and the spaces around it do not hide it, nor stretch it to a client that the group does not
contain. -/
theorem groupRead_iff (members : List GroupMember) (ip : IPv4) :
    GroupRead members ip ↔ ReadAsWritten members ip := by
  have hread : TreatedAsMatching ip.text (groupText members) ↔
      ∃ m ∈ members, m.Found ip ∨ m.Overread ip :=
    treatedAsMatching_iff.trans (coversAddress_groupText rfl)
  unfold GroupRead
  rw [hread]
  constructor
  · intro h
    refine ⟨h.mpr, ?_⟩
    rintro ⟨m, hm, hover⟩
    exact h.mp ⟨m, hm, .inr hover⟩
  · intro h
    refine ⟨?_, h.found⟩
    rintro ⟨m, hm, hfound | hover⟩
    · exact ⟨m, hm, .inr hfound.1⟩
    · exact h.within ⟨m, hm, hover⟩

/-- Without spaces and without the member for all, every client is read as the group says. -/
theorem readAsWritten_of_plain (hplain : ∀ m ∈ members, m.before = 0 ∧ m.after = 0)
    (hall : ∀ m ∈ members, m.item ≠ .address ⟨0, 0, 0, 0⟩) (ip : IPv4) : ReadAsWritten members ip := by
  refine ⟨?_, ?_⟩
  · rintro ⟨m, hm, hzero | hcovers⟩
    · exact absurd hzero (hall m hm)
    · obtain ⟨hbefore, hafter⟩ := hplain m hm
      refine ⟨m, hm, .inl ⟨hcovers, ?_⟩⟩
      rcases m with ⟨item, b, a⟩
      cases item with
      | address addr => exact ⟨hbefore, hafter⟩
      | cidr net => exact ⟨hbefore, hafter⟩
      | range start stop =>
        have hrange := of_decide_eq_true hcovers
        show ip.toNat ≤ if a = 0 then stop.toNat else _
        rw [if_pos hafter]
        exact hrange.2
  · rintro ⟨m, hm, hover⟩
    rcases m with ⟨item, b, a⟩
    cases item with
    | address addr => exact hover.elim
    | cidr net => exact hover.elim
    | range start stop => exact absurd (hplain _ hm).1 hover.1

/-- The list of the documented example, with its spaces: the range at its end matches a client that no
member contains. -/
theorem not_groupRead_documented :
    ¬ ∀ (members : List GroupMember) (ip : IPv4), GroupRead members ip := by
  intro h
  have hread := h [{ item := .address ⟨192, 168, 0, 1⟩ },
    { item := .cidr ⟨⟨192, 168, 1, 0⟩, 24⟩, before := 1 },
    { item := .range ⟨192, 168, 2, 0⟩ ⟨192, 168, 2, 20⟩, before := 1 }] ⟨10, 0, 0, 1⟩
  have hmatching : TreatedAsMatching (IPv4.text ⟨10, 0, 0, 1⟩) (groupText
      [{ item := .address ⟨192, 168, 0, 1⟩ },
        { item := .cidr ⟨⟨192, 168, 1, 0⟩, 24⟩, before := 1 },
        { item := .range ⟨192, 168, 2, 0⟩ ⟨192, 168, 2, 20⟩, before := 1 }]) :=
    treatedAsMatching_iff.mpr (by decide)
  obtain ⟨m, hm, hcontains⟩ := hread.mp hmatching
  simp only [List.mem_cons, List.not_mem_nil, or_false] at hm
  unfold GroupMember.Contains at hcontains
  rcases hm with rfl | rfl | rfl
  · exact absurd hcontains (by decide)
  · exact absurd hcontains (by decide)
  · exact absurd hcontains (by decide)

end Groups

end NextDBM
