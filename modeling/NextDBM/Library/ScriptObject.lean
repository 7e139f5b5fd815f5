import Mathlib.Data.List.Sort
import Mathlib.Data.String.Basic

/-!
# Objects of a script

An object keeps its properties in the order in which they were made. A loop over its keys meets first
the keys that spell array indices, in the order of the indices, and then the others in the order kept.
-/

namespace ScriptObject

variable {V : Type*} {o : List (String × V)} {a b : String} {n : Nat}

/-- The array index that a key spells. -/
def arrayIndex (key : String) : Option Nat :=
  let n := key.toList.foldl (fun n c => 10 * n + (c.toNat - 48)) 0
  if toString n = key ∧ n < 4294967295 then some n else none

example : arrayIndex "10" = some 10 ∧ arrayIndex "010" = none ∧ arrayIndex "id" = none := by
  decide

/-- The properties as `for (const key in o)` meets them. -/
def forIn (o : List (String × V)) : List (String × V) :=
  (o.filter fun p => (arrayIndex p.1).isSome).insertionSort
      (fun p q => (arrayIndex p.1).getD 0 ≤ (arrayIndex q.1).getD 0) ++
    o.filter fun p => !(arrayIndex p.1).isSome

/-- `o[i]`; `none` is `undefined`. -/
def get (o : List (String × V)) (i : Nat) : Option V :=
  (o.find? fun p => p.1 == toString i).map Prod.snd

/-- Which of two keys is met first, when the properties are made in ascending order of their keys. -/
def Before (a b : String) : Prop :=
  match arrayIndex a, arrayIndex b with
  | some m, some n => m < n
  | some _, none => True
  | none, some _ => False
  | none, none => a < b

instance (a b : String) : Decidable (Before a b) :=
  match ha : arrayIndex a, hb : arrayIndex b with
  | some m, some n => decidable_of_iff (m < n) (by unfold Before; rw [ha, hb])
  | some _, none => isTrue (by unfold Before; rw [ha, hb]; trivial)
  | none, some _ => isFalse (by unfold Before; rw [ha, hb]; exact id)
  | none, none => decidable_of_iff (a < b) (by unfold Before; rw [ha, hb])

theorem toString_of_arrayIndex (h : arrayIndex a = some n) : toString n = a := by
  unfold arrayIndex at h
  dsimp only at h
  rw [Option.ite_none_right_eq_some] at h
  obtain ⟨⟨hspelt, -⟩, hn⟩ := h
  obtain rfl := Option.some.inj hn
  exact hspelt

theorem before_of_index {m : Nat} (ha : arrayIndex a = some m) (hb : arrayIndex b = some n)
    (h : m < n) : Before a b := by
  unfold Before
  rw [ha, hb]
  exact h

theorem before_of_index_of_none (ha : (arrayIndex a).isSome = true) (hb : arrayIndex b = none) :
    Before a b := by
  obtain ⟨m, hm⟩ := Option.isSome_iff_exists.mp ha
  unfold Before
  rw [hm, hb]
  trivial

theorem before_of_none (ha : arrayIndex a = none) (hb : arrayIndex b = none) (h : a < b) :
    Before a b := by
  unfold Before
  rw [ha, hb]
  exact h

theorem Before.asymm (h : Before a b) : ¬ Before b a := by
  unfold Before at h ⊢
  cases ha : arrayIndex a with
  | some m =>
    cases hb : arrayIndex b with
    | some n =>
      rw [ha, hb] at h
      exact Nat.lt_asymm h
    | none => exact id
  | none =>
    cases hb : arrayIndex b with
    | some n =>
      rw [ha, hb] at h
      exact h.elim
    | none =>
      rw [ha, hb] at h
      exact lt_asymm h

theorem Before.ne (h : Before a b) : a ≠ b := by
  rintro rfl
  exact h.asymm h

theorem perm_forIn (o : List (String × V)) : (forIn o).Perm o :=
  ((List.perm_insertionSort _ _).append_right _).trans (List.filter_append_perm _ _)

/-- The keys of an object that is made in ascending order of its keys. -/
theorem pairwise_forIn (h : o.Pairwise fun p q => p.1 < q.1) :
    (forIn o).Pairwise fun p q => Before p.1 q.1 := by
  have hindex : ∀ p ∈ (o.filter fun p => (arrayIndex p.1).isSome).insertionSort
      (fun p q => (arrayIndex p.1).getD 0 ≤ (arrayIndex q.1).getD 0),
      (arrayIndex p.1).isSome = true := fun p hp =>
    (List.mem_filter.mp ((List.mem_insertionSort _).mp hp)).2
  have hother : ∀ p ∈ o.filter fun p => !(arrayIndex p.1).isSome, arrayIndex p.1 = none := by
    intro p hp
    have hnot := (List.mem_filter.mp hp).2
    rwa [Bool.not_eq_true', Option.isSome_eq_false_iff, Option.isNone_iff_eq_none] at hnot
  refine List.pairwise_append.mpr ⟨?_, ?_, fun p hp q hq =>
    before_of_index_of_none (hindex p hp) (hother q hq)⟩
  · have hle := List.pairwise_insertionSort
      (fun p q : String × V => (arrayIndex p.1).getD 0 ≤ (arrayIndex q.1).getD 0)
      (o.filter fun p => (arrayIndex p.1).isSome)
    have hne : ((o.filter fun p => (arrayIndex p.1).isSome).insertionSort
        (fun p q => (arrayIndex p.1).getD 0 ≤ (arrayIndex q.1).getD 0)).Pairwise
        fun p q => p.1 ≠ q.1 := by
      refine ((List.perm_insertionSort _ _).pairwise_iff fun hpq => Ne.symm hpq).mpr ?_
      exact (h.sublist List.filter_sublist).imp fun hlt => ne_of_lt hlt
    refine (hle.and hne).imp_of_mem fun {p q} hp hq hpq => ?_
    obtain ⟨m, hm⟩ := Option.isSome_iff_exists.mp (hindex p hp)
    obtain ⟨n, hn⟩ := Option.isSome_iff_exists.mp (hindex q hq)
    obtain ⟨hmn, hkeys⟩ := hpq
    rw [hm, hn] at hmn
    refine before_of_index hm hn (Nat.lt_of_le_of_ne hmn ?_)
    rintro rfl
    exact hkeys ((toString_of_arrayIndex hm).symm.trans (toString_of_arrayIndex hn))
  · exact (h.sublist List.filter_sublist).imp_of_mem fun hp hq hlt =>
      before_of_none (hother _ hp) (hother _ hq) hlt

/-- What is met is determined by what is there. -/
theorem forIn_eq (h : o.Pairwise fun p q => p.1 < q.1) {ps : List (String × V)} (hperm : ps.Perm o)
    (hps : ps.Pairwise fun p q => Before p.1 q.1) : forIn o = ps := by
  refine List.Perm.eq_of_pairwise (fun p q _ _ hpq hqp => absurd hqp hpq.asymm) (pairwise_forIn h)
    hps ((perm_forIn o).trans hperm.symm)

/-! ## Positions -/

theorem arrayIndex_toString (hn : n < 4294967295) : arrayIndex (toString n) = some n := by
  have hdigits : (toString n).toList = Nat.toDigits 10 n := Nat.toList_repr
  have hvalue : (toString n).toList.foldl (fun n c => 10 * n + (c.toNat - 48)) 0 = n := by
    rw [hdigits]
    exact Nat.ofDigitChars_ten_toDigits
  unfold arrayIndex
  dsimp only
  rw [hvalue]
  exact if_pos ⟨rfl, hn⟩

/-- Values at the positions of a list. -/
def positions (vs : List V) : List (String × V) := vs.zipIdx.map fun x => (toString x.2, x.1)

section Positions

variable {vs : List V} {rest : List (String × V)} (hvs : vs.length ≤ 4294967295)
  (hrest : ∀ e ∈ rest, arrayIndex e.1 = none)

include hvs in
theorem exists_of_mem_positions {e : String × V} (he : e ∈ positions vs) :
    ∃ i, e.1 = toString i ∧ arrayIndex e.1 = some i ∧ vs[i]? = some e.2 := by
  obtain ⟨⟨v, i⟩, hmem, rfl⟩ := List.mem_map.mp he
  have hv : vs[i]? = some v := List.mem_zipIdx_iff_getElem?.mp hmem
  have hi : i < vs.length := (List.getElem?_eq_some_iff.mp hv).1
  exact ⟨i, rfl, arrayIndex_toString (by omega), hv⟩

include hvs in
theorem pairwise_positions : (positions vs).Pairwise
    fun p q => (arrayIndex p.1).getD 0 ≤ (arrayIndex q.1).getD 0 := by
  have hpositions : (vs.zipIdx.map Prod.snd).Pairwise (· < ·) := by
    rw [List.zipIdx_map_snd]
    exact List.pairwise_lt_range'
  rw [positions, List.pairwise_map]
  refine (List.pairwise_map.mp hpositions).imp_of_mem fun {x y} hx hy hlt => ?_
  have hindex {x : V × Nat} (hx : x ∈ vs.zipIdx) : arrayIndex (toString x.2) = some x.2 := by
    have hi := (List.getElem?_eq_some_iff.mp (List.mem_zipIdx_iff_getElem?.mp hx)).1
    exact arrayIndex_toString (by omega)
  show (arrayIndex (toString x.2)).getD 0 ≤ (arrayIndex (toString y.2)).getD 0
  rw [hindex hx, hindex hy]
  exact Nat.le_of_lt hlt

include hvs hrest in
/-- The positions are met first, in their order. -/
theorem forIn_positions (hperm : o.Perm (positions vs ++ rest)) :
    ∃ rest', forIn o = positions vs ++ rest' ∧ rest'.Perm rest := by
  have hindex : ∀ e ∈ positions vs, (arrayIndex e.1).isSome = true := fun e he => by
    obtain ⟨i, -, hi, -⟩ := exists_of_mem_positions hvs he
    rw [hi]
    rfl
  have hsome : (o.filter fun p => (arrayIndex p.1).isSome).Perm (positions vs) := by
    refine (hperm.filter _).trans (List.Perm.of_eq ?_)
    rw [List.filter_append, List.filter_eq_self.mpr hindex, List.filter_eq_nil_iff.mpr, List.append_nil]
    intro e he
    rw [hrest e he]
    exact Bool.false_ne_true
  have hnone : (o.filter fun p => !(arrayIndex p.1).isSome).Perm rest := by
    refine (hperm.filter _).trans (List.Perm.of_eq ?_)
    rw [List.filter_append, List.filter_eq_nil_iff.mpr, List.filter_eq_self.mpr, List.nil_append]
    · intro e he
      rw [hrest e he]
      rfl
    · intro e he
      rw [hindex e he]
      exact Bool.false_ne_true
  refine ⟨_, congrArg (· ++ _) ?_, hnone⟩
  have hsorted := (List.perm_insertionSort
    (fun p q : String × V => (arrayIndex p.1).getD 0 ≤ (arrayIndex q.1).getD 0) _).trans hsome
  refine List.Perm.eq_of_pairwise (fun p q hp hq hpq hqp => ?_) (List.pairwise_insertionSort _ _)
    (pairwise_positions hvs) hsorted
  obtain ⟨i, hi, hp', hv⟩ := exists_of_mem_positions hvs (hsorted.subset hp)
  obtain ⟨j, hj, hq', hw⟩ := exists_of_mem_positions hvs hq
  rw [hp', hq'] at hpq hqp
  obtain rfl : i = j := Nat.le_antisymm hpq hqp
  exact Prod.ext (hi.trans hj.symm) (Option.some.inj (hv.symm.trans hw))

include hvs hrest in
theorem get_positions (hperm : o.Perm (positions vs ++ rest)) {v : V} (hv : vs[n]? = some v) :
    get o n = some v := by
  have hn : n < vs.length := (List.getElem?_eq_some_iff.mp hv).1
  have hmem : (toString n, v) ∈ o := by
    refine hperm.mem_iff.mpr (List.mem_append_left _ (List.mem_map.mpr ⟨(v, n), ?_, rfl⟩))
    exact List.mem_zipIdx_iff_getElem?.mpr hv
  have hunique : ∀ e ∈ o, (e.1 == toString n) = true → e = (toString n, v) := by
    intro e he hkey
    have hkey' : e.1 = toString n := eq_of_beq hkey
    have hindex : arrayIndex e.1 = some n := by rw [hkey', arrayIndex_toString (by omega)]
    rcases List.mem_append.mp (hperm.mem_iff.mp he) with he | he
    · obtain ⟨i, -, hi, hw⟩ := exists_of_mem_positions hvs he
      rw [hindex] at hi
      obtain rfl := Option.some.inj hi
      exact Prod.ext hkey' (Option.some.inj (hw.symm.trans hv))
    · rw [hrest e he] at hindex
      cases hindex
  unfold get
  cases hfind : o.find? fun p => p.1 == toString n with
  | none =>
    have hnot := List.find?_eq_none.mp hfind _ hmem
    exact absurd (beq_self_eq_true (toString n)) hnot
  | some e =>
    rw [hunique e (List.mem_of_find?_eq_some hfind) (List.find?_some (p := fun p : String × V => p.1 == toString n) hfind)]
    rfl

end Positions

end ScriptObject
