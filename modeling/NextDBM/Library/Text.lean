import Mathlib.Algebra.GroupWithZero.Nat
import Mathlib.Data.List.Infix
import Mathlib.Data.String.Basic

/-!
# Texts: prefixes, and pieces between separators

`split s sep` cuts a text at every occurrence of a character, keeping empty pieces.
-/

namespace Text

variable {s t : String} {sep : Char}

/-- The pieces of a text between the occurrences of a character. -/
def split (s : String) (sep : Char) : List String := (s.toList.splitOn sep).map String.ofList

def hasPrefix (s pre : String) : Bool := pre.toList.isPrefixOf s.toList

/-- The text has the other one as a stretch. -/
def hasInfix (s t : String) : Bool := decide (t.toList <:+: s.toList)

theorem hasPrefix_iff {pre : String} : hasPrefix s pre ↔ pre.toList <+: s.toList :=
  List.isPrefixOf_iff_prefix

theorem hasInfix_iff : hasInfix s t ↔ t.toList <:+: s.toList := by
  unfold hasInfix
  exact decide_eq_true_iff

theorem split_ne_nil (s : String) (sep : Char) : split s sep ≠ [] := by
  intro h
  exact List.splitOn_ne_nil sep s.toList (List.map_eq_nil_iff.mp h)

/-- A text without the separator is its only piece. -/
theorem split_of_not_mem (h : sep ∉ s.toList) : split s sep = [s] := by
  rw [split, List.splitOn_eq_singleton h, List.map_singleton, String.ofList_toList]

/-- A first piece without the separator is cut off. -/
theorem split_append_sep {d : String} (h : sep ∉ s.toList) (hd : d.toList = [sep]) (t : String) :
    split (s ++ d ++ t) sep = s :: split t sep := by
  have hlist : (s ++ d ++ t).toList = s.toList ++ sep :: t.toList := by
    simp [String.toList_append, hd]
  rw [split, hlist, List.splitOn_append_cons_self_of_not_mem h, List.map_cons,
    String.ofList_toList, split]

/-- A beginning without the separator joins the first piece. -/
theorem splitOn_append_of_not_mem {α : Type*} [DecidableEq α] {x : α} {l : List α} (h : x ∉ l)
    (as : List α) : (l ++ as).splitOn x = (as.splitOn x).modifyHead (l ++ ·) := by
  induction l with
  | nil =>
    cases hsplit : as.splitOn x with
    | nil => exact absurd hsplit (List.splitOn_ne_nil x as)
    | cons p ps => rw [List.nil_append, hsplit, List.modifyHead_cons, List.nil_append]
  | cons a l ih =>
    have ha : (a == x) = false := by
      simpa using fun heq : a = x => h (heq ▸ List.mem_cons_self)
    rw [List.cons_append, List.splitOn_cons_eq_if_modifyHead, ha, if_neg Bool.false_ne_true,
      ih fun hl => h (List.mem_cons_of_mem a hl), List.modifyHead_modifyHead]
    rfl

/-- No piece of a list split at an element contains the element. -/
theorem not_mem_of_mem_splitOn {α : Type*} [DecidableEq α] {x : α} {as l : List α}
    (h : l ∈ as.splitOn x) : x ∉ l := by
  induction as generalizing l with
  | nil =>
    rw [List.splitOn_nil, List.mem_singleton] at h
    exact h ▸ List.not_mem_nil
  | cons a as ih =>
    rw [List.splitOn_cons_eq_if_modifyHead] at h
    split at h
    · rcases List.mem_cons.mp h with rfl | h
      · exact List.not_mem_nil
      · exact ih h
    · next hne =>
      cases hsplit : as.splitOn x with
      | nil => exact absurd hsplit (List.splitOn_ne_nil x as)
      | cons p ps =>
        rw [hsplit, List.modifyHead_cons] at h
        rcases List.mem_cons.mp h with rfl | h
        · have hp : x ∉ p := ih (hsplit ▸ List.mem_cons_self)
          simp only [beq_iff_eq] at hne
          intro hx
          rcases List.mem_cons.mp hx with rfl | hx
          · exact hne rfl
          · exact hp hx
        · exact ih (hsplit ▸ List.mem_cons_of_mem _ h)

/-- There is one piece more than separators. -/
theorem length_splitOn {α : Type*} [DecidableEq α] (x : α) (l : List α) :
    (l.splitOn x).length = l.count x + 1 := by
  induction l with
  | nil => rw [List.splitOn_nil, List.length_singleton, List.count_nil]
  | cons a l ih =>
    rw [List.splitOn_cons_eq_if_modifyHead, List.count_cons]
    split
    · rw [List.length_cons, ih]
    · rw [List.length_modifyHead, ih]

/-- What stands in a piece stands in the list. -/
theorem mem_of_mem_splitOn {α : Type*} [DecidableEq α] {x a : α} {as l : List α}
    (h : l ∈ as.splitOn x) (ha : a ∈ l) : a ∈ as := by
  induction as generalizing l with
  | nil =>
    rw [List.splitOn_nil, List.mem_singleton] at h
    exact absurd (h ▸ ha) List.not_mem_nil
  | cons b as ih =>
    rw [List.splitOn_cons_eq_if_modifyHead] at h
    cases hsplit : as.splitOn x with
    | nil => exact absurd hsplit (List.splitOn_ne_nil x as)
    | cons p ps =>
      rw [hsplit] at h ih
      split at h
      · rcases List.mem_cons.mp h with rfl | h
        · exact absurd ha List.not_mem_nil
        · exact List.mem_cons_of_mem b (ih h ha)
      · rw [List.modifyHead_cons] at h
        rcases List.mem_cons.mp h with rfl | h
        · rcases List.mem_cons.mp ha with rfl | ha
          · exact List.mem_cons_self
          · exact List.mem_cons_of_mem b (ih List.mem_cons_self ha)
        · exact List.mem_cons_of_mem b (ih (List.mem_cons_of_mem p h) ha)

/-- How often an element stands in lists that are put together with a separator. -/
theorem count_intercalate_cons {α : Type*} [DecidableEq α] (a x : α) (l : List α) (ls : List (List α)) :
    ([x].intercalate (l :: ls)).count a =
      ((l :: ls).map (List.count a)).sum + ls.length * [x].count a := by
  induction ls generalizing l with
  | nil => simp
  | cons l' ls ih =>
    rw [List.intercalate_cons_cons, List.count_append, List.count_append, ih, List.map_cons,
      List.map_cons, List.map_cons, List.sum_cons, List.sum_cons, List.sum_cons, List.length_cons,
      Nat.add_mul]
    omega

/-- There is a second piece exactly where the separator occurs. -/
theorem isSome_getElem?_splitOn {α : Type*} [DecidableEq α] {x : α} {l : List α} :
    (l.splitOn x)[1]?.isSome ↔ x ∈ l := by
  rw [isSome_getElem?, length_splitOn, ← List.count_pos_iff]
  omega

/-- No piece contains the separator. -/
theorem not_mem_of_mem_split (h : t ∈ split s sep) : sep ∉ t.toList := by
  obtain ⟨l, hl, rfl⟩ := List.mem_map.mp h
  rw [String.toList_ofList]
  exact not_mem_of_mem_splitOn hl

/-- A text that is cut into one piece has no separator. -/
theorem not_mem_of_split_eq_singleton {p : String} (h : split s sep = [p]) : sep ∉ s.toList := by
  have hp : sep ∉ p.toList := not_mem_of_mem_split (h ▸ List.mem_singleton_self p)
  obtain ⟨l, hl, hlp⟩ := List.map_eq_singleton_iff.mp h
  have hjoin : [sep].intercalate (s.toList.splitOn sep) = s.toList := List.intercalate_splitOn sep
  rw [hl, List.intercalate_singleton] at hjoin
  rw [← hjoin, ← String.toList_ofList (l := l), hlp]
  exact hp

/-- The pieces with a separator text between them. -/
def join (d : String) : List String → String
  | [] => ""
  | [s] => s
  | s :: t :: rest => s ++ d ++ join d (t :: rest)

/-- Splitting undoes joining when no piece contains the separator. -/
theorem split_join {d : String} (hd : d.toList = [sep]) {pieces : List String}
    (hne : pieces ≠ []) (h : ∀ p ∈ pieces, sep ∉ p.toList) : split (join d pieces) sep = pieces := by
  induction pieces with
  | nil => exact absurd rfl hne
  | cons s rest ih =>
    have hs : sep ∉ s.toList := h s List.mem_cons_self
    cases rest with
    | nil => exact split_of_not_mem hs
    | cons t rest =>
      rw [join, split_append_sep hs hd,
        ih (List.cons_ne_nil t rest) fun p hp => h p (List.mem_cons_of_mem s hp)]

end Text
