import Mathlib.Data.List.Lex
import Mathlib.Data.List.TakeWhile
import NextDBM.Library.Text

/-!
# Paths of files

A path is a text whose elements are separated by slashes. `clean` resolves the elements `.` and `..`
from left to right, without looking at the file system: it leaves the names below the root, or below
some directory above the current one. `join` puts texts one after the other and cleans the result.

What a relative text does to a directory depends on the text alone: it goes up some directories, and
then down some names. So whether it stays within a directory can be read off the text.
-/

namespace FilePath

/-- A text that can be the name of a file in a directory. -/
def IsName (s : List Char) : Prop := s ≠ [] ∧ s ≠ ['.'] ∧ s ≠ ['.', '.'] ∧ '/' ∉ s

instance (s : List Char) : Decidable (IsName s) := inferInstanceAs (Decidable (_ ∧ _))

abbrev Name : Type := { s : List Char // IsName s }

/-- A path without `.` and `..`, but for the ones that a relative path begins with. -/
inductive Path
  | abs (names : List Name)
  | rel (up : Nat) (names : List Name)
  deriving DecidableEq

namespace Path

def names : Path → List Name
  | abs ns => ns
  | rel _ ns => ns

/-- Go down some names. -/
def extend : Path → List Name → Path
  | abs ns, ms => abs (ns ++ ms)
  | rel up ns, ms => rel up (ns ++ ms)

/-- Go up one directory. The root is above itself. -/
def parent : Path → Path
  | abs ns => abs ns.dropLast
  | rel up [] => rel (up + 1) []
  | rel up (n :: ns) => rel up (n :: ns).dropLast

/-- One element of a text. -/
def step (p : Path) (s : List Char) : Path :=
  if s = ['.', '.'] then p.parent else if h : IsName s then p.extend [⟨s, h⟩] else p

/-- The elements of a text, one after the other. -/
def walk (p : Path) (t : List Char) : Path := (t.splitOn '/').foldl step p

def elements : Path → List (List Char)
  | abs ns => ns.map Subtype.val
  | rel up ns => List.replicate up ['.', '.'] ++ ns.map Subtype.val

def text : Path → List Char
  | abs ns => '/' :: ['/'].intercalate (elements (abs ns))
  | rel 0 [] => ['.']
  | rel up ns => ['/'].intercalate (elements (rel up ns))

/-- Go up some directories. -/
def climb (p : Path) (k : Nat) : Path := parent^[k] p

/-- The second path is the first one, or lies below it. -/
def Within : Path → Path → Prop
  | abs ns, abs ms => ns <+: ms
  | rel up ns, rel up' ms => up = up' ∧ ns <+: ms
  | _, _ => False

instance (p q : Path) : Decidable (p.Within q) := by
  cases p <;> cases q <;> unfold Within <;> infer_instance

end Path

/-- Where a text begins: at the root, or in the current directory. -/
def start (t : List Char) : Path := if t.head? = some '/' then .abs [] else .rel 0 []

def clean (t : List Char) : Path := (start t).walk t

/-- The elements from the first one that is not empty, with slashes between them, cleaned. -/
def join (elems : List (List Char)) : List Char :=
  match elems.dropWhile List.isEmpty with
  | [] => []
  | e :: es => (clean (['/'].intercalate (e :: es))).text

/-- What a text does to any directory: how far it goes up, and the names that it goes down then. -/
def ascent (t : List Char) : Nat :=
  match (Path.rel 0 []).walk t with
  | .abs _ => 0
  | .rel up _ => up

def descent (t : List Char) : List Name := ((Path.rel 0 []).walk t).names

variable {p q : Path} {s t a b : List Char} {ns ms : List Name} {k : Nat} {n : Name}

namespace Path

@[simp] theorem extend_nil (p : Path) : p.extend [] = p := by
  cases p with
  | abs ns => exact congrArg abs (List.append_nil ns)
  | rel up ns => exact congrArg (rel up) (List.append_nil ns)

@[simp] theorem extend_extend (p : Path) (ns ms : List Name) :
    (p.extend ns).extend ms = p.extend (ns ++ ms) := by
  cases p with
  | abs ls => exact congrArg abs (List.append_assoc ls ns ms)
  | rel up ls => exact congrArg (rel up) (List.append_assoc ls ns ms)

theorem parent_extend (p : Path) (h : ns ≠ []) : (p.extend ns).parent = p.extend ns.dropLast := by
  cases p with
  | abs ls => exact congrArg abs (List.dropLast_append_of_ne_nil h)
  | rel up ls =>
    have hdrop : (ls ++ ns).dropLast = ls ++ ns.dropLast := List.dropLast_append_of_ne_nil h
    show parent (rel up (ls ++ ns)) = rel up (ls ++ ns.dropLast)
    cases hls : ls ++ ns with
    | nil => exact absurd (List.append_eq_nil_iff.mp hls).2 h
    | cons m ms =>
      rw [hls] at hdrop
      exact congrArg (rel up) hdrop

theorem climb_succ (p : Path) (k : Nat) : p.climb (k + 1) = (p.climb k).parent :=
  Function.iterate_succ_apply' parent k p

theorem walk_append (p : Path) (a b : List Char) : p.walk (a ++ '/' :: b) = (p.walk a).walk b := by
  unfold walk
  rw [List.splitOn_append_cons_self, List.foldl_append]

/-- A walk of several texts is one of them with slashes between them. -/
theorem walk_intercalate (p : Path) (a : List Char) (es : List (List Char)) :
    es.foldl walk (p.walk a) = p.walk (['/'].intercalate (a :: es)) := by
  induction es generalizing a with
  | nil => rw [List.intercalate_singleton, List.foldl_nil]
  | cons e es ih =>
    have hjoin : ['/'].intercalate (a :: e :: es) = ['/'].intercalate ((a ++ '/' :: e) :: es) := by
      cases es with
      | nil => simp [List.intercalate_cons_cons, List.intercalate_singleton]
      | cons e' es => simp [List.intercalate_cons_cons]
    rw [List.foldl_cons, ← walk_append, ih, hjoin]

/-- A relative walk stays relative. -/
theorem step_rel (up : Nat) (ns : List Name) (s : List Char) :
    ∃ up' ns', (rel up ns).step s = rel up' ns' := by
  unfold step
  split
  · cases ns with
    | nil => exact ⟨up + 1, [], rfl⟩
    | cons n ns => exact ⟨up, _, rfl⟩
  · split
    · exact ⟨up, _, rfl⟩
    · exact ⟨up, ns, rfl⟩

/-- What an element does to a relative path it does to what the path leads to. -/
theorem step_climb (p : Path) {up up' : Nat} {ns ns' : List Name}
    (h : (rel up ns).step s = rel up' ns') :
    ((p.climb up).extend ns).step s = (p.climb up').extend ns' := by
  unfold step at h ⊢
  by_cases hdots : s = ['.', '.']
  · rw [if_pos hdots] at h ⊢
    cases ns with
    | nil =>
      obtain ⟨rfl, rfl⟩ := rel.inj h
      rw [extend_nil, extend_nil, climb_succ]
    | cons n ns =>
      obtain ⟨rfl, rfl⟩ := rel.inj h
      exact parent_extend (p.climb up) (List.cons_ne_nil n ns)
  · rw [if_neg hdots] at h ⊢
    by_cases hname : IsName s
    · rw [dif_pos hname] at h ⊢
      obtain ⟨rfl, rfl⟩ := rel.inj h
      exact extend_extend (p.climb up) ns [⟨s, hname⟩]
    · rw [dif_neg hname] at h ⊢
      obtain ⟨rfl, rfl⟩ := rel.inj h
      rfl

theorem foldl_climb (p : Path) (ss : List (List Char)) (up : Nat) (ns : List Name) :
    ∃ up' ns', ss.foldl step (rel up ns) = rel up' ns' ∧
      ss.foldl step ((p.climb up).extend ns) = (p.climb up').extend ns' := by
  induction ss generalizing up ns with
  | nil => exact ⟨up, ns, rfl, rfl⟩
  | cons s ss ih =>
    obtain ⟨up₁, ns₁, hstep⟩ := step_rel up ns s
    obtain ⟨up', ns', hrel, hpath⟩ := ih up₁ ns₁
    refine ⟨up', ns', ?_, ?_⟩
    · rw [List.foldl_cons, hstep, hrel]
    · rw [List.foldl_cons, step_climb p hstep, hpath]

/-- **The effect of a text** on a directory is that of the directories it goes up and the names it
goes down. -/
theorem walk_eq (p : Path) (t : List Char) : p.walk t = (p.climb (ascent t)).extend (descent t) := by
  obtain ⟨up, ns, hrel, hpath⟩ := foldl_climb p (t.splitOn '/') 0 []
  have hwalk : (rel 0 []).walk t = rel up ns := hrel
  have hstart : (p.climb 0).extend [] = p := extend_nil p
  rw [hstart] at hpath
  unfold ascent descent
  rw [hwalk]
  exact hpath

theorem climb_abs (ns : List Name) (k : Nat) :
    (abs ns).climb k = abs (ns.take (ns.length - k)) := by
  induction k with
  | zero => rw [Nat.sub_zero, List.take_length]; rfl
  | succ k ih =>
    rw [climb_succ, ih]
    show abs _ = abs _
    rw [List.dropLast_eq_take, List.take_take, List.length_take]
    congr 2
    omega

theorem climb_rel_of_le (up : Nat) (h : k ≤ ns.length) :
    (rel up ns).climb k = rel up (ns.take (ns.length - k)) := by
  induction k with
  | zero => rw [Nat.sub_zero, List.take_length]; rfl
  | succ k ih =>
    rw [climb_succ, ih (by omega)]
    cases htake : ns.take (ns.length - k) with
    | nil =>
      have hlen := congrArg List.length htake
      rw [List.length_take, List.length_nil] at hlen
      omega
    | cons n ms =>
      show rel up (n :: ms).dropLast = _
      rw [← htake, List.dropLast_eq_take, List.take_take, List.length_take]
      congr 2
      omega

theorem climb_rel_of_lt (up : Nat) (h : ns.length < k) :
    (rel up ns).climb k = rel (up + (k - ns.length)) [] := by
  induction k with
  | zero => exact absurd h (Nat.not_lt_zero _)
  | succ k ih =>
    rw [climb_succ]
    by_cases hk : k = ns.length
    · rw [climb_rel_of_le up (le_of_eq hk), hk, Nat.sub_self, List.take_zero]
      show rel (up + 1) [] = _
      congr 1
      omega
    · rw [ih (by omega)]
      show rel (_ + 1) [] = _
      congr 1
      omega

theorem within_refl (p : Path) : p.Within p := by
  cases p with
  | abs ns => exact List.prefix_refl ns
  | rel up ns => exact ⟨rfl, List.prefix_refl ns⟩

theorem within_extend (p : Path) (ns : List Name) : p.Within (p.extend ns) := by
  cases p with
  | abs ms => exact List.prefix_append ms ns
  | rel up ms => exact ⟨rfl, List.prefix_append ms ns⟩

theorem prefix_take_append_iff {α : Type*} {ns ms ds : List α} {k : Nat} :
    ns ++ ms <+: ns.take k ++ ds ↔ ns.drop k ++ ms <+: ds := by
  have hsplit : ns ++ ms = ns.take k ++ (ns.drop k ++ ms) := by
    rw [← List.append_assoc, List.take_append_drop]
  rw [hsplit, List.prefix_append_right_inj]

/-- A path has a directory above it for every name, and the root is above itself. -/
def Reaches (p : Path) (k : Nat) : Prop :=
  match p with
  | abs _ => True
  | rel _ ns => k ≤ ns.length

/-- The names of the directories that a climb leaves. -/
def lastNames (p : Path) (k : Nat) : List Name := p.names.drop (p.names.length - k)

/-- **What stays within a directory** below `p`: a text that goes up from `p` and then down again
through the same names, and on to the directory. -/
theorem within_walk_iff (p : Path) (ms : List Name) (t : List Char) :
    (p.extend ms).Within (p.walk t) ↔
      p.Reaches (ascent t) ∧ p.lastNames (ascent t) ++ ms <+: descent t := by
  rw [walk_eq]
  cases p with
  | abs ns =>
    rw [climb_abs]
    show ns ++ ms <+: _ ++ _ ↔ True ∧ _
    rw [true_and]
    exact prefix_take_append_iff
  | rel up ns =>
    by_cases hk : ascent t ≤ ns.length
    · rw [climb_rel_of_le up hk]
      show up = up ∧ ns ++ ms <+: _ ++ _ ↔ ascent t ≤ ns.length ∧ _
      rw [prefix_take_append_iff]
      exact and_congr_left fun _ => ⟨fun _ => hk, fun _ => rfl⟩
    · rw [climb_rel_of_lt up (by omega)]
      constructor
      · rintro ⟨hup, -⟩
        omega
      · rintro ⟨hle, -⟩
        exact absurd hle hk

/-- A text that does not go up stays within. -/
theorem within_walk_of_ascent (p : Path) (h : ascent t = 0) : p.Within (p.walk t) := by
  rw [walk_eq, h]
  exact within_extend p (descent t)

end Path

/-! ## Texts of paths -/

theorem foldl_names (p : Path) (ns : List Name) :
    (ns.map Subtype.val).foldl Path.step p = p.extend ns := by
  induction ns generalizing p with
  | nil => exact p.extend_nil.symm
  | cons n ns ih =>
    have hstep : p.step n.val = p.extend [n] := by
      unfold Path.step
      rw [if_neg n.property.2.2.1, dif_pos n.property]
    rw [List.map_cons, List.foldl_cons, hstep, ih, Path.extend_extend]
    rfl

theorem foldl_dots (k : Nat) :
    (List.replicate k ['.', '.']).foldl Path.step (.rel 0 []) = .rel k [] := by
  induction k with
  | zero => rfl
  | succ k ih =>
    rw [List.replicate_succ', List.foldl_append, ih]
    rfl

theorem not_mem_elements (p : Path) (h : s ∈ p.elements) : s ≠ [] ∧ '/' ∉ s := by
  have hnames {ns : List Name} (h : s ∈ ns.map Subtype.val) : s ≠ [] ∧ '/' ∉ s := by
    obtain ⟨n, -, rfl⟩ := List.mem_map.mp h
    exact ⟨n.property.1, n.property.2.2.2⟩
  cases p with
  | abs ns => exact hnames h
  | rel up ns =>
    rcases List.mem_append.mp h with h | h
    · rw [(List.mem_replicate.mp h).2]
      exact ⟨by decide, by decide⟩
    · exact hnames h

theorem start_intercalate {es : List (List Char)} (hes : es ≠ [])
    (h : ∀ e ∈ es, e ≠ [] ∧ '/' ∉ e) : start (['/'].intercalate es) = .rel 0 [] := by
  have hhead : (['/'].intercalate es).head? ≠ some '/' := by
    cases es with
    | nil => exact absurd rfl hes
    | cons e es =>
      obtain ⟨hne, hslash⟩ := h e List.mem_cons_self
      cases e with
      | nil => exact absurd rfl hne
      | cons c cs =>
        have hc : c ≠ '/' := fun heq => hslash (heq ▸ List.mem_cons_self)
        cases es with
        | nil => simpa [List.intercalate_singleton] using hc
        | cons e' es => simpa [List.intercalate_cons_cons] using hc
  rw [start, if_neg hhead]

/-- The text of a path stands for the path. -/
theorem clean_text (p : Path) : clean p.text = p := by
  have hslash : ∀ e ∈ p.elements, '/' ∉ e := fun e he => (not_mem_elements p he).2
  cases p with
  | abs ns =>
    have hroot : (Path.abs []).walk [] = .abs [] := rfl
    have hwalk : clean (Path.abs ns).text =
        (Path.abs []).walk (['/'].intercalate (ns.map Subtype.val)) := by
      show (Path.abs []).walk ([] ++ '/' :: _) = _
      rw [Path.walk_append, hroot]
      rfl
    rw [hwalk]
    by_cases hns : ns = []
    · rw [hns]
      rfl
    · have hmap : ns.map Subtype.val ≠ [] := fun heq => hns (List.map_eq_nil_iff.mp heq)
      have hnames : ∀ e ∈ ns.map Subtype.val, '/' ∉ e := hslash
      rw [Path.walk, List.splitOn_intercalate '/' hnames hmap, foldl_names]
      rfl
  | rel up ns =>
    by_cases hempty : Path.elements (.rel up ns) = []
    · obtain ⟨hup, hns⟩ := List.append_eq_nil_iff.mp hempty
      rw [List.replicate_eq_nil_iff] at hup
      rw [List.map_eq_nil_iff] at hns
      rw [hup, hns]
      rfl
    · have htext : (Path.rel up ns).text = ['/'].intercalate (Path.elements (.rel up ns)) := by
        cases up with
        | succ up => rfl
        | zero =>
          cases ns with
          | nil => exact absurd rfl hempty
          | cons n ns => rfl
      rw [htext, clean, start_intercalate hempty fun e he => not_mem_elements _ he, Path.walk,
        List.splitOn_intercalate '/' hslash hempty, Path.elements, List.foldl_append, foldl_dots,
        foldl_names]
      rfl

theorem text_ne_nil (p : Path) : p.text ≠ [] := by
  intro h
  have hclean := clean_text p
  rw [h] at hclean
  have hdot : p = .rel 0 [] := hclean.symm
  rw [hdot] at h
  cases h

theorem start_append (ha : a ≠ []) (b : List Char) : start (a ++ b) = start a := by
  cases a with
  | nil => exact absurd rfl ha
  | cons c a => rfl

theorem join_cons (ha : a ≠ []) (es : List (List Char)) :
    join (a :: es) = (clean (['/'].intercalate (a :: es))).text := by
  have hempty : ¬ a.isEmpty = true := fun h => ha (List.isEmpty_iff.mp h)
  unfold join
  rw [List.dropWhile_cons_of_neg hempty]

theorem start_intercalate_cons (ha : a ≠ []) (es : List (List Char)) :
    start (['/'].intercalate (a :: es)) = start a := by
  cases es with
  | nil => rw [List.intercalate_singleton]
  | cons e es =>
    rw [List.intercalate_cons_cons, List.append_assoc]
    exact start_append ha _

theorem clean_intercalate (ha : a ≠ []) (es : List (List Char)) :
    clean (['/'].intercalate (a :: es)) = es.foldl Path.walk (clean a) := by
  rw [clean, start_intercalate_cons ha, ← Path.walk_intercalate]
  rfl

/-- What is joined to a first text goes on from where it leads to. -/
theorem clean_join (ha : a ≠ []) (es : List (List Char)) :
    clean (join (a :: es)) = es.foldl Path.walk (clean a) := by
  rw [join_cons ha, clean_text, clean_intercalate ha]

theorem join_ne_nil (ha : a ≠ []) (es : List (List Char)) : join (a :: es) ≠ [] := by
  rw [join_cons ha]
  exact text_ne_nil _

theorem clean_nil : clean [] = .rel 0 [] := rfl

theorem join_nil_cons (es : List (List Char)) : join ([] :: es) = join es := rfl

/-- A name leads down to itself. -/
theorem walk_name (p : Path) (n : Name) : p.walk n.val = p.extend [n] := by
  rw [Path.walk, List.splitOn_eq_singleton n.property.2.2.2]
  exact foldl_names p [n]

theorem clean_join_name (a : List Char) (n : Name) : clean (join [a, n.val]) = (clean a).extend [n] := by
  by_cases ha : a = []
  · have hstart : start n.val = .rel 0 [] := by
      have hes : ∀ e ∈ [n.val], e ≠ [] ∧ '/' ∉ e := by
        intro e he
        rw [List.mem_singleton.mp he]
        exact ⟨n.property.1, n.property.2.2.2⟩
      have hinter := start_intercalate (List.cons_ne_nil n.val []) hes
      rwa [List.intercalate_singleton] at hinter
    rw [ha, join_nil_cons, clean_join n.property.1, List.foldl_nil, clean, hstart, walk_name,
      clean_nil]
  · rw [clean_join ha, List.foldl_cons, List.foldl_nil, walk_name]

theorem join_name_ne_nil (a : List Char) (n : Name) : join [a, n.val] ≠ [] := by
  by_cases ha : a = []
  · rw [ha, join_nil_cons]
    exact join_ne_nil n.property.1 []
  · exact join_ne_nil ha [n.val]

theorem intercalate_append {es fs : List (List Char)} (hes : es ≠ []) (hfs : fs ≠ []) :
    ['/'].intercalate (es ++ fs) = ['/'].intercalate es ++ '/' :: ['/'].intercalate fs := by
  induction es with
  | nil => exact absurd rfl hes
  | cons e es ih =>
    cases es with
    | nil =>
      rw [List.singleton_append, List.intercalate_cons_of_ne_nil hfs, List.intercalate_singleton,
        List.append_assoc, List.singleton_append]
    | cons e' es =>
      have ih := ih (List.cons_ne_nil e' es)
      rw [List.cons_append] at ih
      rw [List.cons_append, List.cons_append, List.intercalate_cons_cons, ih,
        List.intercalate_cons_cons]
      simp only [List.append_assoc]

/-- What stands between the text of a directory and the names below it. -/
def Path.separator (p : Path) : List Char := if p = .abs [] then [] else ['/']

theorem Path.text_extend (hp : p ≠ .rel 0 []) (hns : ns ≠ []) :
    (p.extend ns).text = p.text ++ (p.separator ++ ['/'].intercalate (ns.map Subtype.val)) := by
  have hmap : ns.map Subtype.val ≠ [] := fun h => hns (List.map_eq_nil_iff.mp h)
  cases p with
  | abs ms =>
    show '/' :: ['/'].intercalate ((ms ++ ns).map Subtype.val) =
      '/' :: ['/'].intercalate (ms.map Subtype.val) ++ _
    by_cases hms : ms = []
    · rw [hms, separator, if_pos rfl]
      rfl
    · have hsep : (Path.abs ms).separator = ['/'] := if_neg fun h => hms (Path.abs.inj h)
      have hms' : ms.map Subtype.val ≠ [] := fun h => hms (List.map_eq_nil_iff.mp h)
      rw [hsep, List.map_append, intercalate_append hms' hmap]
      rfl
  | rel up ms =>
    have helements : Path.elements (.rel up ms) ≠ [] := by
      intro h
      obtain ⟨hup, hms⟩ := List.append_eq_nil_iff.mp h
      rw [List.replicate_eq_nil_iff] at hup
      rw [List.map_eq_nil_iff] at hms
      exact hp (by rw [hup, hms])
    have htext : ∀ ls : List Name, (up, ls) ≠ (0, []) →
        (Path.rel up ls).text = ['/'].intercalate (Path.elements (.rel up ls)) := by
      intro ls hls
      match up, ls, hls with
      | 0, [], hls => exact absurd rfl hls
      | 0, l :: ls, _ => rfl
      | up + 1, ls, _ => rfl
    have hsep : (Path.rel up ms).separator = ['/'] := if_neg (by simp)
    have hleft : (up, ms ++ ns) ≠ (0, []) := by
      intro h
      exact hns (List.append_eq_nil_iff.mp (Prod.mk.inj h).2).2
    have hright : (up, ms) ≠ (0, []) := by
      intro h
      obtain ⟨rfl, rfl⟩ := Prod.mk.inj h
      exact hp rfl
    rw [extend, htext _ hleft, htext _ hright, hsep, elements, List.map_append, ← List.append_assoc]
    exact intercalate_append helements hmap

theorem Path.walk_nil (p : Path) : p.walk [] = p := by
  have hname : ¬ IsName [] := fun h => h.1 rfl
  show p.step [] = p
  rw [step, if_neg (by decide), dif_neg hname]

/-- A relative text of names leads down the names. -/
theorem Path.walk_names (q p : Path) (hns : ns ≠ []) :
    q.walk (p.separator ++ ['/'].intercalate (ns.map Subtype.val)) = q.extend ns := by
  have hnames : q.walk (['/'].intercalate (ns.map Subtype.val)) = q.extend ns := by
    have hmap : ns.map Subtype.val ≠ [] := fun h => hns (List.map_eq_nil_iff.mp h)
    have hslash : ∀ l ∈ ns.map Subtype.val, '/' ∉ l := by
      intro l hl
      obtain ⟨n, -, rfl⟩ := List.mem_map.mp hl
      exact n.property.2.2.2
    rw [walk, List.splitOn_intercalate '/' hslash hmap, foldl_names]
  unfold separator
  split
  · exact hnames
  · have hskip := q.walk_append [] (['/'].intercalate (ns.map Subtype.val))
    rw [walk_nil, hnames] at hskip
    exact hskip

theorem getLast?_intercalate_names (hns : ns ≠ []) :
    (['/'].intercalate (ns.map Subtype.val)).getLast? ≠ some '/' := by
  induction ns with
  | nil => exact absurd rfl hns
  | cons n ns ih =>
    cases ns with
    | nil =>
      rw [List.map_singleton, List.intercalate_singleton]
      intro h
      exact n.property.2.2.2 (List.mem_of_getLast? h)
    | cons m ns =>
      have hne : ['/'].intercalate ((m :: ns).map Subtype.val) ≠ [] := by
        intro h
        have hm := m.property.1
        cases ns with
        | nil => exact hm (List.intercalate_singleton.symm.trans h)
        | cons l ns => simp [List.intercalate_cons_cons] at h
      rw [List.map_cons, List.map_cons, List.intercalate_cons_cons, ← List.map_cons,
        List.getLast?_append_of_ne_nil _ hne]
      exact ih (List.cons_ne_nil m ns)

/-- Two names of the same directory that a path lies within are the same. -/
theorem Path.within_extend_inj {n m : Name} (hn : (p.extend [n]).Within q)
    (hm : (p.extend [m]).Within q) : n = m := by
  have heq {ns ls : List Name} (hn : ns ++ [n] <+: ls) (hm : ns ++ [m] <+: ls) : n = m := by
    have hprefix := List.prefix_of_prefix_length_le hn hm (by simp)
    have hsame := hprefix.eq_of_length (by simp)
    exact (List.cons.inj (List.append_cancel_left hsame)).1
  cases p with
  | abs ns =>
    cases q with
    | abs ls => exact heq hn hm
    | rel up ls => exact hn.elim
  | rel up ns =>
    cases q with
    | abs ls => exact hn.elim
    | rel up' ls => exact heq hn.2 hm.2

theorem Path.extend_singleton_inj {n m : Name} (h : p.extend [n] = q.extend [m]) : n = m := by
  have hnames {ns ms : List Name} (h : ns ++ [n] = ms ++ [m]) : n = m :=
    (List.cons.inj (List.append_inj_right' h rfl)).1
  cases p with
  | abs ns =>
    cases q with
    | abs ms => exact hnames (Path.abs.inj h)
    | rel up ms => cases h
  | rel up ns =>
    cases q with
    | abs ms => cases h
    | rel up' ms => exact hnames (Path.rel.inj h).2

theorem Path.not_within_extend (p : Path) (n : Name) : ¬ (p.extend [n]).Within p := by
  have hlong {ns : List Name} (h : ns ++ [n] <+: ns) : False := by
    have hle := h.length_le
    rw [List.length_append, List.length_singleton] at hle
    omega
  cases p with
  | abs ns => exact hlong
  | rel up ns => exact fun h => hlong h.2

/-! ## Texts without an element `..` before the last one -/

theorem infix_intercalate {es : List (List Char)} (h : s ∈ es.dropLast) :
    s ++ ['/'] <:+: ['/'].intercalate es := by
  induction es with
  | nil => exact absurd h List.not_mem_nil
  | cons e es ih =>
    cases es with
    | nil => exact absurd h List.not_mem_nil
    | cons e' es =>
      rw [List.intercalate_cons_cons]
      rw [List.dropLast_cons_cons] at h
      rcases List.mem_cons.mp h with rfl | h
      · exact ⟨[], ['/'].intercalate (e' :: es), by simp⟩
      · exact (ih h).trans (List.suffix_append (e ++ ['/']) _).isInfix

/-- An element before the last one is followed by a slash. -/
theorem infix_of_mem_dropLast (h : s ∈ (t.splitOn '/').dropLast) : s ++ ['/'] <:+: t := by
  have hinfix := infix_intercalate h
  rwa [List.intercalate_splitOn] at hinfix

theorem foldl_ne_dots {ss : List (List Char)} (h : ∀ s ∈ ss, s ≠ ['.', '.']) (up : Nat)
    (ns : List Name) : ∃ ns', ss.foldl Path.step (.rel up ns) = .rel up ns' := by
  induction ss generalizing ns with
  | nil => exact ⟨ns, rfl⟩
  | cons s ss ih =>
    obtain ⟨hs, hss⟩ := List.forall_mem_cons.mp h
    rw [List.foldl_cons, Path.step, if_neg hs]
    split
    · exact ih hss _
    · exact ih hss ns

theorem step_rel_zero (ns : List Name) (s : List Char) :
    (∃ ms, (Path.rel 0 ns).step s = .rel 0 ms) ∨ (Path.rel 0 ns).step s = .rel 1 [] := by
  unfold Path.step
  split
  · cases ns with
    | nil => exact .inr rfl
    | cons n ns => exact .inl ⟨_, rfl⟩
  · split
    · exact .inl ⟨_, rfl⟩
    · exact .inl ⟨ns, rfl⟩

/-- A text in which no slash follows two dots goes up by its last element at most, and then goes down
nowhere. -/
theorem ascent_of_not_infix (h : ¬ ['.', '.', '/'] <:+: t) :
    ascent t = 0 ∨ ascent t = 1 ∧ descent t = [] := by
  have hne := List.splitOn_ne_nil '/' t
  have hdots : ∀ s ∈ (t.splitOn '/').dropLast, s ≠ ['.', '.'] := by
    rintro s hs rfl
    exact h (infix_of_mem_dropLast hs)
  obtain ⟨ns, hns⟩ := foldl_ne_dots hdots 0 []
  have hwalk : ∃ s, (Path.rel 0 []).walk t = (Path.rel 0 ns).step s := by
    refine ⟨(t.splitOn '/').getLast hne, ?_⟩
    have hsplit := List.dropLast_append_getLast hne
    rw [← hns, Path.walk]
    conv => lhs; rw [← hsplit]
    rw [List.foldl_append]
    rfl
  obtain ⟨s, hs⟩ := hwalk
  unfold ascent descent
  rw [hs]
  rcases step_rel_zero ns s with ⟨ms, hms⟩ | hup
  · rw [hms]
    exact .inl rfl
  · rw [hup]
    exact .inr ⟨rfl, rfl⟩

/-- A text that does not go up stays in a directory, and one that goes up one directory leaves a
directory with a name. -/
theorem Path.within_walk_iff_of_not_infix (p : Path) (n : Name) (h : ¬ ['.', '.', '/'] <:+: t) :
    (p.extend [n]).Within ((p.extend [n]).walk t) ↔ ascent t = 0 := by
  constructor
  · intro hwithin
    rcases ascent_of_not_infix h with hzero | ⟨hone, hdown⟩
    · exact hzero
    · have hself : ((p.extend [n]).extend []).Within ((p.extend [n]).walk t) := by
        rwa [Path.extend_nil]
      obtain ⟨-, hprefix⟩ := (within_walk_iff (p.extend [n]) [] t).mp hself
      rw [hone, hdown, List.append_nil, List.prefix_nil, Path.lastNames,
        List.drop_eq_nil_iff] at hprefix
      have hlen : 1 ≤ (p.extend [n]).names.length := by
        cases p with
        | abs ns => exact List.length_append ▸ Nat.le_add_left 1 ns.length
        | rel up ns => exact List.length_append ▸ Nat.le_add_left 1 ns.length
      omega
  · exact within_walk_of_ascent (p.extend [n])

/-! ## Texts that differ in their ends -/

/-- What is added to a text is added to its last element. -/
theorem exists_walk_append (a : List Char) : ∃ (f : Path → Path) (l : List Char), '/' ∉ l ∧
    ∀ (p : Path) (s : List Char), p.walk (a ++ s) = (f p).walk (l ++ s) := by
  have hsplit : (a.reverse.dropWhile fun c => c ≠ '/').reverse ++
      (a.reverse.takeWhile fun c => c ≠ '/').reverse = a := by
    rw [← List.reverse_append, List.takeWhile_append_dropWhile, List.reverse_reverse]
  have hlast : '/' ∉ (a.reverse.takeWhile fun c => c ≠ '/').reverse := by
    intro hmem
    have hne := List.mem_takeWhile_imp (List.mem_reverse.mp hmem)
    exact absurd rfl (of_decide_eq_true hne)
  cases hdrop : a.reverse.dropWhile fun c => c ≠ '/' with
  | nil =>
    rw [hdrop] at hsplit
    have hl : (a.reverse.takeWhile fun c => c ≠ '/').reverse = a := hsplit
    rw [hl] at hlast
    exact ⟨id, a, hlast, fun p s => rfl⟩
  | cons c b =>
    have hc : c = '/' := by
      have hhead := List.head?_dropWhile_not (fun c => decide (c ≠ '/')) a.reverse
      rw [hdrop] at hhead
      simpa using hhead
    rw [hdrop, hc, List.reverse_cons, List.append_assoc, List.singleton_append] at hsplit
    refine ⟨fun p => p.walk b.reverse, _, hlast, fun p s => ?_⟩
    conv => lhs; rw [← hsplit, List.append_assoc, List.cons_append]
    exact p.walk_append _ _

theorem exists_clean_join (ds : List (List Char)) (t : List Char) (c : Char) :
    ∃ p : Path, ∀ s, s.head? = some c → clean (join (ds ++ [t ++ s])) = p.walk (t ++ s) := by
  induction ds with
  | nil =>
    refine ⟨start (t ++ [c]), fun s hs => ?_⟩
    have hne : t ++ s ≠ [] := by
      intro heq
      rw [(List.append_eq_nil_iff.mp heq).2] at hs
      cases hs
    have hstart : start (t ++ s) = start (t ++ [c]) := by
      cases t with
      | nil =>
        rw [List.nil_append, List.nil_append, start, hs]
        rfl
      | cons d t => rfl
    rw [List.nil_append, clean_join hne, List.foldl_nil, clean, hstart]
  | cons d ds ih =>
    by_cases hd : d = []
    · rw [hd]
      exact ih
    · refine ⟨ds.foldl Path.walk (clean d), fun s _ => ?_⟩
      rw [List.cons_append, clean_join hd, List.foldl_append]
      rfl

/-- Files whose names begin in the same way are in the same directory. -/
theorem exists_siblings (ds : List (List Char)) (t : List Char) : ∃ (p : Path) (l : List Char),
    ∀ s, s.head? = some '-' → '/' ∉ s →
      ∃ h : IsName (l ++ s), clean (join (ds ++ [t ++ s])) = p.extend [⟨l ++ s, h⟩] := by
  obtain ⟨q, hq⟩ := exists_clean_join ds t '-'
  obtain ⟨f, l, hl, hwalk⟩ := exists_walk_append t
  refine ⟨f q, l, fun s hs hslash => ?_⟩
  have hdash : '-' ∈ l ++ s := List.mem_append_right l (List.mem_of_mem_head? hs)
  have hname : IsName (l ++ s) := by
    refine ⟨List.ne_nil_of_mem hdash, fun heq => ?_, fun heq => ?_, fun hmem => ?_⟩
    · rw [heq] at hdash
      revert hdash
      decide
    · rw [heq] at hdash
      revert hdash
      decide
    · exact (List.mem_append.mp hmem).elim hl hslash
  exact ⟨hname, by rw [hq s hs, hwalk]; exact walk_name (f q) ⟨l ++ s, hname⟩⟩

end FilePath
