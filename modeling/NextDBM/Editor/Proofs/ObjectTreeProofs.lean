import NextDBM.Editor.ObjectTree
import NextDBM.Library.IPv4
import Mathlib.Tactic.Push

/-!
# Proofs: the tree of the editor

Every key is the key of the node above it, a dash and more, and no key of a list begins another one of
it. So a key occurs once, in whatever part of the tree is shown, and what stands before its dashes are the
keys of the nodes above it.
-/

namespace NextDBM

namespace ObjectTree

open Transition MySqlText

variable {f g : Forest Label} {k key : String} {a b d : Label} {anc : List Label} {cs : Forest Label}
  {toLowerCase : String → String} {filter : String}

/-! ## Keys -/

/-- A key with the dash that ends it. -/
def mark (key : String) : List Char := key.toList ++ ['-']

/-- The key is the other one, a dash and more. -/
def Extends (parent key : String) : Prop := mark parent <+: key.toList

/-- The key is the other one or extends it. -/
def Within (parent key : String) : Prop := mark parent <+: mark key

def dashes (key : String) : Nat := key.toList.count '-'

theorem extends_iff {parent : String} :
    Extends parent key ↔ ∃ rest, key.toList = parent.toList ++ '-' :: rest := by
  constructor
  · rintro ⟨rest, h⟩
    exact ⟨rest, by simpa [mark] using h.symm⟩
  · rintro ⟨rest, h⟩
    exact ⟨rest, by simp [mark, h]⟩

theorem Extends.within {parent : String} (h : Extends parent key) : Within parent key :=
  h.trans (List.prefix_append _ _)

theorem Within.refl (key : String) : Within key key := List.prefix_refl _

theorem Within.trans {x y z : String} (h : Within x y) (h' : Within y z) : Within x z :=
  List.IsPrefix.trans h h'

theorem Within.extends {x y z : String} (h : Within x y) (h' : Extends y z) : Extends x z :=
  List.IsPrefix.trans h h'

theorem Extends.length_lt {parent : String} (h : Extends parent key) :
    parent.toList.length < key.toList.length := by
  have := h.length_le
  simp only [mark, List.length_append, List.length_singleton] at this
  omega

theorem Extends.dashes_lt {parent : String} (h : Extends parent key) : dashes parent < dashes key := by
  have := h.sublist.count_le '-'
  simp only [mark, List.count_append, List.count_singleton_self] at this
  unfold dashes
  omega

theorem within_or_within {x y z : String} (h : Within x z) (h' : Within y z) : Within x y ∨ Within y x :=
  List.prefix_or_prefix_of_prefix h h'

theorem dashes_append (key rest : String) : dashes (key ++ "-" ++ rest) = dashes key + 1 + dashes rest := by
  simp only [dashes, String.toList_append, List.count_append]
  rfl

theorem extends_append (key rest : String) : Extends key (key ++ "-" ++ rest) := by
  refine extends_iff.mpr ⟨rest.toList, ?_⟩
  simp

/-- Two continuations of a key that begin alike. -/
theorem within_append {x y : String} (h : Within (k ++ "-" ++ x) (k ++ "-" ++ y)) : Within x y := by
  have h' : mark k ++ mark x <+: mark k ++ mark y := by
    simpa [Within, mark] using h
  exact (List.prefix_append_right_inj _).mp h'

theorem eq_of_mark {x y : String} (h : mark x = mark y) : x = y :=
  String.toList_inj.mp (List.append_inj_left' h rfl)

theorem Within.cases {parent : String} (h : Within parent key) : parent = key ∨ Extends parent key := by
  rcases List.prefix_concat_iff.mp h with heq | h
  · exact Or.inl (eq_of_mark heq)
  · exact Or.inr h

/-- A text without a dash begins only itself. -/
theorem eq_of_within {x y : String} (h : Within x y) (hy : '-' ∉ y.toList) : x = y := by
  rcases h.cases with heq | h
  · exact heq
  · obtain ⟨rest, hrest⟩ := extends_iff.mp h
    exact absurd (hrest ▸ List.mem_append_right _ List.mem_cons_self) hy

theorem eq_of_within_of_length {x y : String} (h : Within x y) (hlength : x.length = y.length) : x = y := by
  rcases h.cases with heq | h
  · exact heq
  · have := h.length_lt
    rw [String.length_toList, String.length_toList] at this
    omega

theorem not_mem_toString (n : Nat) : '-' ∉ (toString n).toList := fun h =>
  absurd (IPv4.isDigit_of_mem_repr n '-' h) (by decide)

/-! ## Cutting -/

theorem dashIndex_append {n : Int} {pre rest : List Char} {current i : Nat}
    (h : ((current + pre.count '-' + 1 : Nat) : Int) = n) :
    dashIndex n current i (pre ++ '-' :: rest) = some (i + pre.length) := by
  induction pre generalizing current i with
  | nil =>
    have hn : ((current + 1 : Nat) : Int) = n := by simpa using h
    simp [dashIndex, hn]
  | cons c pre ih =>
    by_cases hc : c = '-'
    · subst hc
      simp only [List.count_cons_self] at h
      have hn : ((current + 1 : Nat) : Int) ≠ n := by omega
      simp only [List.cons_append, dashIndex, if_true, if_neg hn]
      rw [ih (by omega)]
      simp only [List.length_cons, Option.some.injEq]
      omega
    · rw [List.count_cons_of_ne hc] at h
      simp only [List.cons_append, dashIndex, if_neg hc]
      rw [ih h]
      simp only [List.length_cons, Option.some.injEq]
      omega

theorem dashIndex_eq_none {n : Int} {cs : List Char} {current i : Nat}
    (h : ((current + cs.count '-' : Nat) : Int) < n) : dashIndex n current i cs = none := by
  induction cs generalizing current i with
  | nil => rfl
  | cons c cs ih =>
    by_cases hc : c = '-'
    · subst hc
      simp only [List.count_cons_self] at h
      have hn : ((current + 1 : Nat) : Int) ≠ n := by omega
      simp only [dashIndex, if_true, if_neg hn]
      exact ih (by omega)
    · rw [List.count_cons_of_ne hc] at h
      simp only [dashIndex, if_neg hc]
      exact ih h

theorem lastIndexOfDash_eq_none {cs : List Char} {i : Nat} (h : '-' ∉ cs) : lastIndexOfDash i cs = none := by
  induction cs generalizing i with
  | nil => rfl
  | cons c cs ih =>
    have hc : c ≠ '-' := fun heq => h (heq ▸ List.mem_cons_self)
    have hcs : '-' ∉ cs := fun hmem => h (List.mem_cons_of_mem _ hmem)
    simp [lastIndexOfDash, ih hcs, hc]

theorem lastIndexOfDash_append {pre rest : List Char} {i : Nat} (h : '-' ∉ rest) :
    lastIndexOfDash i (pre ++ '-' :: rest) = some (i + pre.length) := by
  induction pre generalizing i with
  | nil => simp [lastIndexOfDash, lastIndexOfDash_eq_none h]
  | cons c pre ih =>
    simp only [List.cons_append, lastIndexOfDash, ih, Option.some_or, List.length_cons, Option.some.injEq]
    omega

/-- The key of the databases is what stands before the second dash. -/
theorem cut_database (hd : dashes d.key = 1) (h : Within d.key key) : cutStringAtDash key 2 = d.key := by
  unfold cutStringAtDash
  rw [if_neg (by decide)]
  rcases h.cases with heq | h
  · have hcount : ((0 + key.toList.count '-' : Nat) : Int) < 2 := by
      have : key.toList.count '-' = 1 := heq ▸ hd
      omega
    rw [dashIndex_eq_none hcount]
    exact heq.symm
  · obtain ⟨rest, hrest⟩ := extends_iff.mp h
    have hcount : ((0 + d.key.toList.count '-' + 1 : Nat) : Int) = 2 := by
      have : d.key.toList.count '-' = 1 := hd
      omega
    rw [hrest, dashIndex_append hcount]
    simp

/-- The key of the node above is what stands before the last dash. -/
theorem cut_parent {parent : String} (h : Extends parent key) (hdashes : dashes key = dashes parent + 1) :
    cutStringAtDash key (-1) = parent := by
  obtain ⟨rest, hrest⟩ := extends_iff.mp h
  have hnone : '-' ∉ rest := by
    have hcount : key.toList.count '-' = parent.toList.count '-' + 1 := hdashes
    rw [hrest, List.count_append, List.count_cons_self] at hcount
    exact List.count_eq_zero.mp (by omega)
  unfold cutStringAtDash
  rw [if_pos rfl, hrest, lastIndexOfDash_append hnone]
  simp

/-! ## Rooted trees -/

/-- The keys of the first trees extend a key, by one part unless they are those of saved queries; none of
them begins another one, and below each the same holds of its own key. -/
def Rooted : String → Forest Label → Prop
  | _, .nil => True
  | k, .node a cs ss => Extends k a.key ∧ (a.menuType = "sqlMenu" ∨ dashes a.key = dashes k + 1) ∧
      Rooted a.key cs ∧ (∀ b ∈ ss.roots, ¬ Within a.key b.key ∧ ¬ Within b.key a.key) ∧ Rooted k ss

theorem Rooted.extends (h : Rooted k f) : ∀ b ∈ f.labels, Extends k b.key := by
  induction f generalizing k with
  | nil => exact fun b hb => absurd hb List.not_mem_nil
  | node a cs ss ihc ihs =>
    obtain ⟨ha, -, hcs, -, hss⟩ := h
    intro b hb
    rcases List.mem_cons.mp hb with rfl | hb
    · exact ha
    · rcases List.mem_append.mp hb with hb | hb
      · exact ha.within.extends (ihc hcs b hb)
      · exact ihs hss b hb

/-- Every label stands below one of the first trees. -/
theorem Rooted.exists_root (h : Rooted k f) : ∀ b ∈ f.labels, ∃ r ∈ f.roots, Within r.key b.key := by
  induction f generalizing k with
  | nil => exact fun b hb => absurd hb List.not_mem_nil
  | node a cs ss _ ihs =>
    obtain ⟨-, -, hcs, -, hss⟩ := h
    intro b hb
    rcases List.mem_cons.mp hb with rfl | hb
    · exact ⟨b, List.mem_cons_self, Within.refl _⟩
    · rcases List.mem_append.mp hb with hb | hb
      · exact ⟨a, List.mem_cons_self, (hcs.extends b hb).within⟩
      · obtain ⟨r, hr, hwithin⟩ := ihs hss b hb
        exact ⟨r, List.mem_cons_of_mem _ hr, hwithin⟩

/-- **Keys occur once.** -/
theorem Rooted.nodup (h : Rooted k f) : (f.labels.map Label.key).Nodup := by
  induction f generalizing k with
  | nil => exact List.nodup_nil
  | node a cs ss ihc ihs =>
    obtain ⟨-, -, hcs, hapart, hss⟩ := h
    -- A key within that of the first tree is not within that of a later one.
    have hother : ∀ c, Within a.key c → ∀ b ∈ ss.labels, b.key ≠ c := by
      rintro c hc b hb rfl
      obtain ⟨r, hr, hwithin⟩ := hss.exists_root b hb
      rcases within_or_within hc hwithin with h | h
      · exact (hapart r hr).1 h
      · exact (hapart r hr).2 h
    rw [Forest.labels, List.map_cons, List.map_append]
    refine List.nodup_cons.mpr ⟨fun hmem => ?_, List.nodup_append.mpr ⟨ihc hcs, ihs hss, ?_⟩⟩
    · rcases List.mem_append.mp hmem with hmem | hmem
      · obtain ⟨b, hb, heq⟩ := List.mem_map.mp hmem
        have := (hcs.extends b hb).length_lt
        rw [heq] at this
        omega
      · obtain ⟨b, hb, heq⟩ := List.mem_map.mp hmem
        exact hother a.key (Within.refl _) b hb heq
    · rintro x hx y hy rfl
      obtain ⟨b, hb, rfl⟩ := List.mem_map.mp hx
      obtain ⟨c, hc, heq⟩ := List.mem_map.mp hy
      exact hother b.key (hcs.extends b hb).within c hc heq

/-- What stands above a node: labels whose keys it extends, each with more dashes than the one above. -/
theorem Rooted.above (h : Rooted k f) (hlies : Forest.Lies f anc b cs) :
    (∀ a ∈ anc, Extends a.key b.key) ∧ dashes k + anc.length + 1 ≤ dashes b.key := by
  induction hlies generalizing k with
  | here => exact ⟨fun a ha => absurd ha List.not_mem_nil, h.1.dashes_lt⟩
  | beside _ ih => exact ih h.2.2.2.2
  | under hlies ih =>
    obtain ⟨ha, -, hcs, -, -⟩ := h
    obtain ⟨hextends, hcount⟩ := ih hcs
    refine ⟨List.forall_mem_cons.mpr ⟨hcs.extends _ hlies.mem_labels, hextends⟩, ?_⟩
    have := ha.dashes_lt
    simp only [List.length_cons]
    omega

/-- The key of a node is that of the last label above it with one more part. -/
theorem Rooted.parent (h : Rooted k f) (hlies : Forest.Lies f anc b cs) :
    b.menuType = "sqlMenu" ∨ dashes b.key = dashes ((anc.getLast?.map Label.key).getD k) + 1 := by
  induction hlies generalizing k with
  | here => exact h.2.1
  | beside _ ih => exact ih h.2.2.2.2
  | @under a b anc cs ss ds hlies ih =>
    have hb := ih h.2.2.1
    cases anc with
    | nil => exact hb
    | cons c anc => rwa [List.getLast?_cons_cons]

/-! ## What the operations keep -/

theorem roots_updateNodeByKey (key : String) (g f : Forest Label) :
    (updateNodeByKey key g f).roots = f.roots := by
  induction f with
  | nil => rfl
  | node a cs ss _ ih =>
    unfold updateNodeByKey
    split
    · exact congrArg (a :: ·) ih
    · exact congrArg (a :: ·) ih

theorem Rooted.updateNodeByKey (h : Rooted k f) (hg : Rooted key g) :
    Rooted k (updateNodeByKey key g f) := by
  induction f generalizing k with
  | nil => trivial
  | node a cs ss ihc ihs =>
    obtain ⟨ha, hpart, hcs, hapart, hss⟩ := h
    have hroots := roots_updateNodeByKey key g ss
    unfold ObjectTree.updateNodeByKey
    split
    · next heq => exact ⟨ha, hpart, heq ▸ hg, hroots ▸ hapart, ihs hss⟩
    · exact ⟨ha, hpart, ihc hcs, hroots ▸ hapart, ihs hss⟩

theorem mem_updateNodeByKey (h : b ∈ (updateNodeByKey key g f).labels) : b ∈ f.labels ∨ b ∈ g.labels := by
  induction f with
  | nil => exact Or.inl h
  | node a cs ss ihc ihs =>
    have hss : b ∈ (ObjectTree.updateNodeByKey key g ss).labels →
        b ∈ (Forest.node a cs ss).labels ∨ b ∈ g.labels := fun h =>
      (ihs h).imp_left fun h => List.mem_cons_of_mem _ (List.mem_append_right _ h)
    unfold updateNodeByKey at h
    split at h
    · rcases List.mem_cons.mp h with rfl | h
      · exact Or.inl List.mem_cons_self
      · rcases List.mem_append.mp h with h | h
        · exact Or.inr h
        · exact hss h
    · rcases List.mem_cons.mp h with rfl | h
      · exact Or.inl List.mem_cons_self
      · rcases List.mem_append.mp h with h | h
        · exact (ihc h).imp_left fun h => List.mem_cons_of_mem _ (List.mem_append_left _ h)
        · exact hss h

/-- A renaming keeps the keys and the types. -/
structure Keeps (updater : Label → Label) : Prop where
  key : ∀ a, (updater a).key = a.key
  menuType : ∀ a, (updater a).menuType = a.menuType

variable {updater : Label → Label}

theorem keys_updateTreeNodeByKey (hkeeps : Keeps updater) (key : String) (f : Forest Label) :
    (updateTreeNodeByKey key updater f).2.roots.map Label.key = f.roots.map Label.key := by
  induction f with
  | nil => rfl
  | node a cs ss _ ih =>
    unfold updateTreeNodeByKey
    split
    · exact congrArg (· :: ss.roots.map Label.key) (hkeeps.key a)
    · split
      · rfl
      · exact congrArg (a.key :: ·) ih

theorem Rooted.updateTreeNodeByKey (hkeeps : Keeps updater) (h : Rooted k f) :
    Rooted k (updateTreeNodeByKey key updater f).2 := by
  induction f generalizing k with
  | nil => trivial
  | node a cs ss ihc ihs =>
    obtain ⟨ha, hpart, hcs, hapart, hss⟩ := h
    unfold ObjectTree.updateTreeNodeByKey
    split
    · refine ⟨?_, ?_, ?_, ?_, hss⟩
      · rw [hkeeps.key]
        exact ha
      · rw [hkeeps.key, hkeeps.menuType]
        exact hpart
      · rw [hkeeps.key]
        exact hcs
      · rw [hkeeps.key]
        exact hapart
    · have hchildren := @ihc a.key hcs
      split
      · next heq =>
        rw [heq] at hchildren
        exact ⟨ha, hpart, hchildren, hapart, hss⟩
      · refine ⟨ha, hpart, hcs, ?_, ihs hss⟩
        have hkeys := keys_updateTreeNodeByKey hkeeps key ss
        intro b hb
        have hmem := List.mem_map_of_mem (f := Label.key) hb
        rw [hkeys] at hmem
        obtain ⟨c, hc, heq⟩ := List.mem_map.mp hmem
        exact heq ▸ hapart c hc

theorem mem_updateTreeNodeByKey (hkeeps : Keeps updater) (h : b ∈ (updateTreeNodeByKey key updater f).2.labels) :
    ∃ a ∈ f.labels, a.key = b.key ∧ a.menuType = b.menuType := by
  induction f with
  | nil => exact absurd h List.not_mem_nil
  | node a cs ss ihc ihs =>
    have hsame : ∀ {b}, b ∈ (Forest.node a cs ss).labels →
        ∃ a' ∈ (Forest.node a cs ss).labels, a'.key = b.key ∧ a'.menuType = b.menuType :=
      fun h => ⟨_, h, rfl, rfl⟩
    unfold updateTreeNodeByKey at h
    split at h
    · rcases List.mem_cons.mp h with rfl | h
      · exact ⟨a, List.mem_cons_self, (hkeeps.key a).symm, (hkeeps.menuType a).symm⟩
      · exact hsame (List.mem_cons_of_mem _ h)
    · split at h
      · next heq =>
        rcases List.mem_cons.mp h with rfl | h
        · exact hsame List.mem_cons_self
        · rcases List.mem_append.mp h with h | h
          · rw [heq] at ihc
            obtain ⟨a', ha', hkey⟩ := ihc h
            exact ⟨a', List.mem_cons_of_mem _ (List.mem_append_left _ ha'), hkey⟩
          · exact hsame (List.mem_cons_of_mem _ (List.mem_append_right _ h))
      · rcases List.mem_cons.mp h with rfl | h
        · exact hsame List.mem_cons_self
        · rcases List.mem_append.mp h with h | h
          · exact hsame (List.mem_cons_of_mem _ (List.mem_append_left _ h))
          · obtain ⟨a', ha', hkey⟩ := ihs h
            exact ⟨a', List.mem_cons_of_mem _ (List.mem_append_right _ ha'), hkey⟩

/-! ## Smaller trees -/

/-- Trees with some of the nodes of others. -/
structure Thinned (g f : Forest Label) : Prop where
  roots : g.roots ⊆ f.roots
  labels : g.labels ⊆ f.labels
  rooted : ∀ {k}, Rooted k f → Rooted k g

theorem Thinned.refl (f : Forest Label) : Thinned f f := ⟨fun _ => id, fun _ => id, id⟩

/-- Trees are thinned by a list of first trees that are thinned or left out. -/
theorem Thinned.node {cs' ss ss' : Forest Label} (hcs : Thinned cs' cs) (hss : Thinned ss' ss) (a : Label) :
    Thinned (.node a cs' ss') (.node a cs ss) where
  roots := List.cons_subset_cons a hss.roots
  labels := List.cons_subset_cons a (List.append_subset.mpr
    ⟨List.subset_append_of_subset_left _ hcs.labels, List.subset_append_of_subset_right _ hss.labels⟩)
  rooted h := ⟨h.1, h.2.1, hcs.rooted h.2.2.1, fun b hb => h.2.2.2.1 b (hss.roots hb), hss.rooted h.2.2.2.2⟩

theorem Thinned.skip {ss ss' : Forest Label} (hss : Thinned ss' ss) (a : Label) (cs : Forest Label) :
    Thinned ss' (.node a cs ss) where
  roots _ hb := List.mem_cons_of_mem _ (hss.roots hb)
  labels _ hb := List.mem_cons_of_mem _ (List.mem_append_right _ (hss.labels hb))
  rooted h := hss.rooted h.2.2.2.2

theorem thinned_deleteTreeNodeByKey (key : String) (f : Forest Label) :
    Thinned (deleteTreeNodeByKey key f) f := by
  induction f with
  | nil => exact Thinned.refl _
  | node a cs ss ihc ihs =>
    unfold deleteTreeNodeByKey
    split
    · exact ihs.skip a cs
    · exact ihc.node ihs a

theorem thinned_filterNodes (toLowerCase : String → String) (filter : String) (f : Forest Label) :
    Thinned (filterNodes toLowerCase filter f) f := by
  induction f with
  | nil => exact Thinned.refl _
  | node a cs ss ihc ihs =>
    unfold filterNodes
    dsimp only
    split
    · split
      · exact (Thinned.refl cs).node ihs a
      · exact ihc.node ihs a
    · exact ihs.skip a cs

/-! ## Searching -/

section Search

variable (toLowerCase : String → String) (filter : String)

theorem isEmpty_filterNodes (f : Forest Label) : (filterNodes toLowerCase filter f).isEmpty = true ↔
    ∀ b ∈ f.labels, nameMatches toLowerCase filter b = false := by
  induction f with
  | nil => simp [filterNodes, Forest.isEmpty, Forest.labels]
  | node a cs ss ihc ihs =>
    rw [filterNodes]
    by_cases ha : nameMatches toLowerCase filter a = true
    · simp [ha, Forest.isEmpty, Forest.labels]
    · by_cases hcs : (filterNodes toLowerCase filter cs).isEmpty = true
      · simp only [ha, hcs, Bool.not_true, Bool.or_false, Bool.false_eq_true, if_false, Forest.labels,
          List.forall_mem_cons, List.forall_mem_append]
        exact ihs.trans ⟨fun h => ⟨trivial, ihc.mp hcs, h⟩, fun h => h.2.2⟩
      · simp only [hcs, Bool.not_false, Bool.or_true, if_true, Forest.labels,
          List.forall_mem_cons, List.forall_mem_append]
        have hall : ¬ ∀ b ∈ cs.labels, nameMatches toLowerCase filter b = false := fun h => hcs (ihc.mpr h)
        simp [Forest.isEmpty, hall]

variable {toLowerCase filter}

/-- Only trees with a match show something. -/
theorem Shows.exists_match (h : Shows toLowerCase filter f b) :
    ∃ c ∈ f.labels, nameMatches toLowerCase filter c = true := by
  rcases h with ⟨anc, cs, hlies, c, hc, hmatch⟩ | ⟨anc, a, ds, hlies, hmatch, -⟩
  · rcases List.mem_cons.mp hc with rfl | hc
    · exact ⟨c, hlies.mem_labels, hmatch⟩
    · exact ⟨c, hlies.subset_labels hc, hmatch⟩
  · exact ⟨a, hlies.mem_labels, hmatch⟩

theorem shows_node {ss : Forest Label} : Shows toLowerCase filter (.node a cs ss) b ↔
    (b = a ∧ ∃ c ∈ a :: cs.labels, nameMatches toLowerCase filter c = true) ∨
    (nameMatches toLowerCase filter a = true ∧
      (∀ c ∈ cs.labels, nameMatches toLowerCase filter c = false) ∧ b ∈ cs.labels) ∨
    Shows toLowerCase filter cs b ∨ Shows toLowerCase filter ss b := by
  constructor
  · rintro (⟨anc, ds, hlies, hmatch⟩ | ⟨anc, c, ds, hlies, hmatch⟩)
    · cases hlies with
      | here => exact Or.inl ⟨rfl, hmatch⟩
      | beside hlies => exact Or.inr (Or.inr (Or.inr (Or.inl ⟨anc, ds, hlies, hmatch⟩)))
      | under hlies => exact Or.inr (Or.inr (Or.inl (Or.inl ⟨_, ds, hlies, hmatch⟩)))
    · cases hlies with
      | here => exact Or.inr (Or.inl hmatch)
      | beside hlies => exact Or.inr (Or.inr (Or.inr (Or.inr ⟨anc, c, ds, hlies, hmatch⟩)))
      | under hlies => exact Or.inr (Or.inr (Or.inl (Or.inr ⟨_, c, ds, hlies, hmatch⟩)))
  · rintro (⟨rfl, hmatch⟩ | hmatch | (⟨anc, ds, hlies, hmatch⟩ | ⟨anc, c, ds, hlies, hmatch⟩) |
      (⟨anc, ds, hlies, hmatch⟩ | ⟨anc, c, ds, hlies, hmatch⟩))
    · exact Or.inl ⟨[], cs, .here, hmatch⟩
    · exact Or.inr ⟨[], a, cs, .here, hmatch⟩
    · exact Or.inl ⟨_, ds, hlies.under, hmatch⟩
    · exact Or.inr ⟨_, c, ds, hlies.under, hmatch⟩
    · exact Or.inl ⟨anc, ds, hlies.beside, hmatch⟩
    · exact Or.inr ⟨anc, c, ds, hlies.beside, hmatch⟩

theorem mem_filterNodes (f : Forest Label) (b : Label) :
    b ∈ (filterNodes toLowerCase filter f).labels ↔ Shows toLowerCase filter f b := by
  induction f with
  | nil =>
    constructor
    · exact fun h => absurd h List.not_mem_nil
    · intro h
      obtain ⟨c, hc, -⟩ := h.exists_match
      exact absurd hc List.not_mem_nil
  | node a cs ss ihc ihs =>
    rw [shows_node, filterNodes]
    by_cases hcs : (filterNodes toLowerCase filter cs).isEmpty = true
    · -- No match below: all of the children are shown, or none of them.
      have hnone := (isEmpty_filterNodes toLowerCase filter cs).mp hcs
      have hno : ¬ Shows toLowerCase filter cs b := by
        intro h
        obtain ⟨c, hc, hmatch⟩ := h.exists_match
        rw [hnone c hc] at hmatch
        cases hmatch
      by_cases ha : nameMatches toLowerCase filter a = true
      · have hsome : ∃ c ∈ a :: cs.labels, nameMatches toLowerCase filter c = true :=
          ⟨a, List.mem_cons_self, ha⟩
        have hlabels : b ∈ a :: (cs.labels ++ (filterNodes toLowerCase filter ss).labels) ↔
            b = a ∨ b ∈ cs.labels ∨ Shows toLowerCase filter ss b := by
          rw [List.mem_cons, List.mem_append, ihs]
        simp only [hcs, ha, Bool.true_or, if_true, Forest.labels, hlabels, and_iff_left hsome,
          and_iff_right hnone, true_and, or_iff_right hno]
      · have hnothing : ¬ ∃ c ∈ a :: cs.labels, nameMatches toLowerCase filter c = true := by
          rintro ⟨c, hc, hmatch⟩
          rcases List.mem_cons.mp hc with rfl | hc
          · exact ha hmatch
          · rw [hnone c hc] at hmatch
            cases hmatch
        simp only [eq_false hnothing, eq_false hno, ha, hcs, Bool.not_true, Bool.or_false,
          Bool.false_eq_true, if_false, ihs, and_false, false_and, false_or]
    · have hsome : ∃ c ∈ cs.labels, nameMatches toLowerCase filter c = true := by
        by_contra hall
        push Not at hall
        exact hcs ((isEmpty_filterNodes toLowerCase filter cs).mpr fun c hc => by simpa using hall c hc)
      have hany : ¬ ∀ c ∈ cs.labels, nameMatches toLowerCase filter c = false := by
        obtain ⟨c, hc, hmatch⟩ := hsome
        intro hall
        rw [hall c hc] at hmatch
        cases hmatch
      have hhere : ∃ c ∈ a :: cs.labels, nameMatches toLowerCase filter c = true := by
        obtain ⟨c, hc, hmatch⟩ := hsome
        exact ⟨c, List.mem_cons_of_mem _ hc, hmatch⟩
      have hlabels : b ∈ a :: ((filterNodes toLowerCase filter cs).labels ++
          (filterNodes toLowerCase filter ss).labels) ↔
          b = a ∨ Shows toLowerCase filter cs b ∨ Shows toLowerCase filter ss b := by
        rw [List.mem_cons, List.mem_append, ihc, ihs]
      simp only [eq_true hhere, eq_false hany, hcs, Bool.not_false, Bool.or_true, if_true,
        Bool.false_eq_true, if_false, Forest.labels, hlabels, and_true, and_false, false_and, false_or]

/-- **The tree that is shown after a search**: in the order of the whole tree, what is at or above a match,
and everything below a match with no other match below it. -/
theorem filterNodes_spec (toLowerCase : String → String) (filter : String) (f : Forest Label) :
    (filterNodes toLowerCase filter f).labels.Sublist f.labels ∧
      ∀ b, b ∈ (filterNodes toLowerCase filter f).labels ↔ Shows toLowerCase filter f b := by
  refine ⟨?_, mem_filterNodes f⟩
  induction f with
  | nil => exact List.Sublist.refl _
  | node a cs ss ihc ihs =>
    rw [filterNodes]
    split
    · refine List.Sublist.cons_cons a (List.Sublist.append ?_ ihs)
      split
      · exact List.Sublist.refl _
      · exact ihc
    · exact (ihs.trans (List.sublist_append_right _ _)).cons a

end Search

/-! ## Items -/

/-- The fixed items below the items of an answer. -/
def subMenus (menuType : String) : List (String × String) :=
  if menuType = "databaseMenu" then [("tables", "tablesMenu"), ("views", "viewsMenu"),
    ("functions", "functionsMenu"), ("procedures", "proceduresMenu"), ("sqls", "sqlsMenu")]
  else if menuType = "tablesMenu" then [("columns", "columnsMenu"), ("keys", "keysMenu"), ("indexs", "indexsMenu")]
  else []

/-- The types that are asked for. -/
def askedTypes : List String := "databaseMenu" :: (databaseMenus ++ tableMenus)

/-- The types of the items that nothing is asked for. -/
def leafTypes : List String := ["databaseMenu", "tableMenu", "viewMenu", "functionMenu", "procedureMenu",
  "columnMenu", "keyMenu", "indexMenu"]

/-- An item of an answer, by its position. -/
structure IsItem (parentKey menuType : String) (attr : DBSession.Value) (i : Nat) (item : Rows.MenuItem) :
    Prop where
  key_eq : item.key = parentKey ++ "-" ++ toString i
  leaf : item.menuType ∈ leafTypes
  children_eq : item.children = Rows.subItems item.key attr (subMenus menuType)

variable {columns : List Bytes} {parentKey menuType : String} {attr : DBSession.Value}

theorem isItem_of_menuItem {values : List SqlValue} {i : Nat} {item : Rows.MenuItem}
    (hmenu : menuType ∈ askedTypes)
    (h : Rows.menuItem columns values (parentKey ++ "-" ++ toString i) menuType attr = .returned item) :
    IsItem parentKey menuType attr i item := by
  simp only [askedTypes, databaseMenus, tableMenus, List.cons_append, List.nil_append, List.mem_cons,
    List.not_mem_nil, or_false] at hmenu
  match columns, h with
  | [], h => cases h
  | [column], h =>
    rcases hmenu with rfl | rfl | rfl | rfl | rfl | rfl | rfl | rfl <;>
      cases h <;> exact ⟨rfl, by simp [leafTypes], rfl⟩
  | column :: name :: others, h =>
    rcases hmenu with rfl | rfl | rfl | rfl | rfl | rfl | rfl | rfl <;>
      cases h <;> exact ⟨rfl, by simp [leafTypes], rfl⟩

/-- The loop of `RowsToMenuJson` gives the items their positions. -/
theorem isItem_of_menuLoop (hmenu : menuType ∈ askedTypes) {rows : List Row} {result items : List Rows.MenuItem}
    (hresult : ∀ i item, result[i]? = some item → IsItem parentKey menuType attr i item)
    (h : rows.foldlM (fun result row => do
      let values ← Calls.Outcome.orError "Scan失败: " row.values
      let item ← Rows.menuItem columns values (parentKey ++ "-" ++ toString result.length) menuType attr
      pure (result ++ [item])) result = Calls.Outcome.returned items) :
    ∀ i item, items[i]? = some item → IsItem parentKey menuType attr i item := by
  induction rows generalizing result with
  | nil =>
    obtain rfl := Calls.Outcome.returned.inj h
    exact hresult
  | cons row rows ih =>
    rw [List.foldlM_cons] at h
    obtain ⟨next, hnext, hrest⟩ := Calls.Outcome.bind_eq_returned.mp h
    obtain ⟨values, -, hnext⟩ := Calls.Outcome.bind_eq_returned.mp hnext
    obtain ⟨item, hitem, hnext⟩ := Calls.Outcome.bind_eq_returned.mp hnext
    obtain rfl := Calls.Outcome.returned.inj hnext
    refine ih (fun i item' hi => ?_) hrest
    by_cases hlt : i < result.length
    · exact hresult i item' ((List.getElem?_append_left hlt).symm.trans hi)
    · rw [List.getElem?_append_right (by omega)] at hi
      obtain ⟨hlt', hget⟩ := List.getElem?_eq_some_iff.mp hi
      have hi' : i = result.length := by
        simp only [List.length_singleton] at hlt'
        omega
      subst hi'
      have hitem' : item = item' := by simpa using hget
      exact hitem' ▸ isItem_of_menuItem hmenu hitem

theorem isItem_of_rowsToMenuJson {rows : Rows} {items : List Rows.MenuItem} (hmenu : menuType ∈ askedTypes)
    (h : rows.rowsToMenuJson parentKey menuType attr = .returned items) :
    ∀ i item, items[i]? = some item → IsItem parentKey menuType attr i item := by
  obtain ⟨columns, -, h⟩ := Calls.Outcome.bind_eq_returned.mp h
  exact isItem_of_menuLoop hmenu (fun i item hi => by cases hi) h

/-! ## Levels -/

/-- How deep what is asked for stands: below a database, or below a table of one. -/
structure Level (menuType key : String) : Prop where
  databases : menuType ∈ databaseMenus → dashes key = 2
  tables : menuType ∈ tableMenus → dashes key = 4

theorem level_of_leaf {menuType key : String} (h : menuType ∈ leafTypes) : Level menuType key where
  databases hmem := by
    simp only [leafTypes, databaseMenus, List.mem_cons, List.not_mem_nil, or_false] at h hmem
    rcases hmem with rfl | rfl | rfl | rfl <;> simp at h
  tables hmem := by
    simp only [leafTypes, tableMenus, List.mem_cons, List.not_mem_nil, or_false] at h hmem
    rcases hmem with rfl | rfl | rfl <;> simp at h

theorem level_sqlMenu (key : String) : Level "sqlMenu" key where
  databases h := by simp [databaseMenus] at h
  tables h := by simp [tableMenus] at h

theorem dashes_toString (n : Nat) : dashes (toString n) = 0 :=
  List.count_eq_zero.mpr (not_mem_toString n)

theorem toString_injective {m n : Nat} (h : toString m = toString n) : m = n := by
  have hdigits : Nat.toDigits 10 m = Nat.toDigits 10 n := by
    have := congrArg String.toList h
    simpa using this
  rw [← @Nat.ofDigitChars_toDigits 10 m (by omega) (by omega), hdigits,
    Nat.ofDigitChars_toDigits (by omega) (by omega)]

/-! ## Answers -/

section Answers

variable {β : Type} {leaf : β → Label} {below : β → Forest Label} {items : List β}

def Apart (x y : String) : Prop := ¬ Within x y ∧ ¬ Within y x

theorem roots_ofList : (Forest.ofList leaf below items).roots = items.map leaf := by
  induction items with
  | nil => rfl
  | cons x items ih => exact congrArg (leaf x :: ·) ih

theorem mem_labels_ofList : b ∈ (Forest.ofList leaf below items).labels ↔
    ∃ x ∈ items, b = leaf x ∨ b ∈ (below x).labels := by
  induction items with
  | nil => simp [Forest.ofList, Forest.labels]
  | cons x items ih =>
    simp only [Forest.ofList, Forest.labels, List.mem_cons, List.mem_append, ih, or_and_right, exists_or,
      exists_eq_left, or_assoc]

/-- The trees of a list of items whose keys are the key with one more part each. -/
theorem rooted_ofList
    (hitem : ∀ x ∈ items, Extends k (leaf x).key ∧
      ((leaf x).menuType = "sqlMenu" ∨ dashes (leaf x).key = dashes k + 1) ∧ Rooted (leaf x).key (below x))
    (hapart : items.Pairwise fun x y => Apart (leaf x).key (leaf y).key) :
    Rooted k (.ofList leaf below items) := by
  induction items with
  | nil => trivial
  | cons x items ih =>
    obtain ⟨hx, hitem⟩ := List.forall_mem_cons.mp hitem
    obtain ⟨hfirst, hapart⟩ := List.pairwise_cons.mp hapart
    refine ⟨hx.1, hx.2.1, hx.2.2, ?_, ih hitem hapart⟩
    rw [roots_ofList]
    intro b hb
    obtain ⟨y, hy, rfl⟩ := List.mem_map.mp hb
    exact hfirst y hy

/-- Keys that differ by their positions. -/
theorem apart_of_positions {keyOf : β → String}
    (h : ∀ (i : Nat) x, items[i]? = some x → keyOf x = k ++ "-" ++ toString i) :
    items.Pairwise fun x y => Apart (keyOf x) (keyOf y) := by
  refine List.pairwise_iff_getElem.mpr fun i j hi hj hij => ?_
  rw [h i _ (List.getElem?_eq_getElem hi), h j _ (List.getElem?_eq_getElem hj)]
  constructor
  · intro hwithin
    have := toString_injective (eq_of_within (within_append hwithin) (not_mem_toString j))
    omega
  · intro hwithin
    have := toString_injective (eq_of_within (within_append hwithin) (not_mem_toString i))
    omega

/-- The trees of a list of items whose keys are the key with their positions. -/
theorem rooted_ofList_of_positions
    (hkey : ∀ (i : Nat) x, items[i]? = some x → (leaf x).key = k ++ "-" ++ toString i)
    (hbelow : ∀ x ∈ items, Rooted (leaf x).key (below x)) : Rooted k (.ofList leaf below items) := by
  refine rooted_ofList (fun x hx => ?_) (apart_of_positions hkey)
  obtain ⟨i, hi⟩ := List.getElem?_of_mem hx
  have hdashes : dashes (leaf x).key = dashes k + 1 := by
    rw [hkey i x hi, dashes_append, dashes_toString]
  exact ⟨hkey i x hi ▸ extends_append k (toString i), Or.inr hdashes, hbelow x hx⟩

end Answers

theorem subItems_getElem? {items : List (String × String)} {i : Nat} {sub : Rows.MenuItem}
    (h : (Rows.subItems key attr items)[i]? = some sub) :
    sub.key = key ++ "-" ++ toString i ∧ ∃ title, (title, sub.menuType) ∈ items := by
  simp only [Rows.subItems, List.getElem?_map, List.getElem?_zipIdx] at h
  cases hi : items[i]? with
  | none => simp [hi] at h
  | some x =>
    simp only [hi, Option.map_some, Option.some.injEq] at h
    subst h
    exact ⟨by simp, x.1, List.mem_of_getElem? hi⟩

/-- The fixed items below the items of the databases and of the tables. -/
theorem level_subMenus {title type : String} (hlevel : Level menuType parentKey)
    (hdatabases : menuType = "databaseMenu" → dashes parentKey = 0)
    (hmem : (title, type) ∈ subMenus menuType) (hkey : dashes key = dashes parentKey + 2) : Level type key := by
  unfold subMenus at hmem
  split at hmem
  · next h =>
    have := hdatabases h
    refine ⟨fun _ => by omega, fun htable => ?_⟩
    simp only [List.mem_cons, List.not_mem_nil, or_false, Prod.mk.injEq] at hmem
    rcases hmem with ⟨-, rfl⟩ | ⟨-, rfl⟩ | ⟨-, rfl⟩ | ⟨-, rfl⟩ | ⟨-, rfl⟩ <;> simp [tableMenus] at htable
  · split at hmem
    · next h =>
      have := hlevel.databases (by simp [h, databaseMenus])
      refine ⟨fun hdatabase => ?_, fun _ => by omega⟩
      simp only [List.mem_cons, List.not_mem_nil, or_false, Prod.mk.injEq] at hmem
      rcases hmem with ⟨-, rfl⟩ | ⟨-, rfl⟩ | ⟨-, rfl⟩ <;> simp [databaseMenus] at hdatabase
    · cases hmem

/-- An answer that is rooted at the key it was asked for, with everything at its level. -/
structure Answers (key : String) (g : Forest Label) : Prop where
  rooted : Rooted key g
  level : ∀ b ∈ g.labels, Level b.menuType b.key

section Items

variable {items : List Rows.MenuItem}

theorem rooted_subItems (item : Rows.MenuItem) (subs : List (String × String))
    (h : item.children = Rows.subItems item.key attr subs) :
    Rooted item.key (.ofList labelOf (fun _ => .nil) item.children) :=
  rooted_ofList_of_positions (fun _ _ hi => (subItems_getElem? (h ▸ hi)).1) fun _ _ => trivial

/-- Titles aside, the answers to `received` and to `receivedColumns` are one. -/
theorem answers_ofList {leaf : Rows.MenuItem → Label} (hkey : ∀ item, (leaf item).key = item.key)
    (htype : ∀ item, (leaf item).menuType = item.menuType) (hlevel : Level menuType parentKey)
    (hdatabases : menuType = "databaseMenu" → dashes parentKey = 0)
    (hitems : ∀ i item, items[i]? = some item → IsItem parentKey menuType attr i item) :
    Answers parentKey (.ofList leaf (fun item => .ofList labelOf (fun _ => .nil) item.children) items) where
  rooted := by
    refine rooted_ofList_of_positions (fun i item hi => ?_) fun item hmem => ?_
    · rw [hkey, (hitems i item hi).key_eq]
    · obtain ⟨i, hi⟩ := List.getElem?_of_mem hmem
      rw [hkey]
      exact rooted_subItems item _ (hitems i item hi).children_eq
  level b hb := by
    obtain ⟨item, hmem, hb⟩ := mem_labels_ofList.mp hb
    obtain ⟨i, hi⟩ := List.getElem?_of_mem hmem
    have hitem := hitems i item hi
    rcases hb with rfl | hb
    · rw [htype]
      exact level_of_leaf hitem.leaf
    · obtain ⟨sub, hsub, hb⟩ := mem_labels_ofList.mp hb
      obtain rfl : b = labelOf sub := hb.resolve_right List.not_mem_nil
      obtain ⟨j, hj⟩ := List.getElem?_of_mem hsub
      obtain ⟨hsubKey, title, htitle⟩ := subItems_getElem? (hitem.children_eq ▸ hj)
      refine level_subMenus hlevel hdatabases htitle ?_
      show dashes sub.key = _
      rw [hsubKey, hitem.key_eq, dashes_append, dashes_append, dashes_toString, dashes_toString]

end Items

theorem answers_receivedAs {rows : Rows} {items : List Rows.MenuItem} {retType : String}
    (hasked : retType ∈ databaseMenus ++ tableMenus) (hlevel : Level retType key)
    (h : rows.rowsToMenuJson key retType attr = .returned items) : Answers key (receivedAs retType items) := by
  have hitems := isItem_of_rowsToMenuJson (List.mem_cons_of_mem _ hasked) h
  have hdatabases : retType = "databaseMenu" → dashes key = 0 := by
    rintro rfl
    simp [databaseMenus, tableMenus] at hasked
  unfold receivedAs
  split
  · exact answers_ofList (fun _ => rfl) (fun _ => rfl) hlevel hdatabases hitems
  · exact answers_ofList (fun _ => rfl) (fun _ => rfl) hlevel hdatabases hitems

theorem answers_databases {rows : Rows} {items : List Rows.MenuItem} (hkey : dashes key = 0)
    (h : rows.rowsToMenuJson key "databaseMenu" attr = .returned items) : Answers key (received items) :=
  answers_ofList (fun _ => rfl) (fun _ => rfl)
    ⟨fun h => by simp [databaseMenus] at h, fun h => by simp [tableMenus] at h⟩
    (fun _ => hkey) (isItem_of_rowsToMenuJson List.mem_cons_self h)

/-- Saved queries with distinct ids of one length. -/
theorem answers_sqlMenus {items : List SavedSql} (hnodup : (items.map SavedSql.id).Nodup)
    (hlength : ∀ x ∈ items, ∀ y ∈ items, x.id.length = y.id.length) : Answers key (sqlMenus key items) where
  rooted := by
    refine rooted_ofList (fun x _ => ⟨extends_append key x.id, Or.inl rfl, trivial⟩) ?_
    have hne : items.Pairwise fun x y => x.id ≠ y.id := List.pairwise_map.mp hnodup
    refine hne.imp_of_mem fun {x y} hx hy hne => ⟨fun h => ?_, fun h => ?_⟩
    · exact hne (eq_of_within_of_length (within_append h) (hlength x hx y hy))
    · exact hne (eq_of_within_of_length (within_append h) (hlength y hy x hx)).symm
  level b hb := by
    obtain ⟨item, -, hb⟩ := mem_labels_ofList.mp hb
    obtain rfl := hb.resolve_right List.not_mem_nil
    exact level_sqlMenu _

/-! ## Runs -/

/-- A whole tree: the databases on top, everything at its level. -/
structure Grown (k : String) (f : Forest Label) : Prop where
  rooted : Rooted k f
  tops : ∀ r ∈ f.roots, dashes r.key = 1
  level : ∀ b ∈ f.labels, Level b.menuType b.key

theorem Grown.nil (k : String) : Grown k .nil :=
  ⟨trivial, fun _ h => absurd h List.not_mem_nil, fun _ h => absurd h List.not_mem_nil⟩

theorem Grown.thinned (h : Grown k f) (hthin : Thinned g f) : Grown k g :=
  ⟨hthin.rooted h.rooted, fun r hr => h.tops r (hthin.roots hr), fun b hb => h.level b (hthin.labels hb)⟩

theorem Grown.updateNodeByKey (h : Grown k f) (hg : Answers key g) : Grown k (updateNodeByKey key g f) where
  rooted := h.rooted.updateNodeByKey hg.rooted
  tops r hr := h.tops r (roots_updateNodeByKey key g f ▸ hr)
  level b hb := (mem_updateNodeByKey hb).elim (h.level b) (hg.level b)

theorem Grown.updateTreeNodeByKey (h : Grown k f) (hkeeps : Keeps updater) :
    Grown k (updateTreeNodeByKey key updater f).2 where
  rooted := h.rooted.updateTreeNodeByKey hkeeps
  tops r hr := by
    have hmem := List.mem_map_of_mem (f := Label.key) hr
    rw [keys_updateTreeNodeByKey hkeeps key f] at hmem
    obtain ⟨c, hc, heq⟩ := List.mem_map.mp hmem
    exact heq ▸ h.tops c hc
  level b hb := by
    obtain ⟨a, ha, hkey, htype⟩ := mem_updateTreeNodeByKey hkeeps hb
    exact hkey ▸ htype ▸ h.level a ha

theorem Answers.grown (h : Answers k g) (hk : dashes k = 0)
    (hparts : ∀ r ∈ g.roots, dashes r.key = dashes k + 1) : Grown k g :=
  ⟨h.rooted, fun r hr => by rw [hparts r hr, hk], h.level⟩

/-- What the tree, the tree that is shown and the requests keep. -/
structure Sound (b : Browser) : Prop where
  grown : ∃ k, Grown k b.treeData
  shown : Thinned b.filteredData b.treeData
  asked : ∀ x ∈ b.asked, x.2 ∈ databaseMenus ++ tableMenus ∧ Level x.2 x.1

theorem sound_start : Sound start := ⟨⟨"", Grown.nil _⟩, Thinned.refl _, fun _ h => absurd h List.not_mem_nil⟩

theorem Sound.setTreeData {b : Browser} (h : Sound b) (hgrown : Grown k f) : Sound (b.setTreeData f) :=
  ⟨⟨k, hgrown⟩, Thinned.refl _, h.asked⟩

theorem asked_of_commandOf {node : Label} {c : Command} (hlevel : Level node.menuType node.key)
    (h : commandOf f node = some c) : c.retType ∈ databaseMenus ++ tableMenus ∧ Level c.retType c.key := by
  unfold commandOf at h
  split at h
  · next hmem =>
    obtain ⟨info, -, rfl⟩ := Option.map_eq_some_iff.mp h
    exact ⟨List.mem_append_left _ hmem, hlevel⟩
  · split at h
    · next hmem =>
      obtain ⟨info, -, rfl⟩ := Option.map_eq_some_iff.mp h
      exact ⟨List.mem_append_right _ hmem, hlevel⟩
    · cases h

/-- One step, by its action. -/
theorem Sound.step {b b' : Browser} {x : Action} (h : Sound b) (hvalid : Valid b x)
    (hstep : step toLowerCase b x = some b') : Sound b' := by
  obtain ⟨k, hgrown⟩ := h.grown
  cases x with
  | databases key rows attr =>
    simp only [ObjectTree.step] at hstep
    split at hstep
    · next items hitems =>
      obtain rfl := Option.some.inj hstep
      have hkey : dashes key = 0 := List.count_eq_zero.mpr hvalid
      have hanswer := answers_databases hkey hitems
      refine h.setTreeData (hanswer.grown hkey fun r hr => ?_)
      rw [received, roots_ofList] at hr
      obtain ⟨item, hmem, rfl⟩ := List.mem_map.mp hr
      obtain ⟨i, hi⟩ := List.getElem?_of_mem hmem
      show dashes item.key = _
      rw [(isItem_of_rowsToMenuJson List.mem_cons_self hitems i item hi).key_eq, dashes_append, dashes_toString]
    · cases hstep
  | expand node =>
    obtain rfl := Option.some.inj hstep
    refine ⟨⟨k, hgrown⟩, h.shown, fun y hy => ?_⟩
    rcases List.mem_append.mp hy with hy | hy
    · obtain ⟨c, hc, rfl⟩ := List.mem_map.mp hy
      have hlevel := hgrown.level node (h.shown.labels hvalid)
      exact asked_of_commandOf hlevel (Option.mem_toList.mp hc)
    · exact h.asked y hy
  | menu key retType rows attr =>
    simp only [ObjectTree.step] at hstep
    split at hstep
    · next items hitems =>
      obtain rfl := Option.some.inj hstep
      obtain ⟨hasked, hlevel⟩ := h.asked _ hvalid
      exact h.setTreeData (hgrown.updateNodeByKey (answers_receivedAs hasked hlevel hitems))
    · cases hstep
  | sqls key items =>
    obtain rfl := Option.some.inj hstep
    exact h.setTreeData (hgrown.updateNodeByKey (answers_sqlMenus hvalid.1 hvalid.2))
  | rename key newName =>
    obtain rfl := Option.some.inj hstep
    split
    · exact h.setTreeData (hgrown.updateTreeNodeByKey ⟨fun _ => rfl, fun _ => rfl⟩)
    · exact h
  | drop key =>
    obtain rfl := Option.some.inj hstep
    exact h.setTreeData (hgrown.thinned (thinned_deleteTreeNodeByKey key _))
  | search filter =>
    obtain rfl := Option.some.inj hstep
    unfold Browser.setFilter
    split
    · exact h
    · exact ⟨⟨k, hgrown⟩, thinned_filterNodes toLowerCase filter _, h.asked⟩

theorem sound_of_valid {b : Browser} (h : Reaches (step toLowerCase) Valid start b) : Sound b :=
  h.invariant (fun _ _ _ hs hok hst => hs.step hok hst) sound_start

/-! ## Where a node stands -/

theorem findNodeByKey_eq (h : Rooted k f) (hlies : Forest.Lies f anc a cs) : findNodeByKey a.key f = some a := by
  rw [findNodeByKey, Forest.find?_eq h.nodup hlies]
  rfl

/-- The databases above a node, by its key. -/
theorem Grown.find_database {after : List Label} (h : Grown k f)
    (hlies : Forest.Lies f (d :: after) b cs) :
    findNodeByKey (cutStringAtDash b.key 2) f = some d := by
  obtain ⟨ds, hd, -⟩ := hlies.split (List.nil_append _).symm
  have hwithin := ((h.rooted.above hlies).1 d List.mem_cons_self).within
  rw [cut_database (h.tops d hd.mem_roots) hwithin]
  exact findNodeByKey_eq h.rooted hd

/-- The node right above a node, by its key. -/
theorem Grown.find_parent {parent : Label} (h : Grown k f) (hlies : Forest.Lies f anc b cs)
    (hparent : anc.getLast? = some parent) (htype : b.menuType ≠ "sqlMenu") :
    findNodeByKey (cutStringAtDash b.key (-1)) f = some parent := by
  have hdashes := (h.rooted.parent hlies).resolve_left htype
  rw [hparent] at hdashes
  have hmem := List.mem_of_getLast? hparent
  rw [cut_parent ((h.rooted.above hlies).1 parent hmem) hdashes]
  obtain ⟨before, rfl⟩ := List.getLast?_eq_some_iff.mp hparent
  obtain ⟨ds, hlies', -⟩ := hlies.split rfl
  exact findNodeByKey_eq h.rooted hlies'

theorem ne_sqlMenu_of_mem {menuType : String} (h : menuType ∈ databaseMenus ∨ menuType ∈ tableMenus) :
    menuType ≠ "sqlMenu" := by
  rintro rfl
  simp [databaseMenus, tableMenus] at h

theorem Grown.commandOf_top (h : Grown k f) (hlies : Forest.Lies f [] b cs) : commandOf f b = none := by
  have htop := h.tops b hlies.mem_roots
  have hlevel := h.level b hlies.mem_labels
  unfold commandOf
  rw [if_neg, if_neg]
  · intro hmem
    have := hlevel.tables hmem
    omega
  · intro hmem
    have := hlevel.databases hmem
    omega

theorem Grown.commandOf_below {parent : Label} (h : Grown k f) (hlies : Forest.Lies f anc b cs)
    (hd : anc.head? = some d) (hparent : anc.getLast? = some parent) : commandOf f b = expected d parent b := by
  obtain ⟨after, rfl⟩ := List.head?_eq_some_iff.mp hd
  unfold commandOf expected
  by_cases hdatabase : b.menuType ∈ databaseMenus
  · -- Two dashes leave room for one label above the node.
    have hdashes := (h.level b hlies.mem_labels).databases hdatabase
    have hcount := (h.rooted.above hlies).2
    simp only [List.length_cons] at hcount
    obtain rfl : after = [] := List.length_eq_zero_iff.mp (by omega)
    rw [if_pos hdatabase, if_pos hdatabase, h.find_parent hlies rfl (ne_sqlMenu_of_mem (Or.inl hdatabase))]
    rfl
  · rw [if_neg hdatabase, if_neg hdatabase]
    by_cases htable : b.menuType ∈ tableMenus
    · rw [if_pos htable, if_pos htable, h.find_parent hlies hparent (ne_sqlMenu_of_mem (Or.inr htable)),
        h.find_database hlies]
      rfl
    · rw [if_neg htable, if_neg htable]

/-- One row with one name. -/
def named (column name : String) : Rows :=
  { columns := .ok [ascii column]
    rows := [{ values := .ok [.bytes (ascii name)], string := .error "", strings := .error "" }] }

/-- A fixed item. -/
def fixed (key title menuType : String) : Label :=
  { key, menuType, title := some title, attr := some (.given .null) }

end ObjectTree

end NextDBM
