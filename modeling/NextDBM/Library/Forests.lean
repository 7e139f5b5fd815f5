import Mathlib.Data.List.Nodup

/-!
# Forests

A forest is a list of trees with labelled nodes, given by the label of its first tree, the trees below it
and the trees beside it. `labels` are the labels from top to bottom and left to right; `Lies` says where a
node lies: under which labels, and with which trees below it.
-/

inductive Forest (α : Type*)
  | nil
  | node (label : α) (children siblings : Forest α)

namespace Forest

variable {α β : Type*} {f : Forest α} {a b : α} {anc : List α} {cs : Forest α}

def roots : Forest α → List α
  | nil => []
  | node a _ ss => a :: ss.roots

def labels : Forest α → List α
  | nil => []
  | node a cs ss => a :: (cs.labels ++ ss.labels)

def isEmpty : Forest α → Bool
  | nil => true
  | node _ _ _ => false

def ofList (leaf : β → α) (below : β → Forest α) : List β → Forest α
  | [] => nil
  | x :: xs => node (leaf x) (below x) (ofList leaf below xs)

/-- The first node whose label passes a test, with the trees below it. -/
def find? (p : α → Bool) : Forest α → Option (α × Forest α)
  | nil => none
  | node a cs ss => if p a then some (a, cs) else (cs.find? p).or (ss.find? p)

/-- `Lies f anc a cs`: a node of `f` with the label `a` and the trees `cs` below it, under the labels `anc`
from the top. -/
inductive Lies : Forest α → List α → α → Forest α → Prop
  | here {a : α} {cs ss : Forest α} : Lies (node a cs ss) [] a cs
  | beside {a b : α} {anc : List α} {cs ss ds : Forest α} (h : Lies ss anc b ds) :
    Lies (node a cs ss) anc b ds
  | under {a b : α} {anc : List α} {cs ss ds : Forest α} (h : Lies cs anc b ds) :
    Lies (node a cs ss) (a :: anc) b ds

theorem mem_labels : b ∈ f.labels ↔ ∃ anc cs, Lies f anc b cs := by
  induction f with
  | nil =>
    constructor
    · exact fun h => absurd h List.not_mem_nil
    · rintro ⟨anc, cs, ⟨⟩⟩
  | node a cs ss ihc ihs =>
    constructor
    · intro h
      rcases List.mem_cons.mp h with rfl | h
      · exact ⟨[], cs, .here⟩
      · rcases List.mem_append.mp h with h | h
        · obtain ⟨anc, ds, hlies⟩ := ihc.mp h
          exact ⟨_, ds, hlies.under⟩
        · obtain ⟨anc, ds, hlies⟩ := ihs.mp h
          exact ⟨anc, ds, hlies.beside⟩
    · rintro ⟨anc, ds, h⟩
      cases h with
      | here => exact List.mem_cons_self
      | beside h => exact List.mem_cons_of_mem _ (List.mem_append_right _ (ihs.mpr ⟨_, _, h⟩))
      | under h => exact List.mem_cons_of_mem _ (List.mem_append_left _ (ihc.mpr ⟨_, _, h⟩))

theorem Lies.mem_labels (h : Lies f anc b cs) : b ∈ f.labels := Forest.mem_labels.mpr ⟨_, _, h⟩

theorem Lies.subset_labels (h : Lies f anc b cs) : cs.labels ⊆ f.labels := by
  induction h with
  | here => exact fun c hc => List.mem_cons_of_mem _ (List.mem_append_left _ hc)
  | beside _ ih => exact fun c hc => List.mem_cons_of_mem _ (List.mem_append_right _ (ih hc))
  | under _ ih => exact fun c hc => List.mem_cons_of_mem _ (List.mem_append_left _ (ih hc))

theorem Lies.mem_roots (h : Lies f [] b cs) : b ∈ f.roots := by
  generalize hanc : ([] : List α) = anc at h
  induction h with
  | here => exact List.mem_cons_self
  | beside _ ih => exact List.mem_cons_of_mem _ (ih hanc)
  | under _ _ => cases hanc

/-- Every label above a node is that of a node, and the node lies below it. -/
theorem Lies.split (h : Lies f anc b cs) {before after : List α} (hanc : anc = before ++ a :: after) :
    ∃ ds, Lies f before a ds ∧ Lies ds after b cs := by
  induction h generalizing before with
  | here => exact absurd hanc (by simp)
  | beside _ ih =>
    obtain ⟨ds, h₁, h₂⟩ := ih hanc
    exact ⟨ds, h₁.beside, h₂⟩
  | @under a' _ anc' cs' _ _ h ih =>
    cases before with
    | nil =>
      obtain ⟨rfl, rfl⟩ := List.cons.inj hanc
      exact ⟨cs', .here, h⟩
    | cons c before =>
      obtain ⟨rfl, hrest⟩ := List.cons.inj hanc
      obtain ⟨ds, h₁, h₂⟩ := ih hrest
      exact ⟨ds, h₁.under, h₂⟩

theorem find?_eq_none {p : α → Bool} : f.find? p = none ↔ ∀ b ∈ f.labels, p b = false := by
  induction f with
  | nil => exact ⟨fun _ b hb => absurd hb List.not_mem_nil, fun _ => rfl⟩
  | node a cs ss ihc ihs =>
    rw [find?]
    by_cases ha : p a = true
    · simp [ha, labels]
    · simp only [ha, Bool.false_eq_true, if_false, Option.or_eq_none_iff, ihc, ihs, labels,
        List.forall_mem_cons, List.forall_mem_append]
      simp

/-- **Search**: where a key occurs once, the search for it ends at the node that has it. -/
theorem find?_eq {κ : Type*} [DecidableEq κ] {key : α → κ} (hnodup : (f.labels.map key).Nodup)
    (h : Lies f anc a cs) : f.find? (fun b => key b == key a) = some (a, cs) := by
  induction h with
  | here => simp [find?]
  | @beside a' b anc cs' ss ds h ih =>
    obtain ⟨hfirst, hrest⟩ := List.nodup_cons.mp hnodup
    rw [List.map_append] at hrest hfirst
    obtain ⟨-, hss, hdisj⟩ := List.nodup_append.mp hrest
    have hne : key a' ≠ key b := fun heq =>
      hfirst (heq ▸ List.mem_append_right _ (List.mem_map_of_mem h.mem_labels))
    have hnone : cs'.find? (fun c => key c == key b) = none := by
      refine find?_eq_none.mpr fun c hc => beq_eq_false_iff_ne.mpr fun heq => ?_
      exact hdisj _ (List.mem_map_of_mem hc) _ (List.mem_map_of_mem h.mem_labels) heq
    rw [find?, if_neg (by simpa using hne), hnone, Option.none_or]
    exact ih hss
  | @under a' b anc cs' ss ds h ih =>
    obtain ⟨hfirst, hrest⟩ := List.nodup_cons.mp hnodup
    rw [List.map_append] at hrest hfirst
    obtain ⟨hcs, -, -⟩ := List.nodup_append.mp hrest
    have hne : key a' ≠ key b := fun heq =>
      hfirst (heq ▸ List.mem_append_left _ (List.mem_map_of_mem h.mem_labels))
    rw [find?, if_neg (by simpa using hne), ih hcs, Option.some_or]

end Forest
