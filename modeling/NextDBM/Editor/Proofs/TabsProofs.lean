import NextDBM.Editor.Tabs
import Mathlib.Data.List.Nodup

/-!
# Proofs: the tabs of the editor

Objects are only added and keep their keys, so that what an earlier render held stays consistent. Every
handler that sets both states from one render gives a consistent render again; the setters, which leave
the active key alone, do so as long as that key is one of the tabs they were shown.
-/

namespace NextDBM

namespace Tabs

open Transition

variable {V : Type} {heap heap' : List (Tab V)} {tabs : List Nat} {tab : Nat} {key : String}
  {s : Setter V} {r : Render} {p p' : Panel V} {held : Render}

/-! ## Objects -/

@[simp] theorem id_write (s : Setter V) (t : Tab V) : (s.write t).id = t.id := by
  cases s <;> rfl

/-- Objects are added, and keep their keys. -/
structure Grows (heap heap' : List (Tab V)) : Prop where
  length_le : heap.length ≤ heap'.length
  idOf_eq : ∀ tab < heap.length, idOf heap' tab = idOf heap tab

theorem Grows.refl (heap : List (Tab V)) : Grows heap heap := ⟨Nat.le_refl _, fun _ _ => rfl⟩

theorem Grows.trans {heap'' : List (Tab V)} (h : Grows heap heap') (h' : Grows heap' heap'') :
    Grows heap heap'' := by
  refine ⟨Nat.le_trans h.length_le h'.length_le, fun tab htab => ?_⟩
  have hlt : tab < heap'.length := Nat.lt_of_lt_of_le htab h.length_le
  rw [h'.idOf_eq tab hlt, h.idOf_eq tab htab]

theorem grows_append (heap added : List (Tab V)) : Grows heap (heap ++ added) := by
  refine ⟨?_, fun tab htab => ?_⟩
  · simp
  · unfold idOf
    rw [List.getElem?_append_left htab]

theorem grows_modify (heap : List (Tab V)) (tab : Nat) (s : Setter V) :
    Grows heap (heap.modify tab s.write) := by
  refine ⟨?_, fun n _ => ?_⟩
  · simp
  · unfold idOf
    rw [List.getElem?_modify]
    have hid : (Tab.id ∘ fun t => s.write t) = Tab.id := funext fun t => id_write s t
    by_cases h : tab = n
    · simp [h, hid]
    · simp [h]

theorem Grows.ids_eq (h : Grows heap heap') (htabs : ∀ tab ∈ tabs, tab < heap.length) :
    ids heap' tabs = ids heap tabs :=
  List.map_congr_left fun tab htab => h.idOf_eq tab (htabs tab htab)

theorem Grows.consistent (h : Grows heap heap') (hr : Consistent heap r) : Consistent heap' r := by
  have hids := h.ids_eq hr.stored
  refine ⟨fun tab htab => Nat.lt_of_lt_of_le (hr.stored tab htab) h.length_le, ?_, ?_⟩
  · rw [hids]
    exact hr.distinct
  · rw [hids]
    exact hr.active

theorem idOf_append_length (heap : List (Tab V)) (t : Tab V) :
    idOf (heap ++ [t]) heap.length = some t.id := by
  simp [idOf]

theorem mem_ids : some key ∈ ids heap tabs ↔ ∃ tab ∈ tabs, idOf heap tab = some key := List.mem_map

theorem getTabByID_eq_none : getTabByID heap tabs key = none ↔ some key ∉ ids heap tabs := by
  unfold getTabByID
  rw [List.find?_eq_none, mem_ids]
  simp

theorem idOf_of_getTabByID (h : getTabByID heap tabs key = some tab) :
    tab ∈ tabs ∧ idOf heap tab = some key := by
  have hkey := List.find?_some h
  exact ⟨List.mem_of_find?_eq_some h, by simpa using hkey⟩

/-! ## The loop of the setters -/

theorem writeAt_spec (s : Setter V) (htab : tab < heap.length) :
    Grows heap (writeAt heap s tab).1 ∧ (writeAt heap s tab).2 < (writeAt heap s tab).1.length ∧
      idOf (writeAt heap s tab).1 (writeAt heap s tab).2 = idOf heap tab := by
  unfold writeAt
  by_cases hs : s.copies = true
  · rw [if_pos hs, List.getElem?_eq_getElem htab]
    refine ⟨grows_append _ _, by simp, ?_⟩
    simp [idOf, htab]
  · rw [if_neg hs]
    have hgrows := grows_modify heap tab s
    exact ⟨hgrows, Nat.lt_of_lt_of_le htab hgrows.length_le, hgrows.idOf_eq tab htab⟩

/-- The loop keeps the keys, and leaves the other objects as they are. -/
theorem writeAll_spec (s : Setter V) (key : String) (htabs : ∀ tab ∈ tabs, tab < heap.length) :
    Grows heap (writeAll s key heap tabs).1 ∧
      (∀ tab ∈ (writeAll s key heap tabs).2, tab < (writeAll s key heap tabs).1.length) ∧
      ids (writeAll s key heap tabs).1 (writeAll s key heap tabs).2 = ids heap tabs := by
  induction tabs generalizing heap with
  | nil => exact ⟨Grows.refl heap, fun _ h => absurd h List.not_mem_nil, rfl⟩
  | cons tab tabs ih =>
    obtain ⟨htab, hrest⟩ := List.forall_mem_cons.mp htabs
    -- The first tab, whether it is written or not.
    obtain ⟨first, hfirst⟩ : ∃ first,
        first = if idOf heap tab = some key then writeAt heap s tab else (heap, tab) := ⟨_, rfl⟩
    have hspec : Grows heap first.1 ∧ first.2 < first.1.length ∧
        idOf first.1 first.2 = idOf heap tab := by
      rw [hfirst]
      split
      · exact writeAt_spec s htab
      · exact ⟨Grows.refl heap, htab, rfl⟩
    obtain ⟨hgrows, hlt, hid⟩ := hspec
    obtain ⟨hmore, hstored, hids⟩ :=
      ih fun t ht => Nat.lt_of_lt_of_le (hrest t ht) hgrows.length_le
    have hall : writeAll s key heap (tab :: tabs) =
        ((writeAll s key first.1 tabs).1, first.2 :: (writeAll s key first.1 tabs).2) := by
      rw [hfirst]
      rfl
    rw [hall]
    refine ⟨hgrows.trans hmore, ?_, ?_⟩
    · exact List.forall_mem_cons.mpr ⟨Nat.lt_of_lt_of_le hlt hmore.length_le, hstored⟩
    · show idOf _ first.2 :: ids _ _ = idOf heap tab :: ids heap tabs
      rw [hids, hmore.idOf_eq first.2 hlt, hid, hgrows.ids_eq hrest]

/-! ## Closing a tab -/

theorem lastIndex_spec (heap : List (Tab V)) (tabs : List Nat) (key : String) :
    lastIndex heap tabs key = -1 ∨ lastIndex heap tabs key + 1 < tabs.length := by
  -- The fold from any position on, with what it has found so far.
  have hfold : ∀ (tabs : List Nat) (start : Nat) (last : Int),
      let found := (tabs.zipIdx start).foldl
        (fun last x => if idOf heap x.1 = some key then (x.2 : Int) - 1 else last) last
      found = last ∨ found + 1 < start + tabs.length := by
    intro tabs
    induction tabs with
    | nil => exact fun _ _ => Or.inl rfl
    | cons tab tabs ih =>
      intro start last
      simp only [List.zipIdx_cons, List.foldl_cons, List.length_cons]
      by_cases hkey : idOf heap tab = some key
      · rw [if_pos hkey]
        rcases ih (start + 1) (start - 1) with h | h
        · refine Or.inr ?_
          rw [h]
          omega
        · refine Or.inr ?_
          push_cast at h ⊢
          omega
      · rw [if_neg hkey]
        rcases ih (start + 1) last with h | h
        · exact Or.inl h
        · refine Or.inr ?_
          push_cast at h ⊢
          omega
  rcases hfold tabs 0 (-1) with h | h
  · exact Or.inl h
  · have hlt : lastIndex heap tabs key + 1 < (0 : Nat) + tabs.length := h
    exact Or.inr (by omega)

/-- Distinct keys: closing takes one tab. -/
theorem length_le_filter (h : (ids heap tabs).Nodup) (key : String) :
    tabs.length ≤ (tabs.filter fun tab => idOf heap tab != some key).length + 1 := by
  induction tabs with
  | nil => simp
  | cons tab tabs ih =>
    obtain ⟨hnot, hrest⟩ := List.nodup_cons.mp h
    by_cases hkey : idOf heap tab = some key
    · have hall : ∀ t ∈ tabs, (idOf heap t != some key) = true := by
        intro t ht
        have hne : idOf heap t ≠ idOf heap tab := fun heq => hnot (heq ▸ List.mem_map_of_mem ht)
        rw [hkey] at hne
        simpa using hne
      simp [hkey, List.filter_eq_self.mpr hall]
    · have := ih hrest
      simp [hkey]
      omega

/-- **Closing**: from a consistent render a tab is closed without an error, and the render stays
consistent. -/
theorem removeTab_spec (hr : Consistent heap r) (key : String) :
    ∃ r', removeTab heap r key = some r' ∧ Consistent heap r' ∧
      r'.tabs = r.tabs.filter (fun tab => idOf heap tab != some key) ∧
      (r.tabIndex ≠ key → r'.tabIndex = r.tabIndex) := by
  obtain ⟨newPanes, hpanes⟩ : ∃ newPanes,
      newPanes = r.tabs.filter fun tab => idOf heap tab != some key := ⟨_, rfl⟩
  have hsub : newPanes.Sublist r.tabs := by
    rw [hpanes]
    exact List.filter_sublist
  have hstored : ∀ tab ∈ newPanes, tab < heap.length := fun tab htab => hr.stored tab (hsub.subset htab)
  have hdistinct : (ids heap newPanes).Nodup := hr.distinct.sublist (hsub.map _)
  by_cases hcond : newPanes ≠ [] ∧ r.tabIndex = key
  · -- The tab before the closed one, or the first one, is there.
    have hlength := length_le_filter hr.distinct key
    rw [← hpanes] at hlength
    have hlast := lastIndex_spec heap r.tabs key
    have hpos : 0 < newPanes.length := List.length_pos_iff.mpr hcond.1
    obtain ⟨tab, htab, hchosen⟩ : ∃ tab ∈ newPanes,
        (if 0 ≤ lastIndex heap r.tabs key then newPanes[(lastIndex heap r.tabs key).toNat]?
          else newPanes[0]?) = some tab := by
      by_cases hle : 0 ≤ lastIndex heap r.tabs key
      · have hlt : (lastIndex heap r.tabs key).toNat < newPanes.length := by omega
        exact ⟨_, List.getElem_mem hlt, by rw [if_pos hle, List.getElem?_eq_getElem hlt]⟩
      · exact ⟨_, List.getElem_mem hpos, by rw [if_neg hle, List.getElem?_eq_getElem hpos]⟩
    obtain ⟨id, hid⟩ : ∃ id, idOf heap tab = some id :=
      ⟨_, by rw [idOf, List.getElem?_eq_getElem (hstored tab htab)]; rfl⟩
    refine ⟨⟨newPanes, id⟩, ?_, ⟨hstored, hdistinct, fun _ => mem_ids.mpr ⟨tab, htab, hid⟩⟩, hpanes,
      fun hne => absurd hcond.2 hne⟩
    unfold removeTab
    rw [← hpanes]
    simp only [if_pos hcond, hchosen, Option.bind_some, hid, Option.map_some]
  · refine ⟨⟨newPanes, r.tabIndex⟩, ?_, ⟨hstored, hdistinct, fun hne => ?_⟩, hpanes, fun _ => rfl⟩
    · unfold removeTab
      rw [← hpanes]
      simp only [if_neg hcond]
    · have hkey : r.tabIndex ≠ key := fun heq => hcond ⟨hne, heq⟩
      obtain ⟨tab, htab, hid⟩ := mem_ids.mp (hr.active fun heq => hne (by rw [hpanes, heq]; rfl))
      refine mem_ids.mpr ⟨tab, ?_, hid⟩
      rw [hpanes]
      refine List.mem_filter.mpr ⟨htab, ?_⟩
      rw [hid]
      simpa using hkey

/-! ## The panel -/

/-- What fair steps keep. -/
structure Invariant (p : Panel V) : Prop where
  shown : Consistent p.heap p.render
  held : ∀ w, some w ∈ p.waiting → Consistent p.heap w.held
  first : ∀ w, some w ∈ p.waiting → w.work = .loaded → w.held.tabs = [0]
  quiet : p.failed = false

/-- Other objects and another render, with the same work to do. -/
theorem Invariant.update (h : Invariant p) (hgrows : Grows p.heap heap) (hr : Consistent heap r) :
    Invariant { p with heap := heap, render := r } where
  shown := hr
  held w hw := hgrows.consistent (h.held w hw)
  first := h.first
  quiet := h.quiet

theorem Invariant.wait (h : Invariant p) (hheld : Consistent p.heap held) {work : Work V}
    (hwork : work ≠ .loaded) : Invariant (p.wait held work) := by
  refine ⟨h.shown, fun w hw => ?_, fun w hw hloaded => ?_, h.quiet⟩
  · rcases List.mem_append.mp hw with hw | hw
    · exact h.held w hw
    · obtain rfl := Option.some.inj (List.mem_singleton.mp hw)
      exact hheld
  · rcases List.mem_append.mp hw with hw | hw
    · exact h.first w hw hloaded
    · obtain rfl := Option.some.inj (List.mem_singleton.mp hw)
      exact absurd hloaded hwork

theorem Invariant.done (h : Invariant p) (place : Nat) : Invariant (p.done place) := by
  have hmem : ∀ w, some w ∈ (p.done place).waiting → some w ∈ p.waiting := by
    intro w hw
    rcases List.mem_or_eq_of_mem_set hw with hw | hw
    · exact hw
    · cases hw
  exact ⟨h.shown, fun w hw => h.held w (hmem w hw), fun w hw => h.first w (hmem w hw), h.quiet⟩

/-- A new tab at the end, and active. -/
theorem consistent_push (hheld : Consistent p.heap held) (t : Tab V) :
    Consistent (p.push held t).heap (p.push held t).render ↔ some t.id ∉ ids p.heap held.tabs := by
  have hgrows : Grows p.heap (p.heap ++ [t]) := grows_append _ _
  have hids : ids (p.heap ++ [t]) (held.tabs ++ [p.heap.length]) = ids p.heap held.tabs ++ [some t.id] := by
    show (held.tabs ++ [p.heap.length]).map _ = _
    rw [List.map_append, List.map_singleton, idOf_append_length]
    exact congrArg (· ++ [some t.id]) (hgrows.ids_eq hheld.stored)
  constructor
  · intro h hmem
    have hdistinct : (ids p.heap held.tabs ++ [some t.id]).Nodup := hids ▸ h.distinct
    exact (List.nodup_append.mp hdistinct).2.2 _ hmem _ (List.mem_singleton_self _) rfl
  · intro hfresh
    refine ⟨fun tab htab => ?_, ?_, fun _ => ?_⟩
    · have hlength : (p.push held t).heap.length = p.heap.length + 1 := List.length_append
      rcases List.mem_append.mp htab with htab | htab
      · have := hheld.stored tab htab
        omega
      · have := List.mem_singleton.mp htab
        omega
    · show (ids (p.heap ++ [t]) (held.tabs ++ [p.heap.length])).Nodup
      rw [hids]
      refine List.nodup_append.mpr ⟨hheld.distinct, List.nodup_singleton _, fun a ha b hb hab => ?_⟩
      exact hfresh (List.mem_singleton.mp hb ▸ hab ▸ ha)
    · show some t.id ∈ ids (p.heap ++ [t]) (held.tabs ++ [p.heap.length])
      rw [hids]
      exact List.mem_append_right _ (List.mem_singleton_self _)

theorem Invariant.push (h : Invariant p) (hheld : Consistent p.heap held) {t : Tab V}
    (hfresh : some t.id ∉ ids p.heap held.tabs) : Invariant (p.push held t) :=
  h.update (grows_append _ _) ((consistent_push hheld t).mpr hfresh)

theorem Invariant.closeTab (h : Invariant p) (hheld : Consistent p.heap held) (key : String) :
    Invariant (p.closeTab held key) := by
  obtain ⟨r', hr', hcons, -, -⟩ := removeTab_spec hheld key
  unfold Panel.closeTab
  rw [hr']
  exact h.update (Grows.refl _) hcons

/-! ## Setters -/

/-- The setter of a tab that is shown: the loop runs, and only a setter that renders sets the list. -/
theorem assign_eq (hkey : held.tabs ≠ [] → some key ∈ ids p.heap held.tabs) (s : Setter V) :
    p.assign held key s =
      { p with heap := (writeAll s key p.heap held.tabs).1
               render := if s.rerenders then
                   ⟨(writeAll s key p.heap held.tabs).2, p.render.tabIndex⟩
                 else p.render } := by
  unfold Panel.assign
  have hcond : ¬ (held.tabs ≠ [] ∧ getTabByID p.heap held.tabs key = none) :=
    fun h => getTabByID_eq_none.mp h.2 (hkey h.1)
  rw [if_neg hcond]
  by_cases hs : s.rerenders = true
  · simp only [if_pos hs, Panel.setTabs]
  · simp only [if_neg hs]

theorem consistent_assign (h : Invariant p) (hheld : Consistent p.heap held)
    (hkey : held.tabs ≠ [] → some key ∈ ids p.heap held.tabs) (s : Setter V) :
    Consistent (p.assign held key s).heap (p.assign held key s).render ↔
      (s.rerenders = true → p.StillShown held) := by
  obtain ⟨hgrows, hstored, hids⟩ := writeAll_spec s key hheld.stored
  rw [assign_eq hkey]
  by_cases hs : s.rerenders = true
  · simp only [hs, if_true, forall_const]
    have hempty : (writeAll s key p.heap held.tabs).2 = [] ↔ held.tabs = [] := by
      have hlength := congrArg List.length hids
      simp only [ids, List.length_map] at hlength
      rw [← List.length_eq_zero_iff, hlength, List.length_eq_zero_iff]
    constructor
    · intro hcons hne
      have := hcons.active fun heq => hne (hempty.mp heq)
      rwa [hids] at this
    · intro hshown
      refine ⟨hstored, ?_, fun hne => ?_⟩
      · rw [hids]
        exact hheld.distinct
      · rw [hids]
        exact hshown fun heq => hne (hempty.mpr heq)
  · simp only [hs, Bool.false_eq_true, if_false, false_implies, iff_true]
    exact hgrows.consistent h.shown

theorem Invariant.assign (h : Invariant p) (hheld : Consistent p.heap held)
    (hkey : held.tabs ≠ [] → some key ∈ ids p.heap held.tabs) {s : Setter V}
    (hshown : s.rerenders = true → p.StillShown held) : Invariant (p.assign held key s) := by
  have hcons := (consistent_assign h hheld hkey s).mpr hshown
  rw [assign_eq hkey] at hcons ⊢
  exact h.update (writeAll_spec s key hheld.stored).1 hcons

/-! ## Steps -/

/-- What `addTab` does: ask for an id, activate a tab that is there, or push a tab. -/
theorem addTab_cases (p : Panel V) (held : Render) (params : TabParams) (date : String) :
    (p.addTab held params date = p.request held params date ∧
      ∀ key ∈ params.key, some key ∉ ids p.heap held.tabs) ∨
    (∃ key ∈ params.key, some key ∈ ids p.heap held.tabs ∧
      p.addTab held params date = p.setTabIndex key) ∨
    (∃ key ∈ params.key, some key ∉ ids p.heap held.tabs ∧
      p.addTab held params date = p.push held (newTab params (orElse params.title date) key)) := by
  unfold Panel.addTab
  cases hkey : params.key with
  | none => exact Or.inl ⟨rfl, fun key hmem => by cases hmem⟩
  | some key =>
    cases hget : getTabByID p.heap held.tabs key with
    | some tab =>
      obtain ⟨htab, hid⟩ := idOf_of_getTabByID hget
      refine Or.inr (Or.inl ⟨key, rfl, mem_ids.mpr ⟨tab, htab, hid⟩, ?_⟩)
      simp only [hget]
    | none =>
      have hnot := getTabByID_eq_none.mp hget
      by_cases hempty : key = ""
      · refine Or.inl ⟨?_, fun key' hkey' => ?_⟩
        · simp only [hget, if_pos hempty]
        · obtain rfl := Option.some.inj hkey'
          exact hnot
      · refine Or.inr (Or.inr ⟨key, rfl, hnot, ?_⟩)
        simp only [hget, if_neg hempty]

/-- The key of the active tab is set, and nothing else. -/
theorem consistent_select (h : Consistent heap r) (key : String) :
    Consistent heap ⟨r.tabs, key⟩ ↔ (r.tabs ≠ [] → some key ∈ ids heap r.tabs) :=
  ⟨fun h' => h'.active, fun hkey => ⟨h.stored, h.distinct, hkey⟩⟩

/-- The panel is consistent exactly when a condition was met, and nothing has thrown. -/
structure SoundWhen (p' : Panel V) (fits : Prop) : Prop where
  consistent_iff : Consistent p'.heap p'.render ↔ fits
  invariant : fits → Invariant p'
  quiet : p'.failed = false

theorem SoundWhen.of_invariant {fits : Prop} (h : Invariant p') (hfits : fits) : SoundWhen p' fits :=
  ⟨iff_of_true h.shown hfits, fun _ => h, h.quiet⟩

theorem soundWhen_handle (h : Invariant p) (hheld : Consistent p.heap held) (hd : Handler V) :
    SoundWhen (p.handle held hd) (hd.Fits p held) := by
  cases hd with
  | addTab params date =>
    show SoundWhen (p.addTab held params date) _
    rcases addTab_cases p held params date with ⟨heq, hnot⟩ | ⟨key, hkey, hmem, heq⟩ |
        ⟨key, hkey, hnot, heq⟩
    · rw [heq]
      exact SoundWhen.of_invariant (h.wait hheld (by simp)) fun key hkey hmem => absurd hmem (hnot key hkey)
    · rw [heq]
      have hcons := consistent_select h.shown key
      have hfits : (Handler.addTab params date).Fits p held ↔
          (p.render.tabs ≠ [] → some key ∈ ids p.heap p.render.tabs) := by
        constructor
        · exact fun hfits => hfits key hkey hmem
        · intro hshown key' hkey' _
          obtain rfl := Option.mem_unique hkey hkey'
          exact hshown
      exact ⟨hcons.trans hfits.symm, fun hf => h.update (Grows.refl _) (hcons.mpr (hfits.mp hf)), h.quiet⟩
    · rw [heq]
      refine SoundWhen.of_invariant (h.push hheld hnot) fun key' hkey' hmem => ?_
      obtain rfl := Option.mem_unique hkey hkey'
      exact absurd hmem hnot
  | set s =>
    show SoundWhen (p.assign held held.tabIndex s) _
    exact ⟨consistent_assign h hheld hheld.active s, h.assign hheld hheld.active, by
      rw [assign_eq hheld.active]
      exact h.quiet⟩
  | renameNode id name =>
    cases hget : getTabByID p.heap held.tabs id with
    | some tab =>
      have heq : p.handle held (.renameNode id name) = p.assign held id (.setTabName name) := by
        simp only [Panel.handle, hget]
      rw [heq]
      obtain ⟨htab, hid⟩ := idOf_of_getTabByID hget
      have hmem : some id ∈ ids p.heap held.tabs := mem_ids.mpr ⟨tab, htab, hid⟩
      have hcons := consistent_assign h hheld (fun _ => hmem) (.setTabName name)
      refine ⟨hcons.trans ?_, fun hfits => h.assign hheld (fun _ => hmem) fun _ => hfits hmem, ?_⟩
      · exact ⟨fun hs _ => hs rfl, fun hs _ => hs hmem⟩
      · rw [assign_eq fun _ => hmem]
        exact h.quiet
    | none =>
      have heq : p.handle held (.renameNode id name) = p := by
        simp only [Panel.handle, hget]
      rw [heq]
      exact SoundWhen.of_invariant h fun hmem => absurd hmem (getTabByID_eq_none.mp hget)

theorem Invariant.load (h : Invariant p) (hheld : Consistent p.heap held) (hone : held.tabs = [0])
    (newId : String) : Invariant (p.load held newId) := by
  have hlt : 0 < p.heap.length := hheld.stored 0 (by simp [hone])
  have hitems : (held.tabs.filterMap (p.heap[·]?)).map (fun item => { item with id := newId }) =
      [{ p.heap[0] with id := newId }] := by
    rw [hone]
    simp [List.getElem?_eq_getElem hlt]
  unfold Panel.load
  simp only [hitems, List.length_singleton, List.range'_one]
  refine h.update (grows_append _ _) ⟨?_, List.nodup_singleton _, fun _ => ?_⟩
  · simp
  · rw [mem_ids]
    exact ⟨_, List.mem_singleton_self _, idOf_append_length _ _⟩

theorem Invariant.edit (h : Invariant p) (hkey : some key ∈ ids p.heap p.render.tabs) :
    Invariant (p.edit key) := by
  obtain ⟨tab, hget⟩ := Option.ne_none_iff_exists'.mp fun hnone => getTabByID_eq_none.mp hnone hkey
  have hlt := h.shown.stored tab (idOf_of_getTabByID hget).1
  unfold Panel.edit
  simp only [hget, Option.bind_some, List.getElem?_eq_getElem hlt]
  split
  · exact h.wait h.shown (by simp)
  · exact h.closeTab h.shown key

theorem settle_cases {place : Nat} {newId : String} (h : p.settle place newId = some p') :
    ∃ w, p.waiting[place]? = some (some w) ∧
      ((w.work = .loaded ∧ p' = (p.done place).load w.held newId) ∨
        (∃ params title, w.work = .opened params title ∧
          p' = (p.done place).push w.held (newTab params title newId)) ∨
        ∃ hd, w.work = .handler hd ∧ p' = (p.done place).handle w.held hd) := by
  unfold Panel.settle at h
  split at h
  · exact ⟨_, ‹_›, Or.inl ⟨rfl, (Option.some.inj h).symm⟩⟩
  · exact ⟨_, ‹_›, Or.inr (Or.inl ⟨_, _, rfl, (Option.some.inj h).symm⟩)⟩
  · exact ⟨_, ‹_›, Or.inr (Or.inr ⟨_, rfl, (Option.some.inj h).symm⟩)⟩
  · cases h

theorem answer_cases {place : Nat} {button : Button} (h : p.answer place button = some p') :
    ∃ held targetKey, p.waiting[place]? = some (some ⟨held, .closing targetKey⟩) ∧
      p' = (p.done place).closeTab held targetKey := by
  unfold Panel.answer at h
  split at h
  · refine ⟨_, _, ‹_›, ?_⟩
    cases button <;> exact (Option.some.inj h).symm
  · cases h

/-- **One step** keeps the panel consistent exactly when it is fair. -/
theorem soundWhen_step (h : Invariant p) {a : Action V} (hstep : step p a = some p') :
    SoundWhen p' (Fair p a) := by
  cases a with
  | select key =>
    obtain ⟨hmem, heq⟩ := Option.ite_none_right_eq_some.mp hstep
    obtain rfl := Option.some.inj heq
    exact .of_invariant (h.update (Grows.refl _) ((consistent_select h.shown key).mpr fun _ => hmem)) trivial
  | run hd =>
    obtain rfl := Option.some.inj hstep
    have hsound := soundWhen_handle h h.shown hd
    have hfits : hd.Fits p p.render := by
      cases hd with
      | addTab params date => exact fun _ _ hmem _ => hmem
      | set s => exact fun _ => h.shown.active
      | renameNode id name => exact fun _ => h.shown.active
    exact .of_invariant (hsound.invariant hfits) trivial
  | postpone hd =>
    obtain rfl := Option.some.inj hstep
    exact .of_invariant (h.wait h.shown (by simp)) trivial
  | edit key =>
    obtain ⟨hmem, heq⟩ := Option.ite_none_right_eq_some.mp hstep
    obtain rfl := Option.some.inj heq
    exact .of_invariant (h.edit hmem) trivial
  | closeItem =>
    obtain rfl := Option.some.inj hstep
    exact .of_invariant (h.wait h.shown (by simp)) trivial
  | drag tabs =>
    obtain ⟨hperm, heq⟩ := Option.ite_none_right_eq_some.mp hstep
    obtain rfl := Option.some.inj heq
    have hids : (ids p.heap tabs).Perm (ids p.heap p.render.tabs) := hperm.map _
    refine .of_invariant (h.update (Grows.refl _) ⟨?_, hids.nodup_iff.mpr h.shown.distinct, ?_⟩) trivial
    · exact fun tab htab => h.shown.stored tab (hperm.mem_iff.mp htab)
    · exact fun hne => hids.mem_iff.mpr (h.shown.active fun heq => hne (List.perm_nil.mp (heq ▸ hperm)))
  | settle place newId =>
    obtain ⟨w, hw, hcases⟩ := settle_cases hstep
    have hheld := h.held w (List.mem_of_getElem? hw)
    have hfair : Fair p (.settle place newId) ↔ w.work.Fits p w.held newId := by
      simp [Fair, hw]
    have hdone := h.done place
    rcases hcases with ⟨hwork, rfl⟩ | ⟨params, title, hwork, rfl⟩ | ⟨hd, hwork, rfl⟩
    · refine .of_invariant (hdone.load hheld (h.first w (List.mem_of_getElem? hw) hwork) newId) ?_
      rw [hfair, hwork]
      trivial
    · have hpush := @consistent_push V (p.done place) w.held hheld (newTab params title newId)
      rw [hwork] at hfair
      exact ⟨hpush.trans hfair.symm, fun hf => hdone.push hheld (hfair.mp hf), h.quiet⟩
    · have hsound := soundWhen_handle hdone hheld hd
      rw [hwork] at hfair
      exact ⟨hsound.consistent_iff.trans hfair.symm, fun hf => hsound.invariant (hfair.mp hf), hsound.quiet⟩
  | answer place button =>
    obtain ⟨held, targetKey, hw, rfl⟩ := answer_cases hstep
    exact .of_invariant ((h.done place).closeTab (h.held _ (List.mem_of_getElem? hw)) targetKey) trivial

theorem invariant_start (date : String) : Invariant (start date : Panel V) := by
  have hcons : Consistent (start date : Panel V).heap ⟨[0], "0"⟩ :=
    ⟨by simp [start], List.nodup_singleton _, fun _ => List.mem_singleton_self _⟩
  refine ⟨hcons, fun w hw => ?_, fun w hw _ => ?_, rfl⟩
  · obtain rfl := Option.some.inj (List.mem_singleton.mp hw)
    exact hcons
  · obtain rfl := Option.some.inj (List.mem_singleton.mp hw)
    rfl

theorem invariant_of_reaches {date : String} (h : Reaches step Fair (start date) p) : Invariant p :=
  h.invariant (fun _ _ _ hinv hfair hstep => (soundWhen_step hinv hstep).invariant hfair)
    (invariant_start date)

/-- **Safety of the tabs**: as long as the steps are fair, the keys are distinct, the active key is that of
a tab and no handler throws; the first step that is not fair breaks this, and no other step does. -/
theorem consistent_iff_fair {date : String} (h : Reaches step Fair (start date) p) :
    Consistent p.heap p.render ∧ p.failed = false ∧ ∀ a p', step p a = some p' →
      (Consistent p'.heap p'.render ↔ Fair p a) ∧ p'.failed = false := by
  have hinv := invariant_of_reaches h
  refine ⟨hinv.shown, hinv.quiet, fun a p' hstep => ?_⟩
  have hsound := soundWhen_step hinv hstep
  exact ⟨hsound.consistent_iff, hsound.quiet⟩

/-- A renaming waits while another tab is opened: its end drops the active tab from the list. -/
theorem consistent_iff_fair_renamed : ∃ p p' : Panel Unit,
    exec step (start "12:00") [.settle 0 "a1", .postpone (.set (.setTabName "orders")),
      .run (.addTab { type := .filter, key := some "db.orders" } "12:01")] = some p ∧
    step p (.settle 1 "") = some p' ∧ Consistent p.heap p.render ∧ ¬ Consistent p'.heap p'.render := by
  have hrun : exec step (start "12:00" : Panel Unit) [.settle 0 "a1",
      .postpone (.set (.setTabName "orders")),
      .run (.addTab { type := .filter, key := some "db.orders" } "12:01")] = some _ := rfl
  refine ⟨_, _, hrun, rfl, ?_⟩
  have h := consistent_iff_fair (reaches_of_exec hrun (by decide))
  exact ⟨h.1, fun hcons => absurd (((h.2.2 (.settle 1 "") _ rfl).1).mp hcons) (by decide)⟩

/-! ## Work that waits -/

theorem waiting_assign (p : Panel V) (held : Render) (key : String) (s : Setter V) :
    (p.assign held key s).waiting = p.waiting := by
  unfold Panel.assign
  split
  · split <;> rfl
  · dsimp only
    split <;> rfl

theorem waiting_closeTab (p : Panel V) (held : Render) (key : String) :
    (p.closeTab held key).waiting = p.waiting := by
  unfold Panel.closeTab
  split <;> rfl

theorem getElem?_wait {place : Nat} {x : Option (Waiting V)} {work : Work V}
    (hx : p.waiting[place]? = some x) : (p.wait held work).waiting[place]? = some x := by
  obtain ⟨hlt, -⟩ := List.getElem?_eq_some_iff.mp hx
  exact (List.getElem?_append_left hlt).trans hx

theorem getElem?_handle {place : Nat} {x : Option (Waiting V)} (hx : p.waiting[place]? = some x)
    (hd : Handler V) : (p.handle held hd).waiting[place]? = some x := by
  cases hd with
  | addTab params date =>
    show (p.addTab held params date).waiting[place]? = some x
    rcases addTab_cases p held params date with ⟨heq, -⟩ | ⟨key, -, -, heq⟩ | ⟨key, -, -, heq⟩
    · rw [heq]
      exact getElem?_wait hx
    · rw [heq]
      exact hx
    · rw [heq]
      exact hx
  | set s =>
    show (p.assign held held.tabIndex s).waiting[place]? = some x
    rw [waiting_assign]
    exact hx
  | renameNode id name =>
    unfold Panel.handle
    dsimp only
    split
    · rw [waiting_assign]
      exact hx
    · exact hx

theorem getElem?_done {place n : Nat} {x : Option (Waiting V)} (hne : n ≠ place)
    (hx : p.waiting[place]? = some x) : (p.done n).waiting[place]? = some x :=
  (List.getElem?_set_ne hne).trans hx

/-- What waits stays as it is until its own end. -/
theorem getElem?_step {place : Nat} {x : Option (Waiting V)} {a : Action V} (hends : ¬ a.Ends place)
    (hstep : step p a = some p') (hx : p.waiting[place]? = some x) : p'.waiting[place]? = some x := by
  cases a with
  | select key =>
    obtain ⟨-, heq⟩ := Option.ite_none_right_eq_some.mp hstep
    obtain rfl := Option.some.inj heq
    exact hx
  | run hd =>
    obtain rfl := Option.some.inj hstep
    exact getElem?_handle hx hd
  | postpone hd =>
    obtain rfl := Option.some.inj hstep
    exact getElem?_wait hx
  | edit key =>
    obtain ⟨-, heq⟩ := Option.ite_none_right_eq_some.mp hstep
    obtain rfl := Option.some.inj heq
    unfold Panel.edit
    split
    · exact hx
    · split
      · exact getElem?_wait hx
      · rw [waiting_closeTab]
        exact hx
  | closeItem =>
    obtain rfl := Option.some.inj hstep
    exact getElem?_wait hx
  | drag tabs =>
    obtain ⟨-, heq⟩ := Option.ite_none_right_eq_some.mp hstep
    obtain rfl := Option.some.inj heq
    exact hx
  | settle n newId =>
    have hdone := getElem?_done hends hx
    obtain ⟨w, -, ⟨-, rfl⟩ | ⟨params, title, -, rfl⟩ | ⟨hd, -, rfl⟩⟩ := settle_cases hstep
    · exact hdone
    · exact hdone
    · exact getElem?_handle hdone hd
  | answer n button =>
    obtain ⟨held, key, -, rfl⟩ := answer_cases hstep
    rw [waiting_closeTab]
    exact getElem?_done hends hx

theorem getElem?_exec {place : Nat} {x : Option (Waiting V)} {acts : List (Action V)}
    (hends : ∀ a ∈ acts, ¬ a.Ends place) (hexec : exec step p acts = some p')
    (hx : p.waiting[place]? = some x) : p'.waiting[place]? = some x := by
  induction acts generalizing p with
  | nil =>
    obtain rfl := Option.some.inj hexec
    exact hx
  | cons a acts ih =>
    obtain ⟨q, hq, hrest⟩ := Option.bind_eq_some_iff.mp hexec
    obtain ⟨ha, hacts⟩ := List.forall_mem_cons.mp hends
    exact ih hacts hrest (getElem?_step ha hq hx)

/-! ## What the setters write -/

theorem writeAll_of_not_mem (h : some key ∉ ids heap tabs) (s : Setter V) :
    writeAll s key heap tabs = (heap, tabs) := by
  induction tabs with
  | nil => rfl
  | cons tab tabs ih =>
    have hne : idOf heap tab ≠ some key := fun heq => h (heq ▸ List.mem_cons_self)
    have hrest : some key ∉ ids heap tabs := fun hmem => h (List.mem_cons_of_mem _ hmem)
    rw [writeAll, if_neg hne]
    simp only [ih hrest]

/-- One tab is written: its object, or the copy that takes its place. -/
theorem writeAll_eq (hstored : ∀ t ∈ tabs, t < heap.length) (hdistinct : (ids heap tabs).Nodup)
    (hmem : tab ∈ tabs) (hid : idOf heap tab = some key) (s : Setter V) :
    writeAll s key heap tabs = ((writeAt heap s tab).1,
      tabs.map fun t => if t = tab then (writeAt heap s tab).2 else t) := by
  induction tabs with
  | nil => exact absurd hmem List.not_mem_nil
  | cons first tabs ih =>
    obtain ⟨hlt, hlater⟩ := List.forall_mem_cons.mp hstored
    obtain ⟨hnot, hothers⟩ := List.nodup_cons.mp hdistinct
    rw [writeAll]
    by_cases hfirst : idOf heap first = some key
    · -- No later tab has the key, so the one that is looked for is this one.
      have hother : ∀ t ∈ tabs, t ≠ first := by
        rintro t ht rfl
        exact hnot (List.mem_map_of_mem ht)
      obtain rfl : tab = first := by
        rcases List.mem_cons.mp hmem with heq | htab
        · exact heq
        · exact absurd (hfirst.trans hid.symm ▸ List.mem_map_of_mem htab) hnot
      have hgrows := (writeAt_spec s hlt).1
      have hrest : some key ∉ ids (writeAt heap s tab).1 tabs := by
        rw [hgrows.ids_eq hlater, ← hid]
        exact hnot
      have hsame : tabs.map (fun t => if t = tab then (writeAt heap s tab).2 else t) = tabs := by
        refine (List.map_congr_left fun t ht => ?_).trans (List.map_id tabs)
        exact if_neg (hother t ht)
      rw [if_pos hid]
      simp only [writeAll_of_not_mem hrest, List.map_cons, if_true, hsame]
    · have hne : first ≠ tab := by
        rintro rfl
        exact hfirst hid
      have htab : tab ∈ tabs := (List.mem_cons.mp hmem).resolve_left fun heq => hne heq.symm
      rw [if_neg hfirst]
      simp only [ih hlater hothers htab, List.map_cons, if_neg hne]

theorem idOf_of_getElem? {t : Tab V} (h : heap[tab]? = some t) : idOf heap tab = some t.id := by
  unfold idOf
  rw [h]
  rfl

theorem getTabByID_eq (hdistinct : (ids heap tabs).Nodup) (hmem : tab ∈ tabs)
    (hid : idOf heap tab = some key) : getTabByID heap tabs key = some tab := by
  obtain ⟨found, hfound⟩ := Option.ne_none_iff_exists'.mp fun hnone =>
    getTabByID_eq_none.mp hnone (mem_ids.mpr ⟨tab, hmem, hid⟩)
  obtain ⟨hin, hkey⟩ := idOf_of_getTabByID hfound
  rw [hfound, List.inj_on_of_nodup_map hdistinct hin hmem (hkey.trans hid.symm)]

/-- A setter of the active tab: which object the list shows then, and which objects are as before. -/
theorem set_spec {t : Tab V} (h : Consistent p.heap p.render) (hmem : tab ∈ p.render.tabs)
    (hat : p.heap[tab]? = some t) (hid : t.id = p.render.tabIndex) (s : Setter V) :
    ∃ tab', tab' ∈ (p.handle p.render (.set s)).render.tabs ∧
      (p.handle p.render (.set s)).heap[tab']? = some (s.write t) ∧
      (p.handle p.render (.set s)).render.tabIndex = p.render.tabIndex ∧
      (if s.copies then tab' = p.heap.length else tab' = tab) ∧
      (∀ other < p.heap.length, other ≠ tab ∨ s.copies = true →
        (p.handle p.render (.set s)).heap[other]? = p.heap[other]?) := by
  have hlt := h.stored tab hmem
  have hkey : idOf p.heap tab = some p.render.tabIndex := hid ▸ idOf_of_getElem? hat
  have hrun : p.handle p.render (.set s) = p.assign p.render p.render.tabIndex s := rfl
  rw [hrun, assign_eq h.active, writeAll_eq h.stored h.distinct hmem hkey]
  unfold writeAt
  by_cases hs : s.copies = true
  · have hrenders : s.rerenders = true := by
      cases s <;> first | rfl | cases hs
    simp only [hs, hrenders, if_true, hat, Option.toList_some, List.map_cons, List.map_nil]
    refine ⟨p.heap.length, List.mem_map.mpr ⟨tab, hmem, if_pos rfl⟩, ?_, trivial, rfl, ?_⟩
    · simp
    · intro other hother _
      exact List.getElem?_append_left hother
  · have hsame : p.render.tabs.map (fun t => if t = tab then tab else t) = p.render.tabs := by
      refine (List.map_congr_left fun t _ => ?_).trans (List.map_id _)
      split
      · exact Eq.symm ‹_›
      · rfl
    simp only [hs, Bool.false_eq_true, if_false, hsame, ite_self]
    refine ⟨tab, hmem, ?_, trivial, rfl, ?_⟩
    · rw [List.getElem?_modify_eq, hat]
      rfl
    · rintro other - hother
      exact List.getElem?_modify_ne _ _ (Ne.symm (hother.resolve_right id))

/-- Typing: the list shows all of it; the object that it began with gets what comes before the first copy. -/
theorem typing_spec {t : Tab V} {ss : List (Setter V)} (h : Invariant p) (hmem : tab ∈ p.render.tabs)
    (hat : p.heap[tab]? = some t) (hid : t.id = p.render.tabIndex)
    (hexec : exec step p (typing ss) = some p') :
    (∃ tab', tab' ∈ p'.render.tabs ∧ p'.heap[tab']? = some (ss.foldl (fun t s => s.write t) t)) ∧
      Invariant p' ∧ p'.render.tabIndex = p.render.tabIndex ∧
      p'.heap[tab]? = some ((ss.takeWhile fun s => !s.copies).foldl (fun t s => s.write t) t) ∧
      ∀ other < p.heap.length, other ≠ tab → p'.heap[other]? = p.heap[other]? := by
  induction ss generalizing p tab t with
  | nil =>
    obtain rfl := Option.some.inj hexec
    exact ⟨⟨tab, hmem, hat⟩, h, rfl, hat, fun _ _ _ => rfl⟩
  | cons s ss ih =>
    obtain ⟨q, hq, hrest⟩ := Option.bind_eq_some_iff.mp hexec
    have hinv : Invariant q := (soundWhen_step h hq).invariant trivial
    obtain rfl := Option.some.inj hq
    obtain ⟨tab', hmem', hat', hindex, hwhich, hothers⟩ := set_spec h.shown hmem hat hid s
    have hid' : (s.write t).id = (p.handle p.render (.set s)).render.tabIndex := by
      rw [id_write, hid, hindex]
    obtain ⟨hshown, hlast, hlastIndex, hobject, hrestOthers⟩ := ih hinv hmem' hat' hid' hrest
    have hlt := h.shown.stored tab hmem
    have hlength : p.heap.length ≤ (p.handle p.render (.set s)).heap.length := by
      show _ ≤ (p.assign p.render p.render.tabIndex s).heap.length
      rw [assign_eq h.shown.active]
      exact (writeAll_spec s _ h.shown.stored).1.length_le
    refine ⟨hshown, hlast, hlastIndex.trans hindex, ?_, fun other hother hne => ?_⟩
    · by_cases hs : s.copies = true
      · -- The copy is written from now on.
        rw [if_pos hs] at hwhich
        have hold := hrestOthers tab (Nat.lt_of_lt_of_le hlt hlength) (by omega)
        rw [hold, hothers tab hlt (Or.inr hs), hat]
        simp [hs]
      · rw [if_neg hs] at hwhich
        rw [← hwhich, hobject]
        simp [hs]
    · have hne' : other ≠ tab' := by
        by_cases hs : s.copies = true
        · rw [if_pos hs] at hwhich
          omega
        · rw [if_neg hs] at hwhich
          exact hwhich ▸ hne
      rw [hrestOthers other (Nat.lt_of_lt_of_le hother hlength) hne', hothers other hother (Or.inl hne)]

/-! ## Late ends -/

theorem shown_eq {t : Tab V} (h : Consistent p.heap p.render) (hmem : tab ∈ p.render.tabs)
    (hat : p.heap[tab]? = some t) : p.shown t.id = some t := by
  unfold Panel.shown
  rw [getTabByID_eq h.distinct hmem (idOf_of_getElem? hat)]
  exact hat

theorem id_foldl (ss : List (Setter V)) (t : Tab V) : (ss.foldl (fun t s => s.write t) t).id = t.id := by
  induction ss generalizing t with
  | nil => rfl
  | cons s ss ih => exact (ih _).trans (id_write s t)

/-- **A tab that is asked for**: when its id comes, the list is the one that was shown when it was asked
for, with the new tab; of what was typed meanwhile only what came before the first copy is left. -/
theorem opened_spec {date title newId : String} {params : TabParams} {p₂ p₃ : Panel V}
    (h : Reaches step Fair (start date) p) (hparams : params.key = none) :
    (∀ acts, exec step p (.run (.addTab params title) :: acts) = some p₂ →
      (∀ a ∈ acts, ¬ a.Ends p.waiting.length) → step p₂ (.settle p.waiting.length newId) = some p₃ →
      p₃.render = ⟨p.render.tabs ++ [p₂.heap.length], newId⟩ ∧
        p₃.heap = p₂.heap ++ [newTab params (orElse params.title title) newId]) ∧
    (∀ ss t, p.shown p.render.tabIndex = some t →
      exec step p (.run (.addTab params title) :: typing ss) = some p₂ →
      step p₂ (.settle p.waiting.length newId) = some p₃ →
      p₂.shown p.render.tabIndex = some (ss.foldl (fun t s => s.write t) t) ∧
        p₃.shown p.render.tabIndex =
          some ((ss.takeWhile fun s => !s.copies).foldl (fun t s => s.write t) t)) := by
  have hinv := invariant_of_reaches h
  have hasked : step p (.run (.addTab params title)) =
      some (p.wait p.render (.opened params (orElse params.title title))) := by
    simp [step, Panel.handle, Panel.addTab, hparams, Panel.request]
  have hplace : (p.wait p.render (.opened params (orElse params.title title))).waiting[p.waiting.length]? =
      some (some ⟨p.render, .opened params (orElse params.title title)⟩) := by
    simp [Panel.wait]
  have hopened : ∀ acts, exec step p (.run (.addTab params title) :: acts) = some p₂ →
      (∀ a ∈ acts, ¬ a.Ends p.waiting.length) → step p₂ (.settle p.waiting.length newId) = some p₃ →
      p₃ = (p₂.done p.waiting.length).push p.render
        (newTab params (orElse params.title title) newId) := by
    intro acts hexec hends hsettle
    obtain ⟨q, hq, hrest⟩ := Option.bind_eq_some_iff.mp hexec
    obtain rfl := Option.some.inj (hasked.symm.trans hq)
    have hstill := getElem?_exec hends hrest hplace
    obtain ⟨w, hw, hcases⟩ := settle_cases hsettle
    obtain rfl := Option.some.inj (Option.some.inj (hstill.symm.trans hw))
    rcases hcases with ⟨hwork, -⟩ | ⟨params', title', hwork, rfl⟩ | ⟨hd, hwork, -⟩
    · cases hwork
    · cases hwork
      rfl
    · cases hwork
  refine ⟨fun acts hexec hends hsettle => ?_, fun ss t ht hexec hsettle => ?_⟩
  · rw [hopened acts hexec hends hsettle]
    exact ⟨rfl, rfl⟩
  · have hends : ∀ a ∈ typing ss, ¬ a.Ends p.waiting.length := by
      intro a ha
      obtain ⟨s, -, rfl⟩ := List.mem_map.mp ha
      exact id
    obtain rfl := hopened _ hexec hends hsettle
    obtain ⟨q, hq, hrest⟩ := Option.bind_eq_some_iff.mp hexec
    obtain rfl := Option.some.inj (hasked.symm.trans hq)
    obtain ⟨tab, hget, hat⟩ := Option.bind_eq_some_iff.mp ht
    obtain ⟨hmem, hid⟩ := idOf_of_getTabByID hget
    have hkey : t.id = p.render.tabIndex := Option.some.inj ((idOf_of_getElem? hat).symm.trans hid)
    have hwaits := @Invariant.wait V p p.render hinv hinv.shown
      (.opened params (orElse params.title title)) (by simp)
    obtain ⟨⟨tab', hmem', hat'⟩, hlast, -, hobject, -⟩ := typing_spec hwaits hmem hat hkey hrest
    refine ⟨?_, ?_⟩
    · have := shown_eq hlast.shown hmem' hat'
      rwa [id_foldl, hkey] at this
    · -- What was shown when the tab was asked for, in the objects of now.
      have hheld := hlast.held _ (List.mem_of_getElem? (getElem?_exec hends hrest hplace))
      obtain ⟨heap, hheap⟩ : ∃ heap,
          heap = p₂.heap ++ [newTab params (orElse params.title title) newId] := ⟨_, rfl⟩
      have hgrows : Grows p₂.heap heap := hheap ▸ grows_append _ _
      have hsame : heap[tab]? = p₂.heap[tab]? := by
        rw [hheap, List.getElem?_append_left (hheld.stored tab hmem)]
      have hat₃ := hsame.trans hobject
      have hfound := getTabByID_eq (hgrows.consistent hheld).distinct hmem (idOf_of_getElem? hat₃)
      rw [id_foldl, hkey] at hfound
      show (getTabByID (p₂.heap ++ _) (p.render.tabs ++ [p₂.heap.length]) _).bind ((p₂.heap ++ _)[·]?) = _
      rw [← hheap]
      unfold getTabByID at hfound ⊢
      rw [List.find?_append, hfound]
      exact hat₃

/-- A text that is typed after a query has come, while a new tab is on its way, is gone when it is there. -/
theorem opened_spec_typed : ∃ p₂ p₃ : Panel Unit,
    exec step (start "12:00") (.run (.addTab { type := .editor } "12:01") ::
      typing [.setTabQuery "q", .setTabValue "select 1"]) = some p₂ ∧
    step p₂ (.settle 1 "a1") = some p₃ ∧
    (p₂.shown "0").map Tab.sql = some "select 1" ∧ (p₃.shown "0").map Tab.sql = some "" ∧
    (p₃.shown "0").map Tab.query = some "q" := by
  have hrun : exec step (start "12:00" : Panel Unit) (.run (.addTab { type := .editor } "12:01") ::
      typing [.setTabQuery "q", .setTabValue "select 1"]) = some _ := rfl
  refine ⟨_, _, hrun, rfl, ?_⟩
  obtain ⟨hbefore, hafter⟩ := (opened_spec (Reaches.refl (start "12:00")) rfl).2 _ _ rfl hrun
    (show step _ (.settle 1 "a1") = _ from rfl)
  exact ⟨congrArg (Option.map Tab.sql) hbefore, congrArg (Option.map Tab.sql) hafter,
    congrArg (Option.map Tab.query) hafter⟩

end Tabs

end NextDBM
