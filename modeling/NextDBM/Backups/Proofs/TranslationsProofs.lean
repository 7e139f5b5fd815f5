import NextDBM.Backups.Translations

/-!
# Proofs about export and import of the translations

A round of the import replaces the row of its key when that row has an id; the rounds together replace the
rows of all keys of the document in its one language. So a table comes back exactly when it has no other
language, and no row without an id.
-/

namespace NextDBM

open Relational

namespace TranslationsService

open TranslationsRepository

variable {t t' : TranslationTable} {langCode newId k : String} {uuid : String → String}
  {message : String × String} {order : List (String × String)} {r : Translations}

/-! ## One round -/

/-- The row has the language and the key of a round. -/
def Matches (langCode k : String) (r : Translations) : Prop :=
  r.langCode = langCode ∧ r.translationKey = k

instance : DecidablePred (Matches langCode k) := fun _ => inferInstanceAs (Decidable (_ ∧ _))

theorem findByLangCodeKey_eq_some (h : findByLangCodeKey t langCode k = some r) :
    r ∈ t ∧ Matches langCode k r := by
  obtain ⟨hr, hmatch, -⟩ := Table.first_eq_some.mp h
  rw [Bool.and_eq_true, beq_iff_eq, beq_iff_eq] at hmatch
  exact ⟨hr, hmatch⟩

theorem findByLangCodeKey_eq_none (h : findByLangCodeKey t langCode k = none) :
    ∀ r ∈ t, ¬ Matches langCode k r := by
  intro r hr hmatch
  refine Table.first_eq_none.mp h r hr ?_
  rw [Bool.and_eq_true, beq_iff_eq, beq_iff_eq]
  exact hmatch

/-- A row that is deleted has the key of the round, and an id. -/
theorem mem_deleteExisting (hr : r ∈ t) (h : Matches langCode k r → r.id = "") :
    r ∈ deleteExisting t langCode k := by
  unfold deleteExisting
  cases hfind : findByLangCodeKey t langCode k with
  | none => exact hr
  | some exist =>
    obtain ⟨hexist, hmatch⟩ := findByLangCodeKey_eq_some hfind
    show r ∈ if exist.id ≠ "" then deleteById t exist.id else t
    split
    · next hid =>
      refine Table.mem_deleteWhere.mpr ⟨hr, beq_eq_false_iff_ne.mpr fun heq => ?_⟩
      obtain rfl := Table.eq_of_key hr hexist heq
      exact hid (h hmatch)
    · exact hr

theorem rows_deleteExisting (hone : OnePerKey t) (hid : ∀ r ∈ t, Matches langCode k r → r.id ≠ "") :
    (deleteExisting t langCode k).rows = t.rows.filter fun r => !decide (Matches langCode k r) := by
  unfold deleteExisting
  cases hfind : findByLangCodeKey t langCode k with
  | none =>
    refine (List.filter_eq_self.mpr fun r hr => ?_).symm
    rw [decide_eq_false (findByLangCodeKey_eq_none hfind r hr)]
    rfl
  | some exist =>
    obtain ⟨hexist, hmatch⟩ := findByLangCodeKey_eq_some hfind
    show (if exist.id ≠ "" then deleteById t exist.id else t).rows = _
    rw [if_pos (hid exist hexist hmatch)]
    refine List.filter_congr fun r hr => ?_
    congr 1
    refine Bool.eq_iff_iff.mpr ?_
    rw [beq_iff_eq, decide_eq_true_iff]
    constructor
    · intro heq
      obtain rfl := Table.eq_of_key hr hexist heq
      exact hmatch
    · intro hr'
      have hkey : (r.langCode, r.translationKey) = (exist.langCode, exist.translationKey) := by
        rw [hr'.1, hr'.2, hmatch.1, hmatch.2]
      rw [List.inj_on_of_nodup_map hone hr hexist hkey]

theorem importMessage_eq_ok (h : importMessage langCode newId t message = .ok t') :
    t'.rows = newRow langCode newId message :: (deleteExisting t langCode message.1).rows := by
  unfold importMessage at h
  cases hinsert : (deleteExisting t langCode message.1).insert (newRow langCode newId message) with
  | none => rw [hinsert] at h; cases h
  | some t₁ =>
    rw [hinsert] at h
    cases h
    exact Table.rows_of_insert hinsert

theorem exists_importMessage (hfresh : ∀ r ∈ t, r.id ≠ newId) :
    ∃ t', importMessage langCode newId t message = .ok t' := by
  have hsubset : ∀ r ∈ deleteExisting t langCode message.1, r ∈ t := by
    intro r hr
    unfold deleteExisting at hr
    cases hfind : findByLangCodeKey t langCode message.1 with
    | none => rw [hfind] at hr; exact hr
    | some exist =>
      rw [hfind] at hr
      change r ∈ if exist.id ≠ "" then deleteById t exist.id else t at hr
      split at hr
      · exact (Table.mem_deleteWhere.mp hr).1
      · exact hr
  unfold importMessage
  cases hinsert : (deleteExisting t langCode message.1).insert (newRow langCode newId message) with
  | some t₁ => exact ⟨t₁, rfl⟩
  | none =>
    obtain ⟨r, hr, hid⟩ := Table.insert_eq_none.mp hinsert
    exact absurd hid (hfresh r (hsubset r hr))

/-! ## The rounds -/

theorem onePerKey_of_rows (hone : OnePerKey t)
    (h : t'.rows = newRow langCode newId message ::
      t.rows.filter fun r => !decide (Matches langCode message.1 r)) : OnePerKey t' := by
  unfold OnePerKey
  rw [h, List.map_cons, List.nodup_cons]
  refine ⟨fun hmem => ?_, hone.sublist (List.filter_sublist.map _)⟩
  obtain ⟨r, hr, hkey⟩ := List.mem_map.mp hmem
  obtain ⟨-, hnot⟩ := List.mem_filter.mp hr
  have hmatch : Matches langCode message.1 r := Prod.mk.inj hkey
  rw [decide_eq_true hmatch] at hnot
  cases hnot

/-- The rounds replace the rows of all keys of the map, when these have ids. -/
theorem importMessages_rows (hone : OnePerKey t) (hnodup : (order.map Prod.fst).Nodup)
    (hid : ∀ r ∈ t, r.langCode = langCode → r.translationKey ∈ order.map Prod.fst → r.id ≠ "")
    (hinjective : Function.Injective uuid) (hfresh : ∀ r ∈ t, ∀ m ∈ order, r.id ≠ uuid m.1) :
    ∃ t', importMessages langCode uuid t order = .ok t' ∧
      t'.rows = (order.map fun m => newRow langCode (uuid m.1) m).reverse ++ t.rows.filter fun r =>
        !decide (r.langCode = langCode ∧ r.translationKey ∈ order.map Prod.fst) := by
  induction order generalizing t with
  | nil =>
    refine ⟨t, rfl, (List.filter_eq_self.mpr fun r _ => ?_).symm⟩
    simp
  | cons m order ih =>
    rw [List.map_cons, List.nodup_cons] at hnodup
    obtain ⟨t₁, hround⟩ := @exists_importMessage t langCode (uuid m.1) m
      fun r hr => hfresh r hr m List.mem_cons_self
    have hdeleted := @rows_deleteExisting t langCode m.1 hone fun r hr hmatch =>
      hid r hr hmatch.1 (hmatch.2 ▸ List.mem_cons_self)
    have hrows := importMessage_eq_ok hround
    rw [hdeleted] at hrows
    have hmem : ∀ r ∈ t₁, r = newRow langCode (uuid m.1) m ∨ r ∈ t := by
      intro r hr
      rw [Table.mem_def, hrows] at hr
      exact (List.mem_cons.mp hr).imp_right fun hr => (List.mem_filter.mp hr).1
    have hid₁ : ∀ r ∈ t₁, r.langCode = langCode → r.translationKey ∈ order.map Prod.fst → r.id ≠ "" := by
      intro r hr hlang hkey
      rcases hmem r hr with rfl | hr
      · exact absurd hkey hnodup.1
      · exact hid r hr hlang (List.mem_cons_of_mem _ hkey)
    have hfresh₁ : ∀ r ∈ t₁, ∀ m' ∈ order, r.id ≠ uuid m'.1 := by
      intro r hr m' hm'
      rcases hmem r hr with rfl | hr
      · intro heq
        have hkey : m.1 = m'.1 := hinjective heq
        exact hnodup.1 (hkey ▸ List.mem_map_of_mem hm')
      · exact hfresh r hr m' (List.mem_cons_of_mem m hm')
    obtain ⟨t', hrest, hrows'⟩ := ih (onePerKey_of_rows hone hrows) hnodup.2 hid₁ hfresh₁
    refine ⟨t', ?_, ?_⟩
    · rw [importMessages, List.foldlM_cons, hround]
      exact hrest
    · have hnew : (!decide ((newRow langCode (uuid m.1) m).langCode = langCode ∧
          (newRow langCode (uuid m.1) m).translationKey ∈ order.map Prod.fst)) = true := by
        rw [decide_eq_false fun h => hnodup.1 h.2]
        rfl
      rw [hrows', hrows, List.filter_cons, if_pos hnew, List.filter_filter, List.map_cons,
        List.reverse_cons, List.append_assoc, List.singleton_append]
      congr 2
      refine List.filter_congr fun r _ => ?_
      rw [← Bool.not_or, ← Bool.decide_or]
      congr 1
      rw [decide_eq_decide, List.map_cons, List.mem_cons, Matches]
      tauto

/-- Rows without an id, and those of other keys, stay. -/
theorem mem_of_importMessages (h : importMessages langCode uuid t order = .ok t') (hr : r ∈ t)
    (hkeep : ∀ m ∈ order, Matches langCode m.1 r → r.id = "") : r ∈ t' := by
  induction order generalizing t with
  | nil => cases h; exact hr
  | cons m order ih =>
    rw [importMessages, List.foldlM_cons] at h
    cases hround : importMessage langCode (uuid m.1) t m with
    | error e => rw [hround] at h; cases h
    | ok t₁ =>
      rw [hround] at h
      rw [List.forall_mem_cons] at hkeep
      refine ih h ?_ hkeep.2
      rw [Table.mem_def, importMessage_eq_ok hround]
      exact List.mem_cons_of_mem _ (mem_deleteExisting hr hkeep.1)

/-- The row of every message is there in the end. -/
theorem newRow_mem (h : importMessages langCode uuid t order = .ok t')
    (hnodup : (order.map Prod.fst).Nodup) (hmessage : message ∈ order) :
    newRow langCode (uuid message.1) message ∈ t' := by
  induction order generalizing t with
  | nil => exact absurd hmessage List.not_mem_nil
  | cons m order ih =>
    rw [importMessages, List.foldlM_cons] at h
    rw [List.map_cons, List.nodup_cons] at hnodup
    cases hround : importMessage langCode (uuid m.1) t m with
    | error e => rw [hround] at h; cases h
    | ok t₁ =>
      rw [hround] at h
      rcases List.mem_cons.mp hmessage with rfl | hmessage
      · refine mem_of_importMessages h ?_ fun m' hm' hmatch => ?_
        · rw [Table.mem_def, importMessage_eq_ok hround]
          exact List.mem_cons_self
        · have hkey : message.1 = m'.1 := hmatch.2
          exact absurd (hkey ▸ List.mem_map_of_mem hm') hnodup.1
      · exact ih h hnodup.2 hmessage

/-! ## The document -/

theorem rows_foldl_put (rs : List Translations) (messages : Messages)
    (hnodup : (rs.map Translations.translationKey).Nodup)
    (hnew : ∀ r ∈ rs, ∀ m ∈ messages, m.1 ≠ r.translationKey) :
    (rs.foldl (fun messages r => messages.put (r.translationKey, r.translationValue)) messages).rows =
      (rs.map fun r => (r.translationKey, r.translationValue)).reverse ++ messages.rows := by
  induction rs generalizing messages with
  | nil => rfl
  | cons r rs ih =>
    rw [List.map_cons, List.nodup_cons] at hnodup
    rw [List.forall_mem_cons] at hnew
    have hput : (messages.put (r.translationKey, r.translationValue)).rows =
        (r.translationKey, r.translationValue) :: messages.rows := by
      show _ :: messages.rows.filter _ = _
      congr 1
      refine List.filter_eq_self.mpr fun m hm => ?_
      rw [decide_eq_false (hnew.1 m hm)]
      rfl
    rw [List.foldl_cons, ih _ hnodup.2, hput, List.map_cons, List.reverse_cons, List.append_assoc,
      List.singleton_append]
    intro r' hr' m hm
    rcases Table.mem_put.mp hm with rfl | ⟨hm, -⟩
    · intro heq
      change r.translationKey = r'.translationKey at heq
      exact hnodup.1 (heq ▸ List.mem_map_of_mem hr')
    · exact hnew.2 r' hr' m hm

/-- Without another language, every row has its message. -/
theorem messages_exportTranslations (hone : OnePerKey t) (hlang : ∀ r ∈ t, r.langCode = "en") :
    (exportTranslations t).messages.rows =
      (t.rows.map fun r => (r.translationKey, r.translationValue)).reverse := by
  have hnodup : (t.rows.map Translations.translationKey).Nodup := by
    refine List.Nodup.of_map (fun key => ("en", key)) ?_
    rw [List.map_map]
    have heq : t.rows.map ((fun key => ("en", key)) ∘ Translations.translationKey) =
        t.rows.map fun r => (r.langCode, r.translationKey) :=
      List.map_congr_left fun r hr => Prod.ext (hlang r hr).symm rfl
    rw [heq]
    exact hone
  have hrows := rows_foldl_put t.rows ∅ hnodup fun _ _ m hm => absurd hm List.not_mem_nil
  rwa [Table.rows_empty, List.append_nil] at hrows

/-! ## The claim on round trips -/

section RoundTrip

variable {same : ImportRun (exportTranslations t) t} {empty : ImportRun (exportTranslations t) ∅}

theorem nodup_order (run : ImportRun (exportTranslations t) t') : (run.order.map Prod.fst).Nodup :=
  (run.perm.map Prod.fst).nodup_iff.mpr (exportTranslations t).messages.nodup

/-- The rows that a run adds are those of the document. -/
theorem contents_perm {t₀ : TranslationTable} (run : ImportRun (exportTranslations t) t₀)
    (hone : OnePerKey t) (hlang : ∀ r ∈ t, r.langCode = "en")
    (hrows : t'.rows = (run.order.map fun m => newRow "en" (run.uuid m.1) m).reverse) :
    (contents t').Perm (contents t) := by
  have hnew : contents t' = (run.order.map fun m => ("en", m.1, m.2)).reverse := by
    rw [contents, hrows, List.map_reverse, List.map_map]
    rfl
  have hold : contents t = t.rows.map fun r => ("en", r.translationKey, r.translationValue) :=
    List.map_congr_left fun r hr => Prod.ext (hlang r hr) rfl
  have horder := run.perm
  rw [messages_exportTranslations hone hlang] at horder
  have hperm := (horder.trans (List.reverse_perm _)).map fun m : String × String => ("en", m.1, m.2)
  rw [List.map_map] at hperm
  rw [hnew, hold]
  exact (List.reverse_perm _).trans hperm

/-- The import into an empty table has the rows of the document only. -/
theorem importTranslations_empty (empty : ImportRun (exportTranslations t) ∅) :
    ∃ t', importTranslations (exportTranslations t) ∅ empty = .ok t' ∧
      t'.rows = (empty.order.map fun m => newRow "en" (empty.uuid m.1) m).reverse := by
  obtain ⟨t', himport, hrows⟩ := @importMessages_rows ∅ "en" empty.uuid empty.order List.nodup_nil
    (nodup_order empty) (fun r hr => absurd hr List.not_mem_nil) empty.injective
    (fun r hr => absurd hr List.not_mem_nil)
  rw [Table.rows_empty, List.filter_nil, List.append_nil] at hrows
  exact ⟨t', himport, hrows⟩

/-- What comes back in an empty table is English. -/
theorem langCode_of_empty (h : ∃ t', importTranslations (exportTranslations t) ∅ empty = .ok t' ∧
    (contents t').Perm (contents t)) : ∀ r ∈ t, r.langCode = "en" := by
  obtain ⟨t', himport, hperm⟩ := h
  obtain ⟨t₁, himport₁, hrows⟩ := importTranslations_empty empty
  obtain rfl := Except.ok.inj (himport.symm.trans himport₁)
  intro r hr
  have hcontents : (r.langCode, r.translationKey, r.translationValue) ∈ contents t' :=
    hperm.mem_iff.mpr (List.mem_map_of_mem hr)
  obtain ⟨r', hr', heq⟩ := List.mem_map.mp hcontents
  rw [hrows, List.mem_reverse] at hr'
  obtain ⟨m, -, rfl⟩ := List.mem_map.mp hr'
  exact (Prod.mk.inj heq).1.symm

/-- **Round trip of the translations**: with at most one row for each language and key, an import of the
exported document gives the rows back, in the table and in an empty one, exactly when all of them are
English and have ids. -/
theorem translations_roundTrip_iff (hone : OnePerKey t) :
    RoundTrip t same empty ↔ ∀ r ∈ t, r.langCode = "en" ∧ r.id ≠ "" := by
  constructor
  · intro h
    have hlang := langCode_of_empty h.empty
    refine fun r hr => ⟨hlang r hr, fun hid => ?_⟩
    -- A row without an id stays beside the new row of its key.
    obtain ⟨t', himport, hperm⟩ := h.same
    have hmessage : (r.translationKey, r.translationValue) ∈ same.order := by
      rw [same.perm.mem_iff, messages_exportTranslations hone hlang, List.mem_reverse]
      exact List.mem_map_of_mem hr
    have hstays : r ∈ t' := mem_of_importMessages himport hr fun _ _ _ => hid
    have hnew := newRow_mem himport (nodup_order same) hmessage
    have hone' : OnePerKey t' := by
      have hkeys := hperm.map fun c : String × String × String => (c.1, c.2.1)
      rw [contents, contents, List.map_map, List.map_map] at hkeys
      exact hkeys.nodup_iff.mpr hone
    have heq : newRow "en" (same.uuid r.translationKey) (r.translationKey, r.translationValue) = r :=
      List.inj_on_of_nodup_map hone' hnew hstays (Prod.ext (hlang r hr).symm rfl)
    exact same.fresh r hr r.translationKey (congrArg Translations.id heq).symm
  · intro h
    have hlang : ∀ r ∈ t, r.langCode = "en" := fun r hr => (h r hr).1
    have hmem : ∀ r ∈ t, r.translationKey ∈ same.order.map Prod.fst := by
      intro r hr
      rw [(same.perm.map Prod.fst).mem_iff, messages_exportTranslations hone hlang, List.map_reverse,
        List.mem_reverse, List.map_map]
      exact List.mem_map_of_mem hr
    obtain ⟨t₁, himport₁, hrows₁⟩ := @importMessages_rows t "en" same.uuid same.order hone
      (nodup_order same) (fun r hr _ _ => (h r hr).2) same.injective
      (fun r hr m _ => same.fresh r hr m.1)
    have hnone : (t.rows.filter fun r =>
        !decide (r.langCode = "en" ∧ r.translationKey ∈ same.order.map Prod.fst)) = [] := by
      refine List.filter_eq_nil_iff.mpr fun r hr => ?_
      rw [decide_eq_true ⟨hlang r hr, hmem r hr⟩]
      exact Bool.false_ne_true
    rw [hnone, List.append_nil] at hrows₁
    obtain ⟨t₂, himport₂, hrows₂⟩ := importTranslations_empty empty
    exact ⟨⟨t₁, himport₁, contents_perm same hone hlang hrows₁⟩,
      ⟨t₂, himport₂, contents_perm empty hone hlang hrows₂⟩⟩

end RoundTrip

/-- Ids that begin with a fixed text, one for each key. -/
def keyedId (k : String) : String := "id-" ++ k

theorem keyedId_injective : Function.Injective keyedId := by
  intro k k' h
  have hlist := congrArg String.toList h
  rw [keyedId, keyedId, String.toList_append, String.toList_append] at hlist
  exact String.toList_inj.mp (List.append_cancel_left hlist)

theorem ne_keyedId {c : Char} {cs : List Char} (hc : c ≠ 'i') (k : String) :
    String.ofList (c :: cs) ≠ keyedId k := by
  intro h
  have hlist := congrArg String.toList h
  rw [String.toList_ofList, keyedId, String.toList_append] at hlist
  exact hc (List.cons.inj hlist).1

/-- A run with these ids that goes through the map in the order of its entries. -/
def keyedRun (trans : dto.TranslationResponse) (t : TranslationTable)
    (fresh : ∀ r ∈ t, ∀ k, r.id ≠ keyedId k) : ImportRun trans t where
  order := trans.messages.rows
  perm := .refl _
  uuid := keyedId
  injective := keyedId_injective
  fresh := fresh

def english : TranslationTable :=
  .single { id := "1", langCode := "en", translationKey := "menu.user", translationValue := "Users" }

def chinese : TranslationTable :=
  .single { id := "1", langCode := "zh-CN", translationKey := "menu.user", translationValue := "用户" }

theorem fresh_single {item : Translations} (h : item.id = String.ofList ['1']) :
    ∀ r ∈ (Table.single item : TranslationTable), ∀ k, r.id ≠ keyedId k := by
  intro r hr k
  rw [List.mem_singleton.mp hr, h]
  exact ne_keyedId (by decide) k

theorem translations_roundTrip_english :
    RoundTrip english (keyedRun _ _ (fresh_single rfl)) (keyedRun _ ∅ fun _ hr => nomatch hr) :=
  (translations_roundTrip_iff (show OnePerKey english from List.nodup_singleton _)).mpr (by decide)

/-- The exported document does not say that the value is Chinese. -/
theorem not_translations_roundTrip_chinese :
    ¬ ∀ (t : TranslationTable) (same : ImportRun (exportTranslations t) t)
      (empty : ImportRun (exportTranslations t) ∅), OnePerKey t → RoundTrip t same empty := by
  intro h
  have hroundTrip := h chinese (keyedRun _ _ (fresh_single rfl)) (keyedRun _ ∅ fun _ hr => nomatch hr)
    (List.nodup_singleton _)
  exact absurd (langCode_of_empty hroundTrip.empty) (by decide)

end TranslationsService

end NextDBM
