import NextDBM.Editor.Framing
import NextDBM.Library.JsonReading

/-!
# Which messages the listener handles

A message that the decoder accepts is handled, once and as it was written, when the buffer holds only
white space before it. Nothing ever takes an ill-formed message out of the buffer, so the messages
after it are not told apart from it.
-/

namespace NextDBM.DBSession

open Json

variable {s : Listener} {m : Written} {rs : List Read} {t u w : List Nat}

/-! ## Complete texts -/

theorem isCompleteJSON_iff : isCompleteJSON t = true ↔ ∃ v, parse t = some v ∧ decodes v = true := by
  unfold isCompleteJSON
  cases parse t with
  | none => simp
  | some v => simp

theorem not_isNum_of_decodes {v : Json} (h : decodes v = true) : ¬ v.IsNum := by
  cases v with
  | num literal => cases h
  | _ => exact id

theorem isCompleteJSON_blank_append (hw : Blank w) (t : List Nat) :
    isCompleteJSON (w ++ t) = isCompleteJSON t := by
  unfold isCompleteJSON
  rw [parse_blank_append hw]

theorem isCompleteJSON_blank (hw : Blank w) : isCompleteJSON w = false := by
  unfold isCompleteJSON
  rw [parse_blank hw]

/-- A complete beginning of a text is all of it but white space, when the text has a value. -/
theorem blank_of_complete {v : Json} (ht : isCompleteJSON t = true) (h : parse (t ++ u) = some v)
    (hnum : ¬ v.IsNum) : parse t = some v ∧ Blank u := by
  obtain ⟨v', hv', -⟩ := isCompleteJSON_iff.mp ht
  obtain ⟨rfl, hblank⟩ := parse_prefix hv' h hnum
  exact ⟨hv', hblank⟩

theorem WellFormed.parses (h : WellFormed t) : ∃ ms, parse t = some (.obj ms) := by
  obtain ⟨w, t', w', ms, hw, ht', hw', rfl⟩ := h
  exact ⟨ms, parse_of_value hw ht' hw'⟩

/-! ## White space -/

theorem blank_append (hw : Blank w) (hu : Blank u) : Blank (w ++ u) := by
  intro c hc
  rcases List.mem_append.mp hc with hc | hc
  · exact hw c hc
  · exact hu c hc

theorem blank_left (h : Blank (w ++ u)) : Blank w := fun c hc => h c (List.mem_append_left u hc)

theorem blank_right (h : Blank (w ++ u)) : Blank u := fun c hc => h c (List.mem_append_right w hc)

/-! ## One message -/

theorem readAll_cons (s : Listener) (r : Read) (rs : List Read) :
    s.readAll (r :: rs) =
      (((s.read r).1.readAll rs).1, (s.read r).2 ++ ((s.read r).1.readAll rs).2) := rfl

/-- Nothing is handled after the process has ended. -/
theorem readAll_dead (h : s.alive = false) (rs : List Read) : s.readAll rs = (s, []) := by
  induction rs with
  | nil => rfl
  | cons r rs ih =>
    have hread : s.read r = (s, []) := by simp [Listener.read, h]
    rw [readAll_cons, hread, ih]
    rfl

/-- White space is only collected. -/
theorem readAll_blank (hs : Blank s.accumulatedData) (hrs : Blank (Written.bytes rs)) :
    (s.readAll rs).2 = [] ∧ Blank (s.readAll rs).1.accumulatedData ∧
      (s.readAll rs).1.alive = s.alive := by
  induction rs generalizing s with
  | nil => exact ⟨rfl, hs, rfl⟩
  | cons r rs ih =>
    have hr : Blank r.bytes := blank_left hrs
    have hrest : Blank (Written.bytes rs) := blank_right hrs
    cases halive : s.alive with
    | false =>
      rw [readAll_dead halive]
      exact ⟨rfl, hs, halive⟩
    | true =>
      have hdata : Blank (s.left ++ (s.fresh ++ r.bytes)) := by
        rw [← List.append_assoc]
        exact blank_append hs hr
      have hread : s.read r = ({ s with fresh := s.fresh ++ r.bytes }, []) := by
        simp [Listener.read, halive, isCompleteJSON_blank hdata]
      rw [readAll_cons, hread]
      obtain ⟨hnone, hblank, hkept⟩ := ih (s := { s with fresh := s.fresh ++ r.bytes }) hdata hrest
      exact ⟨hnone, hblank, hkept.trans halive⟩

/-- A text that the decoder accepts is handled at the read that completes it; the rest of its reads is
white space. -/
theorem readAll_complete (halive : s.alive = true) (hleft : Blank s.left)
    (hnot : isCompleteJSON s.fresh = false)
    (hcomplete : isCompleteJSON (s.fresh ++ Written.bytes rs) = true) :
    ∃ h w, (s.readAll rs).2 = [h] ∧ h.left = s.left ∧ Blank w ∧
      s.fresh ++ Written.bytes rs = h.fresh ++ w ∧ Blank (s.readAll rs).1.accumulatedData ∧
      ((∀ r ∈ rs, r.returns = true) → (s.readAll rs).1.alive = true) := by
  induction rs generalizing s with
  | nil =>
    have hsame : s.fresh ++ Written.bytes [] = s.fresh := List.append_nil _
    rw [hsame, hnot] at hcomplete
    cases hcomplete
  | cons r rs ih =>
    have hbytes : s.fresh ++ Written.bytes (r :: rs) = s.fresh ++ r.bytes ++ Written.bytes rs := by
      rw [List.append_assoc]
      rfl
    rw [hbytes] at hcomplete ⊢
    cases hfull : isCompleteJSON (s.fresh ++ r.bytes) with
    | true =>
      have hread : s.read r =
          ({ alive := r.returns }, [{ left := s.left, fresh := s.fresh ++ r.bytes }]) := by
        simp [Listener.read, halive, isCompleteJSON_blank_append hleft, hfull]
      obtain ⟨v, hv, hdec⟩ := isCompleteJSON_iff.mp hcomplete
      obtain ⟨-, hblank⟩ := blank_of_complete hfull hv (not_isNum_of_decodes hdec)
      have hempty : Blank (Listener.accumulatedData { alive := r.returns }) :=
        fun c hc => absurd hc List.not_mem_nil
      obtain ⟨hnone, hrest, hkept⟩ := readAll_blank hempty hblank
      rw [readAll_cons, hread]
      refine ⟨_, _, by rw [hnone]; rfl, rfl, hblank, rfl, hrest, fun hreturns => ?_⟩
      rw [hkept]
      exact hreturns r List.mem_cons_self
    | false =>
      have hread : s.read r = ({ s with fresh := s.fresh ++ r.bytes }, []) := by
        simp [Listener.read, halive, isCompleteJSON_blank_append hleft, hfull]
      rw [readAll_cons, hread]
      obtain ⟨h, w, hone, hl, hw, heq, hblank, hkept⟩ :=
        ih (s := { s with fresh := s.fresh ++ r.bytes }) halive hleft hfull hcomplete
      refine ⟨h, w, hone, hl, hw, heq, hblank, fun hreturns => ?_⟩
      exact hkept fun r' hr' => hreturns r' (List.mem_cons_of_mem r hr')

/-- What is handled first was complete, with what earlier writes left in front of it. -/
theorem complete_of_handled {h : Handled} {hs : List Handled} (hrs : (s.readAll rs).2 = h :: hs) :
    s.alive = true ∧ h.left = s.left ∧ isCompleteJSON (h.left ++ h.fresh) = true := by
  induction rs generalizing s with
  | nil => cases hrs
  | cons r rs ih =>
    cases halive : s.alive with
    | false =>
      rw [readAll_dead halive] at hrs
      cases hrs
    | true =>
      refine ⟨rfl, ?_⟩
      cases hfull : isCompleteJSON (s.left ++ (s.fresh ++ r.bytes)) with
      | true =>
        have hread : s.read r =
            ({ alive := r.returns }, [{ left := s.left, fresh := s.fresh ++ r.bytes }]) := by
          simp [Listener.read, halive, hfull]
        rw [readAll_cons, hread] at hrs
        obtain ⟨rfl, -⟩ := List.cons.inj hrs
        exact ⟨rfl, hfull⟩
      | false =>
        have hread : s.read r = ({ s with fresh := s.fresh ++ r.bytes }, []) := by
          simp [Listener.read, halive, hfull]
        rw [readAll_cons, hread] at hrs
        exact (ih (s := { s with fresh := s.fresh ++ r.bytes }) hrs).2

/-- **Step lemma**: a well-formed message is handled once, as it was written, exactly when the
listener is ready for it. -/
theorem handledOnce_iff_ready (hwf : WellFormed m.bytes) :
    HandledOnce m (s.deliver m).2 ↔ Ready s m := by
  obtain ⟨ms, hparse⟩ := hwf.parses
  constructor
  · rintro ⟨h, w, hone, hleft, hw, hbytes⟩
    obtain ⟨halive, heq, hfull⟩ := complete_of_handled hone
    have hdata : h.left = s.accumulatedData := heq
    refine ⟨halive, hdata ▸ hleft, ?_⟩
    rw [isCompleteJSON_blank_append hleft] at hfull
    rw [hbytes] at hparse
    obtain ⟨hsame, -⟩ := blank_of_complete hfull hparse id
    obtain ⟨v, hv, hdec⟩ := isCompleteJSON_iff.mp hfull
    rw [hv, Option.some.injEq] at hsame
    rw [hbytes]
    exact isCompleteJSON_iff.mpr ⟨v, hsame ▸ hparse, hdec⟩
  · rintro ⟨halive, hblank, hdec⟩
    obtain ⟨h, w, hone, hleft, hw, heq, -, -⟩ :=
      readAll_complete (s := { s with left := s.accumulatedData, fresh := [] }) halive hblank rfl hdec
    exact ⟨h, w, hone, hleft ▸ hblank, hw, heq⟩

/-- A clean message is taken out of the buffer. -/
theorem Clean.deliver (hm : Clean m) (halive : s.alive = true) (hblank : Blank s.accumulatedData) :
    (s.deliver m).1.alive = true ∧ Blank (s.deliver m).1.accumulatedData := by
  rcases hm.content with hcontent | hcontent
  · have hdata : Blank (Listener.accumulatedData { s with left := s.accumulatedData, fresh := [] }) :=
      blank_append hblank fun c hc => absurd hc List.not_mem_nil
    obtain ⟨-, hrest, hkept⟩ := readAll_blank hdata hcontent
    exact ⟨hkept.trans halive, hrest⟩
  · obtain ⟨h, w, -, -, -, -, hrest, hkept⟩ :=
      readAll_complete (s := { s with left := s.accumulatedData, fresh := [] }) halive hblank rfl
        hcontent
    exact ⟨hkept hm.returns, hrest⟩

/-! ## Runs -/

/-- After clean messages the listener is alive and its buffer holds only white space, which is all that
the end of the pipe hands over. -/
theorem clean_after {ms : List Written} (hms : ∀ m ∈ ms, Clean m) (halive : s.alive = true)
    (hblank : Blank s.accumulatedData) :
    (s.after ms).alive = true ∧ Blank (s.after ms).accumulatedData ∧
      ∀ h ∈ (s.after ms).close, Blank (h.left ++ h.fresh) := by
  induction ms generalizing s with
  | nil =>
    refine ⟨halive, hblank, fun h hh => ?_⟩
    unfold Listener.after Listener.close at hh
    split_ifs at hh
    · rw [List.mem_singleton.mp hh]
      exact hblank
    · exact absurd hh List.not_mem_nil
  | cons m ms ih =>
    obtain ⟨halive', hblank'⟩ := (hms m List.mem_cons_self).deliver halive hblank
    exact ih (fun m' hm' => hms m' (List.mem_cons_of_mem m hm')) halive' hblank'

/-- A message that is within the decoder's limits is handled when all messages before it are clean. -/
theorem ready_of_clean {pre : List Written} (hpre : ∀ m ∈ pre, Clean m)
    (hm : isCompleteJSON m.bytes = true) : Ready (Listener.after {} pre) m := by
  have hstart : Blank (Listener.accumulatedData {}) := fun c hc => absurd hc List.not_mem_nil
  obtain ⟨halive, hblank, -⟩ := clean_after hpre rfl hstart
  exact ⟨halive, hblank, hm⟩

/-- Every well-formed message of a sequence is handled once and in its turn exactly when the listener
is ready for each of them. -/
theorem framed_iff (ms : List Written) :
    Framed ms ↔ ∀ pre m post, ms = pre ++ m :: post → WellFormed m.bytes →
      Ready (Listener.after {} pre) m := by
  constructor
  · intro h pre m post heq hwf
    exact (handledOnce_iff_ready hwf).mp (h pre m post heq hwf)
  · intro h pre m post heq hwf
    exact (handledOnce_iff_ready hwf).mpr (h pre m post heq hwf)

/-- A message that arrives in one read. -/
def writtenAtOnce (bytes : List Nat) (h : bytes.length ≤ 1024) : Written := [{ bytes, small := h }]

/-- After the message `x`, the message `{}` is not handled: the buffer is `x{}`. -/
theorem not_framed_garbage : ¬ ∀ ms : List Written, Framed ms := by
  intro h
  have hwf : WellFormed [123, 125] :=
    ⟨[], [123, 125], [], [], by decide, .empty (w := []) (by decide), by decide, rfl⟩
  obtain ⟨hd, w, hone, -⟩ := h
    [writtenAtOnce [120] (by decide), writtenAtOnce [123, 125] (by decide)]
    [writtenAtOnce [120] (by decide)] (writtenAtOnce [123, 125] (by decide)) [] rfl hwf
  cases hone

end NextDBM.DBSession
