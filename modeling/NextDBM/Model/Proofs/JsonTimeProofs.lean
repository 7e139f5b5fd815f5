import NextDBM.Model.JsonTime

/-!
# Proofs about times in JSON

A text that is read back stands for the time of day in the zone of the writer taken as UTC, so the instant
is moved by the offset of the zone; it is the same one exactly where the offset is zero.
-/

namespace NextDBM

open Calendar TimeText

namespace JsonTime

variable {j : JsonTime}

theorem unmarshalJSON_marshalJSON_eq : unmarshalJSON j.marshalJSON = (parse (format j.shown) >>= fun r =>
    .ok { time := { unix := r.1.toSeconds - unixToInternal, nsec := r.2, loc := .utc } }) := by
  have hquote : ∀ c ∈ format j.shown, (c != '"') = true := by
    intro c hc
    rw [bne_iff_ne]
    rintro rfl
    exact quote_not_mem_format hc
  have hfilter : j.marshalJSON.filter (· != '"') = format j.shown := by
    rw [marshalJSON, List.cons_append, List.filter_cons_of_neg (by decide), List.filter_append,
      List.filter_eq_self.mpr hquote, List.filter_cons_of_neg (by decide), List.filter_nil,
      List.append_nil]
  rw [unmarshalJSON, hfilter]

theorem shown_toSeconds :
    j.shown.toSeconds - unixToInternal = j.time.unix + j.time.loc.offset j.time.unix := by
  rw [shown, toSeconds_ofSeconds]
  omega

/-- What is read back is the instant that is ahead by the offset of the zone. -/
theorem unmarshalJSON_marshalJSON (h0 : 0 ≤ j.shown.date.year) (h : j.shown.date.year ≤ 9999) :
    unmarshalJSON j.marshalJSON = .ok { time := {
      unix := j.time.unix + j.time.loc.offset j.time.unix, nsec := noNanoseconds, loc := .utc } } := by
  rw [unmarshalJSON_marshalJSON_eq, parse_format h0 h]
  show Except.ok _ = _
  rw [shown_toSeconds]

/-- **Times in JSON**: a time is read back as the same second exactly when its zone has no offset from UTC
then and its year has at most four digits. -/
theorem readsBack_iff : j.ReadsBack ↔
    j.time.loc.offset j.time.unix = 0 ∧ 0 ≤ j.utcYear ∧ j.utcYear ≤ 9999 := by
  have hyear (h : j.time.loc.offset j.time.unix = 0) : j.shown.date.year = j.utcYear := by
    rw [shown, utcYear, h, Int.add_zero]
  constructor
  · rintro ⟨j', hread, hunix, -⟩
    by_cases hrange : 0 ≤ j.shown.date.year ∧ j.shown.date.year ≤ 9999
    · rw [unmarshalJSON_marshalJSON hrange.1 hrange.2] at hread
      rw [← Except.ok.inj hread] at hunix
      have hoffset : j.time.loc.offset j.time.unix = 0 := by
        change j.time.unix + j.time.loc.offset j.time.unix = j.time.unix at hunix
        omega
      exact ⟨hoffset, hyear hoffset ▸ hrange.1, hyear hoffset ▸ hrange.2⟩
    · rw [unmarshalJSON_marshalJSON_eq, parse_format_of_not hrange] at hread
      cases hread
  · rintro ⟨hoffset, h0, h⟩
    rw [← hyear hoffset] at h0 h
    refine ⟨_, unmarshalJSON_marshalJSON h0 h, ?_, rfl⟩
    show j.time.unix + j.time.loc.offset j.time.unix = j.time.unix
    rw [hoffset, Int.add_zero]

/-- The beginning of Unix time on a server eight hours ahead of UTC. -/
def unixStart : JsonTime where
  time := { unix := 0, nsec := noNanoseconds, loc := { offset := fun _ => 28800 } }

/-- It is read back as eight hours later. -/
theorem not_readsBack_unixStart : ¬ ∀ j : JsonTime, j.ReadsBack := by
  intro h
  obtain ⟨j', hread, hunix, -⟩ := h unixStart
  rw [unmarshalJSON_marshalJSON (by decide) (by decide +kernel)] at hread
  rw [← Except.ok.inj hread] at hunix
  exact absurd hunix (by decide)

end JsonTime

end NextDBM
