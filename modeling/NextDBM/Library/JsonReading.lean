import NextDBM.Library.Json

/-!
# What the reader of JSON texts reads

A run splits at any unit. White space before and after a text is of no account, and the reader accepts
what the grammar derives (`parse_of_value`). Once a whole array or object has been read only white
space may follow, so no text of an object is a proper beginning of another one (`parse_prefix`).
-/

namespace Json

/-! ## Reading in parts -/

section Reading
variable {s s' : State} {t u w : List Nat} {v v' : Json} {st : List Frame} {c : Nat}

theorem run_append (s : State) (t u : List Nat) :
    run s (t ++ u) = (run s t).bind fun s' => run s' u := by
  induction t generalizing s with
  | nil => rfl
  | cons c t ih =>
    simp only [List.cons_append, run, Option.bind_assoc]
    exact congrArg _ (funext ih)

theorem run_append_of (h : run s t = some s') : run s (t ++ u) = run s' u := by
  rw [run_append, h, Option.bind_some]

theorem run_cons_of (h : step s c = some s') : run s (c :: t) = run s' t := by
  rw [run, h, Option.bind_some]

/-- A state that white space leaves as it is. -/
theorem run_blank (h : ∀ c, isSpace c = true → step s c = some s) (hw : Blank w) :
    run s w = some s := by
  induction w with
  | nil => rfl
  | cons c w ih =>
    rw [run_cons_of (h c (hw c List.mem_cons_self))]
    exact ih fun d hd => hw d (List.mem_cons_of_mem c hd)

theorem step_after_space (hc : isSpace c = true) : step (.after v, st) c = some (.after v, st) := by
  simp [step, endValue, hc]

theorem step_value_space (hc : isSpace c = true) : step (.value, st) c = some (.value, st) := by
  simp [step, hc]

/-- After a whole text only white space can follow. -/
theorem run_after_nil (h : run (.after v, []) t = some s) : Blank t ∧ s = (.after v, []) := by
  induction t with
  | nil =>
    rw [run, Option.some.injEq] at h
    exact ⟨fun _ hc => absurd hc List.not_mem_nil, h.symm⟩
  | cons c t ih =>
    by_cases hc : isSpace c = true
    · rw [run_cons_of (step_after_space hc)] at h
      obtain ⟨hblank, hs⟩ := ih h
      exact ⟨List.forall_mem_cons.mpr ⟨hc, hblank⟩, hs⟩
    · have hnone : step (.after v, []) c = none := by simp [step, endValue, hc]
      rw [run, hnone] at h
      cases h

/-- White space before a text changes nothing. -/
theorem parse_blank_append (hw : Blank w) (t : List Nat) : parse (w ++ t) = parse t := by
  have hrun : run initial (w ++ t) = run initial t :=
    run_append_of (run_blank (fun c hc => step_value_space hc) hw)
  rw [parse, hrun, parse]

theorem parse_blank (hw : Blank w) : parse w = none := by
  have h := parse_blank_append hw []
  rw [List.append_nil] at h
  exact h

/-- A value is a number. -/
def IsNum : Json → Prop
  | num _ => True
  | _ => False

/-- A number at the top of a text stays one. -/
theorem run_number_nil {ph : Phase} {literal : List Nat} (h : run (.number ph literal, []) t = some s)
    (hfinish : finish s = some v) : v.IsNum := by
  induction t generalizing ph literal with
  | nil =>
    rw [run, Option.some.injEq] at h
    subst h
    dsimp only [finish] at hfinish
    split_ifs at hfinish
    rw [← Option.some.inj hfinish]
    trivial
  | cons c t ih =>
    rw [run] at h
    cases hnext : ph.next c with
    | some ph' =>
      have hstep : step (.number ph literal, []) c = some (.number ph' (c :: literal), []) := by
        simp [step, hnext]
      rw [hstep, Option.bind_some] at h
      exact ih h
    | none =>
      by_cases hacc : ph.accepting = true ∧ isSpace c = true
      · have hstep : step (.number ph literal, []) c = some (.after (.num literal.reverse), []) := by
          simp [step, hnext, hacc.1, endValue, hacc.2]
        rw [hstep, Option.bind_some] at h
        obtain ⟨-, rfl⟩ := run_after_nil h
        rw [← Option.some.inj hfinish]
        trivial
      · have hstep : step (.number ph literal, []) c = none := by
          rw [not_and] at hacc
          by_cases haccept : ph.accepting = true
          · simp [step, hnext, haccept, endValue, hacc haccept]
          · simp [step, hnext, haccept]
        rw [hstep] at h
        cases h

/-- A text that is a beginning of another one, whose value is not a number, is the other one up to
white space. -/
theorem parse_prefix (hp : parse t = some v) (h : parse (t ++ u) = some v') (hnum : ¬ v'.IsNum) :
    v = v' ∧ Blank u := by
  obtain ⟨s, hs, hfinish⟩ := Option.bind_eq_some_iff.mp hp
  rw [parse, run_append_of hs] at h
  obtain ⟨s', hs', hfinish'⟩ := Option.bind_eq_some_iff.mp h
  obtain ⟨mode, stack⟩ := s
  cases stack with
  | cons frame stack => cases mode <;> cases hfinish
  | nil =>
    cases mode with
    | after v₁ =>
      obtain ⟨hblank, rfl⟩ := run_after_nil hs'
      exact ⟨(Option.some.inj hfinish).symm.trans (Option.some.inj hfinish'), hblank⟩
    | number ph literal => exact absurd (run_number_nil hs' hfinish') hnum
    | _ => cases hfinish

end Reading

/-! ## The reader accepts what the grammar derives -/

section Completeness
variable {s : State} {t w : List Nat} {v : Json} {st : List Frame} {c : Nat}

/-- A value has been read: nothing more of it is expected. -/
def Ended (v : Json) (st : List Frame) (s : State) : Prop :=
  s = (.after v, st) ∨ ∃ ph literal, ph.accepting = true ∧ v = .num literal.reverse ∧
    s = (.number ph literal, st)

/-- White space, or what separates and closes values. -/
def Delimiter (c : Nat) : Prop := isSpace c = true ∨ c = 44 ∨ c = 93 ∨ c = 125

theorem Delimiter.lt_or (h : Delimiter c) : c < 33 ∨ c = 44 ∨ c = 93 ∨ c = 125 := by
  rcases h with h | h
  · simp only [isSpace, Bool.or_eq_true, decide_eq_true_eq] at h
    omega
  · exact .inr h

/-- A delimiter does not continue a number. -/
theorem next_delimiter (ph : Phase) (h : Delimiter c) : ph.next c = none := by
  have hc := h.lt_or
  have hdigit : isDigit c = false := by
    simp only [isDigit, Bool.and_eq_false_iff, decide_eq_false_iff_not]
    omega
  have h48 : c ≠ 48 := by omega
  have h46 : c ≠ 46 := by omega
  have hexp : ¬ (c = 101 ∨ c = 69) := by omega
  have hsign : ¬ (c = 43 ∨ c = 45) := by omega
  cases ph <;> simp [Phase.next, hdigit, h48, h46, hexp, hsign]

theorem Ended.step (h : Ended v st s) (hc : Delimiter c) : Json.step s c = endValue v c st := by
  rcases h with rfl | ⟨ph, literal, hacc, rfl, rfl⟩
  · rfl
  · simp [Json.step, next_delimiter ph hc, hacc]

/-- White space after a value. -/
theorem Ended.blank (h : Ended v st s) (hw : Blank w) : ∃ s', run s w = some s' ∧ Ended v st s' := by
  cases w with
  | nil => exact ⟨s, rfl, h⟩
  | cons c w =>
    have hc : isSpace c = true := hw c List.mem_cons_self
    have hstep : Json.step s c = some (.after v, st) := (h.step (.inl hc)).trans (if_pos hc)
    refine ⟨(.after v, st), ?_, .inl rfl⟩
    rw [run_cons_of hstep]
    exact run_blank (fun c hc => step_after_space hc) fun d hd => hw d (List.mem_cons_of_mem c hd)

theorem Ended.finish (h : Ended v [] s) : finish s = some v := by
  rcases h with rfl | ⟨ph, literal, hacc, rfl, rfl⟩
  · rfl
  · exact if_pos hacc

/-- The units of a string. -/
theorem run_chars {units : List Nat} (h : Chars t units) (acc : List Nat) :
    run (.string acc, st) t = some (.string (units.reverse ++ acc), st) := by
  induction h generalizing acc with
  | nil => rfl
  | @plain c t units hc hquote hback h ih =>
    have hstep : step (.string acc, st) c = some (.string (c :: acc), st) := by
      simp [step, hquote, hback, hc]
    rw [run_cons_of hstep, ih, List.reverse_cons, List.append_assoc]
    rfl
  | @escape c u t units hc h ih =>
    have hne : c ≠ 117 := by
      rintro rfl
      cases hc
    have hstep : step (.escape acc, st) c = some (.string (u :: acc), st) := by
      simp [step, hne, hc]
    have hback : step (.string acc, st) 92 = some (.escape acc, st) := rfl
    rw [run_cons_of hback, run_cons_of hstep, ih, List.reverse_cons, List.append_assoc]
    rfl
  | @unicode c₁ c₂ c₃ c₄ u₁ u₂ u₃ u₄ t units h₁ h₂ h₃ h₄ h ih =>
    have hhex : ∀ (left a c u : Nat), hexDigit c = some u →
        step (.hex (left + 1) a acc, st) c = some (.hex left (a * 16 + u) acc, st) := by
      intro left a c u hu
      simp [step, hu]
    have hlast : ∀ (a c u : Nat), hexDigit c = some u →
        step (.hex 0 a acc, st) c = some (.string ((a * 16 + u) :: acc), st) := by
      intro a c u hu
      simp [step, hu]
    have hback : step (.string acc, st) 92 = some (.escape acc, st) := rfl
    have hu : step (.escape acc, st) 117 = some (.hex 3 0 acc, st) := rfl
    rw [run_cons_of hback, run_cons_of hu, run_cons_of (hhex 2 _ _ _ h₁),
      run_cons_of (hhex 1 _ _ _ h₂), run_cons_of (hhex 0 _ _ _ h₃), run_cons_of (hlast _ _ _ h₄),
      ih, List.reverse_cons, List.append_assoc, Nat.zero_mul, Nat.zero_add]
    rfl

/-- The phases of a number, unit by unit. -/
def Phase.run (ph : Phase) : List Nat → Option Phase
  | [] => some ph
  | c :: t => (ph.next c).bind fun ph' => ph'.run t

theorem Phase.run_append_of {ph ph' : Phase} {u : List Nat} (h : ph.run t = some ph') :
    ph.run (t ++ u) = ph'.run u := by
  induction t generalizing ph with
  | nil =>
    rw [Phase.run, Option.some.injEq] at h
    rw [h]
    rfl
  | cons c t ih =>
    obtain ⟨ph₁, h₁, h₂⟩ := Option.bind_eq_some_iff.mp h
    rw [List.cons_append, Phase.run, h₁, Option.bind_some]
    exact ih h₂

/-- The reader of a number follows its phases. -/
theorem run_number {ph ph' : Phase} (h : ph.run t = some ph') (literal : List Nat) :
    run (.number ph literal, st) t = some (.number ph' (t.reverse ++ literal), st) := by
  induction t generalizing ph literal with
  | nil =>
    rw [Phase.run, Option.some.injEq] at h
    rw [h]
    rfl
  | cons c t ih =>
    obtain ⟨ph₁, h₁, h₂⟩ := Option.bind_eq_some_iff.mp h
    have hstep : step (.number ph literal, st) c = some (.number ph₁ (c :: literal), st) := by
      simp [step, h₁]
    rw [run_cons_of hstep, ih h₂, List.reverse_cons, List.append_assoc]
    rfl

/-- Digits in a phase that digits continue. -/
theorem Phase.run_digits {ph : Phase} (hloop : ∀ c, isDigit c = true → ph.next c = some ph)
    (h : ∀ d ∈ t, isDigit d = true) : ph.run t = some ph := by
  induction t with
  | nil => rfl
  | cons d t ih =>
    rw [Phase.run, hloop d (h d List.mem_cons_self), Option.bind_some]
    exact ih fun d' hd' => h d' (List.mem_cons_of_mem d hd')

/-- The digits before the point, from the sign on. -/
theorem run_intPart (h : IntPart t) :
    ∃ ph, Phase.minus.run t = some ph ∧ (ph = .zero ∨ ph = .int) := by
  rcases h with rfl | ⟨⟨hne, hdigits⟩, hhead⟩
  · exact ⟨.zero, rfl, .inl rfl⟩
  · cases t with
    | nil => exact absurd rfl hne
    | cons d t =>
      have hd : isDigit d = true := hdigits d List.mem_cons_self
      have h48 : d ≠ 48 := fun heq => hhead (by rw [heq, List.head?_cons])
      refine ⟨.int, ?_, .inr rfl⟩
      have hnext : Phase.minus.next d = some .int := by simp [Phase.next, h48, hd]
      rw [Phase.run, hnext, Option.bind_some]
      refine Phase.run_digits (fun c hc => ?_) fun d' hd' => hdigits d' (List.mem_cons_of_mem d hd')
      simp [Phase.next, hc]

/-- The point and its digits. -/
theorem run_fracPart (h : FracPart t) {ph : Phase} (hph : ph = .zero ∨ ph = .int) :
    ∃ ph', ph.run t = some ph' ∧ (ph' = ph ∨ ph' = .frac) := by
  rcases h with rfl | ⟨ds, ⟨hne, hdigits⟩, rfl⟩
  · exact ⟨ph, rfl, .inl rfl⟩
  · cases ds with
    | nil => exact absurd rfl hne
    | cons d ds =>
      have hd : isDigit d = true := hdigits d List.mem_cons_self
      have hpoint : ph.next 46 = some .point := by rcases hph with rfl | rfl <;> rfl
      have hfrac : Phase.point.next d = some .frac := by simp [Phase.next, hd]
      refine ⟨.frac, ?_, .inr rfl⟩
      rw [Phase.run, hpoint, Option.bind_some, Phase.run, hfrac, Option.bind_some]
      refine Phase.run_digits (fun c hc => ?_) fun d' hd' => hdigits d' (List.mem_cons_of_mem d hd')
      simp [Phase.next, hc]

/-- The exponent. -/
theorem run_expPart (h : ExpPart t) {ph : Phase} (hph : ph = .zero ∨ ph = .int ∨ ph = .frac) :
    ∃ ph', ph.run t = some ph' ∧ ph'.accepting = true := by
  rcases h with rfl | ⟨e, sign, ds, he, hsign, ⟨hne, hdigits⟩, rfl⟩
  · refine ⟨ph, rfl, ?_⟩
    rcases hph with rfl | rfl | rfl <;> rfl
  · cases ds with
    | nil => exact absurd rfl hne
    | cons d ds =>
      have hd : isDigit d = true := hdigits d List.mem_cons_self
      have hexp : ph.next e = some .exp := by
        rcases he with rfl | rfl <;> rcases hph with rfl | rfl | rfl <;> rfl
      have hloop : Phase.expDigits.run ds = some .expDigits := by
        refine Phase.run_digits (fun c hc => ?_) fun d' hd' => hdigits d' (List.mem_cons_of_mem d hd')
        simp [Phase.next, hc]
      have hne43 : d ≠ 43 := by
        rintro rfl
        cases hd
      have hne45 : d ≠ 45 := by
        rintro rfl
        cases hd
      refine ⟨.expDigits, ?_, rfl⟩
      rcases hsign with rfl | rfl | rfl
      · have hfirst : Phase.exp.next d = some .expDigits := by simp [Phase.next, hd, hne43, hne45]
        rw [List.cons_append, Phase.run, hexp, Option.bind_some, List.nil_append, Phase.run, hfirst,
          Option.bind_some, hloop]
      · have hsigned : Phase.exp.next 43 = some .expSign := rfl
        have hfirst : Phase.expSign.next d = some .expDigits := by simp [Phase.next, hd]
        rw [List.cons_append, Phase.run, hexp, Option.bind_some, List.singleton_append, Phase.run,
          hsigned, Option.bind_some, Phase.run, hfirst, Option.bind_some, hloop]
      · have hsigned : Phase.exp.next 45 = some .expSign := rfl
        have hfirst : Phase.expSign.next d = some .expDigits := by simp [Phase.next, hd]
        rw [List.cons_append, Phase.run, hexp, Option.bind_some, List.singleton_append, Phase.run,
          hsigned, Option.bind_some, Phase.run, hfirst, Option.bind_some, hloop]

/-- The unsigned part of a number. -/
theorem run_unsigned {int frac exp : List Nat} (hint : IntPart int) (hfrac : FracPart frac)
    (hexp : ExpPart exp) :
    ∃ ph, Phase.minus.run (int ++ frac ++ exp) = some ph ∧ ph.accepting = true := by
  obtain ⟨ph₁, h₁, hph₁⟩ := run_intPart hint
  obtain ⟨ph₂, h₂, hph₂⟩ := run_fracPart hfrac hph₁
  have hph : ph₂ = .zero ∨ ph₂ = .int ∨ ph₂ = .frac := by
    rcases hph₂ with rfl | rfl
    · rcases hph₁ with rfl | rfl
      · exact .inl rfl
      · exact .inr (.inl rfl)
    · exact .inr (.inr rfl)
  obtain ⟨ph₃, h₃, hacc⟩ := run_expPart hexp hph
  refine ⟨ph₃, ?_, hacc⟩
  rw [List.append_assoc, Phase.run_append_of h₁, Phase.run_append_of h₂, h₃]

/-- A number starts with a digit or a sign. -/
theorem startValue_digit (hc : isDigit c = true) (st : List Frame) :
    ∃ ph, Phase.minus.next c = some ph ∧ startValue c st = some (.number ph [c], st) := by
  have hrange : 48 ≤ c ∧ c ≤ 57 := by simpa [isDigit] using hc
  have h34 : c ≠ 34 := by omega
  have h123 : c ≠ 123 := by omega
  have h91 : c ≠ 91 := by omega
  have h45 : c ≠ 45 := by omega
  by_cases h48 : c = 48
  · exact ⟨.zero, by simp [Phase.next, h48], by simp [startValue, h48]⟩
  · exact ⟨.int, by simp [Phase.next, h48, hc], by simp [startValue, h34, h123, h91, h45, h48, hc]⟩

theorem not_space_of_digit (hc : isDigit c = true) : isSpace c = false := by
  have hrange : 48 ≤ c ∧ c ≤ 57 := by simpa [isDigit] using hc
  simp only [isSpace, Bool.or_eq_false_iff, decide_eq_false_iff_not]
  omega

theorem intPart_head (h : IntPart t) : ∃ d u, t = d :: u ∧ isDigit d = true := by
  rcases h with rfl | ⟨⟨hne, hdigits⟩, -⟩
  · exact ⟨48, [], rfl, rfl⟩
  · cases t with
    | nil => exact absurd rfl hne
    | cons d u => exact ⟨d, u, rfl, hdigits d List.mem_cons_self⟩

/-- A number is read up to a phase in which it may end. -/
theorem run_num (h : Number t) : ∃ s, run (.value, st) t = some s ∧ Ended (.num t) st s := by
  obtain ⟨sign, int, frac, exp, hsign, hint, hfrac, hexp, rfl⟩ := h
  obtain ⟨ph, hrun, hacc⟩ := run_unsigned hint hfrac hexp
  rcases hsign with rfl | rfl
  · obtain ⟨d, u, rfl, hd⟩ := intPart_head hint
    obtain ⟨ph₁, hnext, hstart⟩ := startValue_digit hd st
    have hstep : step (.value, st) d = some (.number ph₁ [d], st) := by
      simp [step, not_space_of_digit hd, hstart]
    have hrest : ph₁.run (u ++ frac ++ exp) = some ph := by
      rw [List.cons_append, List.cons_append, Phase.run, hnext, Option.bind_some] at hrun
      exact hrun
    refine ⟨_, ?_, .inr ⟨ph, (u ++ frac ++ exp).reverse ++ [d], hacc, ?_, rfl⟩⟩
    · rw [List.nil_append, List.cons_append, List.cons_append, run_cons_of hstep, run_number hrest]
    · simp
  · have hstep : step (.value, st) 45 = some (.number .minus [45], st) := rfl
    refine ⟨_, ?_, .inr ⟨ph, (int ++ frac ++ exp).reverse ++ [45], hacc, ?_, rfl⟩⟩
    · rw [List.append_assoc, List.append_assoc, List.singleton_append, run_cons_of hstep,
        ← List.append_assoc, run_number hrun]
    · simp

/-- The stack below a value: not an object that expects a key. -/
def Expects (st : List Frame) : Prop := ∀ ms st', st ≠ .obj ms :: st'

theorem expects_nil : Expects [] := by
  intro ms st' h
  cases h

theorem expects_arr (vs : List Json) : Expects (.arr vs :: st) := by
  intro ms st' h
  cases h

theorem expects_mem (ms : List (List Nat × Json)) (key : List Nat) : Expects (.mem ms key :: st) := by
  intro ms' st' h
  cases h

theorem endString_of_expects (h : Expects st) (units : List Nat) :
    endString units st = (.after (.str units.reverse), st) := by
  cases st with
  | nil => rfl
  | cons frame st =>
    cases frame with
    | obj ms => exact absurd rfl (h ms st)
    | _ => rfl

/-- A text of a value can be read below any stack that expects one. -/
def Readable (t : List Nat) (v : Json) : Prop :=
  ∀ st, Expects st → ∃ s, run (.value, st) t = some s ∧ Ended v st s

/-- An element, and the delimiter after it. -/
theorem run_element {e : Element} (hblank : Blank e.before ∧ Blank e.after)
    (h : Readable e.text e.value) (hst : Expects st) (hc : Delimiter c) (u : List Nat) :
    run (.value, st) (e.units ++ c :: u) = (endValue e.value c st).bind fun s => run s u := by
  obtain ⟨s, hrun, hended⟩ := h st hst
  obtain ⟨s', hrun', hended'⟩ := hended.blank hblank.2
  have hbefore : run (.value, st) e.before = some (.value, st) :=
    run_blank (fun c hc => step_value_space hc) hblank.1
  rw [Element.units, List.append_assoc, List.append_assoc, run_append_of hbefore,
    run_append_of hrun, run_append_of hrun', run, hended'.step hc]

/-- The elements of an array up to its bracket. -/
theorem run_elements {es : List Element} (hne : es ≠ [])
    (hblank : ∀ e ∈ es, Blank e.before ∧ Blank e.after)
    (h : ∀ e ∈ es, Readable e.text e.value) (acc : List Json) :
    run (.value, .arr acc :: st) (commas (es.map Element.units) ++ [93]) =
      some (.after (.arr (acc.reverse ++ es.map Element.value)), st) := by
  induction es generalizing acc with
  | nil => exact absurd rfl hne
  | cons e es ih =>
    have he := h e List.mem_cons_self
    have hb := hblank e List.mem_cons_self
    cases es with
    | nil =>
      rw [List.map_singleton, commas, run_element hb he (expects_arr acc) (.inr (.inr (.inl rfl)))]
      simp [endValue, isSpace, run]
    | cons e' es =>
      have hrest := ih (List.cons_ne_nil e' es) (fun d hd => hblank d (List.mem_cons_of_mem e hd))
        (fun d hd => h d (List.mem_cons_of_mem e hd)) (e.value :: acc)
      rw [List.map_cons, List.map_cons, commas, List.append_assoc, List.cons_append,
        run_element hb he (expects_arr acc) (.inr (.inl rfl))]
      have hcomma : endValue e.value 44 (.arr acc :: st) = some (.value, .arr (e.value :: acc) :: st) :=
        rfl
      rw [hcomma, Option.bind_some, ← List.map_cons, hrest]
      simp

/-- The key of a member, up to its value. -/
theorem run_key {m : Member} (hblank : Blank m.before ∧ Blank m.after) (hkey : Chars m.key m.units)
    (acc : List (List Nat × Json)) (u : List Nat) :
    run (.key, .obj acc :: st) (m.before ++ 34 :: m.key ++ 34 :: m.after ++ 58 :: u) =
      run (.value, .mem acc m.units :: st) u := by
  have hbefore : run (.key, .obj acc :: st) m.before = some (.key, .obj acc :: st) :=
    run_blank (fun c hc => by simp [step, hc]) hblank.1
  have hopen : step (.key, .obj acc :: st) 34 = some (.string [], .obj acc :: st) := rfl
  have hclose : step (.string (m.units.reverse ++ []), .obj acc :: st) 34 =
      some (.colon, .mem acc m.units :: st) := by simp [step, endString]
  have hafter : run (.colon, .mem acc m.units :: st) m.after = some (.colon, .mem acc m.units :: st) :=
    run_blank (fun c hc => by simp [step, hc]) hblank.2
  have hcolon : step (.colon, .mem acc m.units :: st) 58 = some (.value, .mem acc m.units :: st) := rfl
  rw [List.append_assoc, List.append_assoc, run_append_of hbefore, List.cons_append,
    run_cons_of hopen, run_append_of (run_chars hkey []), List.cons_append, run_cons_of hclose,
    run_append_of hafter, run_cons_of hcolon]

/-- The members of an object up to its brace. -/
theorem run_members {ms : List Member} (hne : ms ≠ [])
    (hblank : ∀ m ∈ ms, Blank m.before ∧ Blank m.after ∧ Blank m.element.before ∧
      Blank m.element.after)
    (hkey : ∀ m ∈ ms, Chars m.key m.units)
    (h : ∀ m ∈ ms, Readable m.element.text m.element.value) (acc : List (List Nat × Json)) :
    run (.key, .obj acc :: st) (commas (ms.map Member.whole) ++ [125]) =
      some (.after (.obj (acc.reverse ++ ms.map fun m => (m.units, m.element.value))), st) := by
  induction ms generalizing acc with
  | nil => exact absurd rfl hne
  | cons m ms ih =>
    have hm := h m List.mem_cons_self
    have hk := hkey m List.mem_cons_self
    obtain ⟨hb₁, hb₂, hb₃, hb₄⟩ := hblank m List.mem_cons_self
    cases ms with
    | nil =>
      rw [List.map_singleton, commas, Member.whole, List.append_assoc, List.cons_append,
        run_key ⟨hb₁, hb₂⟩ hk,
        run_element ⟨hb₃, hb₄⟩ hm (expects_mem acc m.units) (.inr (.inr (.inr rfl)))]
      simp [endValue, isSpace, run]
    | cons m' ms =>
      have hrest := ih (List.cons_ne_nil m' ms) (fun d hd => hblank d (List.mem_cons_of_mem m hd))
        (fun d hd => hkey d (List.mem_cons_of_mem m hd))
        (fun d hd => h d (List.mem_cons_of_mem m hd)) ((m.units, m.element.value) :: acc)
      rw [List.map_cons, List.map_cons, commas, Member.whole, List.append_assoc, List.append_assoc,
        List.cons_append, List.cons_append, run_key ⟨hb₁, hb₂⟩ hk,
        run_element ⟨hb₃, hb₄⟩ hm (expects_mem acc m.units) (.inr (.inl rfl))]
      have hcomma : endValue m.element.value 44 (.mem acc m.units :: st) =
          some (.key, .obj ((m.units, m.element.value) :: acc) :: st) := rfl
      rw [hcomma, Option.bind_some, ← List.map_cons, hrest]
      simp

/-- A value does not start with white space or a closing bracket. -/
theorem value_head (h : Value t v) : ∃ c u, t = c :: u ∧ isSpace c = false ∧ c ≠ 93 := by
  cases h with
  | num h =>
    obtain ⟨sign, int, frac, exp, hsign, hint, -, -, rfl⟩ := h
    rcases hsign with rfl | rfl
    · obtain ⟨d, u, rfl, hd⟩ := intPart_head hint
      refine ⟨d, u ++ frac ++ exp, by simp, not_space_of_digit hd, ?_⟩
      rintro rfl
      cases hd
    · exact ⟨45, int ++ frac ++ exp, by simp, rfl, by decide⟩
  | _ => exact ⟨_, _, rfl, rfl, by decide⟩

/-- The first element of an array is read as any other. -/
theorem run_first {e : Element} (hblank : Blank e.before) (h : Value e.text e.value) (u : List Nat) :
    run (.first, .arr [] :: st) (e.units ++ u) = run (.value, .arr [] :: st) (e.units ++ u) := by
  obtain ⟨c, t, ht, hspace, hclose⟩ := value_head h
  have hfirst : run (.first, .arr [] :: st) e.before = some (.first, .arr [] :: st) :=
    run_blank (fun c hc => by simp [step, hc]) hblank
  have hvalue : run (.value, .arr [] :: st) e.before = some (.value, .arr [] :: st) :=
    run_blank (fun c hc => step_value_space hc) hblank
  rw [Element.units, List.append_assoc, List.append_assoc, run_append_of hfirst,
    run_append_of hvalue, ht, List.cons_append, run, run]
  simp [step, hspace, hclose]

/-- The first key of an object is read as any other. -/
theorem run_firstKey (hw : Blank w) (u : List Nat) :
    run (.firstKey, .obj [] :: st) (w ++ 34 :: u) = run (.key, .obj [] :: st) (w ++ 34 :: u) := by
  have hfirst : run (.firstKey, .obj [] :: st) w = some (.firstKey, .obj [] :: st) :=
    run_blank (fun c hc => by simp [step, hc]) hw
  have hkey : run (.key, .obj [] :: st) w = some (.key, .obj [] :: st) :=
    run_blank (fun c hc => by simp [step, hc]) hw
  rw [run_append_of hfirst, run_append_of hkey]
  rfl

/-- **The reader reads every text of a value**, below any stack that expects one. -/
theorem readable_of_value (h : Value t v) : Readable t v := by
  induction h with
  | null => exact fun st _ => ⟨_, rfl, .inl rfl⟩
  | true => exact fun st _ => ⟨_, rfl, .inl rfl⟩
  | false => exact fun st _ => ⟨_, rfl, .inl rfl⟩
  | num h => exact fun st _ => run_num h
  | @str t units h =>
    intro st hst
    have hopen : step (.value, st) 34 = some (.string [], st) := rfl
    have hclose : step (.string (units.reverse ++ []), st) 34 = some (.after (.str units), st) := by
      simp [step, endString_of_expects hst]
    refine ⟨_, ?_, .inl rfl⟩
    rw [List.cons_append, run_cons_of hopen, run_append_of (run_chars h []), run_cons_of hclose]
    rfl
  | @nil w hw =>
    intro st hst
    have hopen : step (.value, st) 91 = some (.first, .arr [] :: st) := rfl
    have hblank : run (.first, .arr [] :: st) w = some (.first, .arr [] :: st) :=
      run_blank (fun c hc => by simp [step, hc]) hw
    refine ⟨_, ?_, .inl rfl⟩
    rw [List.cons_append, run_cons_of hopen, run_append_of hblank]
    rfl
  | @arr es hne hblank h ih =>
    intro st hst
    have hopen : step (.value, st) 91 = some (.first, .arr [] :: st) := rfl
    refine ⟨_, ?_, .inl rfl⟩
    rw [List.cons_append, run_cons_of hopen]
    cases es with
    | nil => exact absurd rfl hne
    | cons e es =>
      obtain ⟨u, hu⟩ : ∃ u, commas ((e :: es).map Element.units) ++ [93] = e.units ++ u := by
        cases es with
        | nil => exact ⟨[93], rfl⟩
        | cons e' es => exact ⟨_, List.append_assoc ..⟩
      rw [hu, run_first (hblank e List.mem_cons_self).1 (h e List.mem_cons_self), ← hu,
        run_elements hne hblank ih]
      rfl
  | @empty w hw =>
    intro st hst
    have hopen : step (.value, st) 123 = some (.firstKey, .obj [] :: st) := rfl
    have hblank : run (.firstKey, .obj [] :: st) w = some (.firstKey, .obj [] :: st) :=
      run_blank (fun c hc => by simp [step, hc]) hw
    refine ⟨_, ?_, .inl rfl⟩
    rw [List.cons_append, run_cons_of hopen, run_append_of hblank]
    rfl
  | @obj ms hne hblank hkey h ih =>
    intro st hst
    have hopen : step (.value, st) 123 = some (.firstKey, .obj [] :: st) := rfl
    refine ⟨_, ?_, .inl rfl⟩
    rw [List.cons_append, run_cons_of hopen]
    cases ms with
    | nil => exact absurd rfl hne
    | cons m ms =>
      obtain ⟨u, hu⟩ : ∃ u, commas ((m :: ms).map Member.whole) ++ [125] = m.before ++ 34 :: u := by
        cases ms <;>
          simp only [List.map_cons, List.map_nil, commas, Member.whole, List.append_assoc,
            List.cons_append] <;>
          exact ⟨_, rfl⟩
      rw [hu, run_firstKey (hblank m List.mem_cons_self).1, ← hu, run_members hne hblank hkey ih]
      rfl

/-- A text of a value, with white space around it, has that value. -/
theorem parse_of_value {w w' : List Nat} (hw : Blank w) (h : Value t v) (hw' : Blank w') :
    parse (w ++ t ++ w') = some v := by
  obtain ⟨s, hrun, hended⟩ := readable_of_value h [] expects_nil
  obtain ⟨s', hrun', hended'⟩ := hended.blank hw'
  have hrun₂ : run initial (t ++ w') = some s' := (run_append_of hrun).trans hrun'
  rw [List.append_assoc, parse_blank_append hw, parse, hrun₂, Option.bind_some]
  exact hended'.finish

end Completeness

end Json
