import Mathlib.Data.List.Induction
import NextDBM.Library.MySqlText

/-!
# Texts without the right escapes

A text that needs an escape and stands between delimiters without it is never read as itself: from the
first such byte on, what is read lags behind the text, and it does not catch up before the delimiter
(`delimited_lags` for names, `lags` for string literals).
-/

namespace MySqlText

/-! ## Reading that lags -/

/-- The text is not what is read. -/
def Avoids (x : Option (Bytes × Bytes)) (w : Bytes) : Prop := ∀ ⦃d r⦄, x = some (d, r) → d ≠ w

variable {x : Option (Bytes × Bytes)} {a w d r t g u : Bytes} {c q n : Nat} {reserved : Bytes → Bool}

theorem avoids_push (h : ∀ w', w = a ++ w' → Avoids x w') : Avoids (push a x) w := by
  intro d r hd heq
  obtain ⟨d', hd', rfl⟩ := push_eq_some hd
  exact h d' heq.symm hd' rfl

/-- What is read first is the first byte that is missed. -/
theorem avoids_push_lag {A : Nat → Prop} (hg : g ≠ []) (hA : ∀ a ∈ g, A a)
    (h : A c → ∀ g', (∀ a ∈ g', A a) → Avoids x (g' ++ w)) : Avoids (push [c] x) (g ++ w) := by
  obtain ⟨b, g, rfl⟩ := List.exists_cons_of_ne_nil hg
  obtain ⟨hb, hA⟩ := List.forall_mem_cons.mp hA
  refine avoids_push fun w' heq => ?_
  obtain ⟨rfl, rfl⟩ := List.cons.inj heq
  exact h hb g hA

theorem avoids_nil (hw : w ≠ []) : Avoids (some ([], r)) w := by
  intro d r' hd heq
  obtain ⟨rfl, -⟩ := Prod.mk.inj (Option.some.inj hd)
  exact hw heq.symm

theorem avoids_push_of_not_mem (hc : c ∉ w) : Avoids (push [c] x) w := by
  refine avoids_push fun w' heq => absurd ?_ hc
  rw [heq]
  exact List.mem_cons_self

section Delimited

variable {escapes : Nat → Bool}

theorem delimited_close (h : t.head? ≠ some q) : delimited q escapes (q :: t) = some ([], t) := by
  cases t with
  | nil =>
    unfold delimited
    exact if_pos rfl
  | cons c t =>
    have hc : c ≠ q := fun heq => h (congrArg some heq)
    unfold delimited
    rw [if_pos rfl]
    exact if_neg hc

theorem delimited_double (t : Bytes) :
    delimited q escapes (q :: q :: t) = push [q] (delimited q escapes t) := by
  rw [delimited.eq_def]
  dsimp only
  rw [if_pos rfl, if_pos rfl]

theorem delimited_plain (hc : c ≠ q) (he : escapes c = false) (t : Bytes) :
    delimited q escapes (c :: t) = push [c] (delimited q escapes t) := by
  rw [delimited.eq_def]
  dsimp only
  rw [if_neg hc, he, if_neg Bool.false_ne_true]

theorem delimited_escape (hq : backslash ≠ q) (c : Nat) (t : Bytes) :
    delimited q isEscape (backslash :: c :: t) = push (unescape c) (delimited q isEscape t) := by
  have hback : isEscape backslash = true := rfl
  rw [delimited.eq_def]
  dsimp only
  rw [if_neg hq, if_pos hback]

end Delimited

/-- **A name that lags.** What is read of a text misses the bytes of `g` before it; these are bytes that
do not end the text. -/
theorem delimited_lags {A : Nat → Prop} {z : Bytes} (hq : A q)
    (hz : ∀ w, w ≠ [] → (∀ c ∈ w, A c) → Avoids (delimited q noEscape z) w)
    (hqz : ∀ w, w ≠ [] → (∀ c ∈ w, A c) → Avoids (delimited q noEscape (q :: z)) w)
    (hg : g ≠ []) (hA : ∀ c ∈ g, A c) : Avoids (delimited q noEscape (w ++ z)) (g ++ w) := by
  induction w using List.twoStepInduction generalizing g with
  | nil =>
    rw [List.append_nil]
    exact hz g hg hA
  | singleton c =>
    by_cases hc : c = q
    · subst hc
      exact hqz _ (by simp) (List.forall_mem_append.mpr ⟨hA, List.forall_mem_singleton.mpr hq⟩)
    · rw [List.singleton_append, delimited_plain hc rfl]
      refine avoids_push_lag hg hA fun hc g' hg' => hz _ (by simp) ?_
      exact List.forall_mem_append.mpr ⟨hg', List.forall_mem_singleton.mpr hc⟩
  | cons_cons c c' w ih ih' =>
    by_cases hc : c = q
    · subst hc
      by_cases hc' : c' = c
      · subst hc'
        rw [List.cons_append, List.cons_append, delimited_double]
        refine avoids_push_lag hg hA fun _ g' hg' => ?_
        have hsplit : g' ++ c' :: c' :: w = (g' ++ [c', c']) ++ w := by simp
        have hmore : ∀ a ∈ [c', c'], A a := by simpa using hq
        rw [hsplit]
        exact ih (by simp) (List.forall_mem_append.mpr ⟨hg', hmore⟩)
      · have hhead : (c' :: (w ++ z)).head? ≠ some c := fun heq => hc' (Option.some.inj heq)
        rw [List.cons_append, List.cons_append, delimited_close hhead]
        exact avoids_nil (by simp)
    · rw [List.cons_append, delimited_plain hc rfl]
      refine avoids_push_lag hg hA fun hc g' hg' => ?_
      have hsplit : g' ++ c :: c' :: w = (g' ++ [c]) ++ c' :: w := by simp
      rw [hsplit]
      exact ih' c' (by simp) (List.forall_mem_append.mpr ⟨hg', List.forall_mem_singleton.mpr hc⟩)

theorem delimited_avoids {A : Nat → Prop} {z : Bytes} (hq : A q)
    (hz : ∀ w, w ≠ [] → (∀ c ∈ w, A c) → Avoids (delimited q noEscape z) w)
    (hqz : ∀ w, w ≠ [] → (∀ c ∈ w, A c) → Avoids (delimited q noEscape (q :: z)) w)
    (hw : q ∈ w) : Avoids (delimited q noEscape (w ++ z)) w := by
  have hone : ∀ a ∈ [q], A a := List.forall_mem_singleton.mpr hq
  induction w with
  | nil => exact absurd hw List.not_mem_nil
  | cons c w ih =>
    by_cases hc : c = q
    · subst hc
      cases w with
      | nil => exact hqz [c] (List.cons_ne_nil c []) hone
      | cons c' w =>
        by_cases hc' : c' = c
        · subst hc'
          rw [List.cons_append, List.cons_append, delimited_double]
          refine avoids_push fun w' heq => ?_
          obtain ⟨-, rfl⟩ := List.cons.inj heq
          exact delimited_lags hq hz hqz (List.cons_ne_nil c' []) hone
        · have hhead : (c' :: (w ++ z)).head? ≠ some c := fun heq => hc' (Option.some.inj heq)
          rw [List.cons_append, List.cons_append, delimited_close hhead]
          exact avoids_nil (List.cons_ne_nil c (c' :: w))
    · rw [List.cons_append, delimited_plain hc rfl]
      refine avoids_push fun w' heq => ?_
      obtain ⟨-, rfl⟩ := List.cons.inj heq
      exact ih ((List.mem_cons.mp hw).resolve_left (Ne.symm hc))

/-! ## Names -/

/-- A name between backticks. -/
def ticked (w : Bytes) : Bytes := backtick :: (w ++ [backtick])

theorem ticked_append (w t : Bytes) : ticked w ++ t = backtick :: (w ++ backtick :: t) := by
  simp [ticked]

theorem name_backtick (t : Bytes) :
    name reserved (backtick :: t) = delimited backtick noEscape t := rfl

theorem name_ticked (hw : backtick ∉ w) (hc : c ≠ backtick) (t : Bytes) :
    name reserved (ticked w ++ c :: t) = some (w, c :: t) := by
  have hhead : (c :: t).head? ≠ some backtick := fun heq => hc (Option.some.inj heq)
  rw [ticked_append, name_backtick]
  induction w with
  | nil => exact delimited_close hhead
  | cons b w ih =>
    obtain ⟨hb, hw⟩ := not_or.mp (mt List.mem_cons.mpr hw)
    rw [List.cons_append, delimited_plain (Ne.symm hb) rfl, ih hw]
    rfl

theorem name_ticked_avoids (hw : backtick ∈ w) (hc : c ≠ backtick) (t : Bytes) :
    Avoids (name reserved (ticked w ++ c :: t)) w := by
  have hhead : (c :: t).head? ≠ some backtick := fun heq => hc (Option.some.inj heq)
  rw [ticked_append, name_backtick]
  refine delimited_avoids (A := (· = backtick)) rfl ?_ ?_ hw
  · intro w' hw' _
    rw [delimited_close hhead]
    exact avoids_nil hw'
  · intro w' _ hA
    rw [delimited_double, delimited_plain hc rfl]
    refine avoids_push fun w'' heq => avoids_push_of_not_mem fun hmem => hc (hA c ?_)
    rw [heq]
    exact List.mem_append_right _ hmem

theorem isSpace_of_skipSpace (h : skipSpace t = c :: r) : isSpace c = false := by
  have hnot := List.head?_dropWhile_not isSpace t
  unfold skipSpace at h
  rw [h] at hnot
  simpa using hnot

/-- A name without delimiters is read only if it is a word. -/
theorem name_bare_avoids (hw : ¬ IsWord reserved w) (t : Bytes) :
    Avoids (name reserved (w ++ 32 :: 61 :: t)) w := by
  have hsplit : w.takeWhile isSpace ++ skipSpace w = w := List.takeWhile_append_dropWhile
  have hspaces : ∀ c ∈ w.takeWhile isSpace, isSpace c = true := fun c hc => List.mem_takeWhile_imp hc
  have hskip (z : Bytes) : skipSpace (w ++ z) = skipSpace (skipSpace w ++ z) := by
    rw [← hsplit, List.append_assoc, skipSpace, List.dropWhile_append_of_pos hspaces, hsplit]
    rfl
  have hname : name reserved (w ++ 32 :: 61 :: t) = name reserved (skipSpace w ++ 32 :: 61 :: t) := by
    unfold name
    rw [hskip]
  rw [hname]
  cases hrest : skipSpace w with
  | nil =>
    intro d r hd
    cases hd
  | cons c w' =>
    have hc := isSpace_of_skipSpace hrest
    by_cases hback : c = backtick
    · subst hback
      rw [List.cons_append, name_backtick]
      rw [hrest] at hsplit
      have hlag : w = (w.takeWhile isSpace ++ [backtick]) ++ w' := by
        rw [List.append_assoc, List.singleton_append, hsplit]
      rw [hlag]
      refine delimited_lags (A := fun c => isSpace c = true ∨ c = backtick) (.inr rfl) ?_ ?_ (by simp) ?_
      · intro v _ hA
        rw [delimited_plain (by decide) rfl, delimited_plain (by decide) rfl]
        refine avoids_push fun v' heq => avoids_push_of_not_mem fun hmem => ?_
        have hequals := hA 61 (heq ▸ List.mem_append_right _ hmem)
        revert hequals
        decide
      · intro v hv _
        have hhead : (32 :: 61 :: t).head? ≠ some backtick := fun heq => by cases heq
        rw [delimited_close hhead]
        exact avoids_nil hv
      · refine List.forall_mem_append.mpr ⟨fun c hc => .inl (hspaces c hc), ?_⟩
        exact List.forall_mem_singleton.mpr (.inr rfl)
    · intro d r hd heq
      rw [List.cons_append, name, skipSpace_cons hc] at hd
      dsimp only at hd
      rw [if_neg hback] at hd
      split at hd
      next hword =>
        have hread : (word (c :: (w' ++ 32 :: 61 :: t))).1 = d :=
          congrArg Prod.fst (Option.some.inj hd)
        rw [hread, heq] at hword
        exact hw hword
      · cases hd

/-! ## String literals -/

/-- A text with its quotes escaped, and nothing else. -/
def escapeQuotes (s : Bytes) : Bytes := s.flatMap fun c => if c = quote then [backslash, quote] else [c]

def quotedText (s : Bytes) : Bytes := quote :: (escapeQuotes s ++ [quote])

/-- Every backslash stands before `%` or `_`, where it stays. -/
def isTame : Bytes → Bool
  | [] => true
  | c :: t =>
    if c = backslash then
      match t with
      | [] => false
      | c' :: t' => (c' = 37 || c' = 95) && isTame t'
    else isTame t

/-- What follows a literal: nothing, or another literal next to it. -/
def between (n : Nat) (t : Bytes) : Option (Bytes × Bytes) :=
  if (skipSpace t).head?.any isStringQuote then literals n t else some ([], t)

/-- Literals next to each other, after the first delimiter. -/
def opened (q n : Nat) (t : Bytes) : Option (Bytes × Bytes) :=
  (delimited q isEscape t).bind fun y => push y.1 (between n y.2)

theorem push_push (a d : Bytes) (x : Option (Bytes × Bytes)) : push a (push d x) = push (a ++ d) x := by
  cases x with
  | none => rfl
  | some y => simp [push]

theorem push_nil (x : Option (Bytes × Bytes)) : push [] x = x := by
  cases x with
  | none => rfl
  | some y => rfl

theorem bind_push (a : Bytes) (x : Option (Bytes × Bytes)) (f : Bytes → Option (Bytes × Bytes)) :
    ((push a x).bind fun y => push y.1 (f y.2)) = push a (x.bind fun y => push y.1 (f y.2)) := by
  cases x with
  | none => rfl
  | some y =>
    have hleft : ((push a (some y)).bind fun y => push y.1 (f y.2)) = push (a ++ y.1) (f y.2) := rfl
    rw [hleft, Option.bind_some, push_push]

theorem opened_plain (hc : c ≠ q) (hb : c ≠ backslash) (u : Bytes) :
    opened q n (c :: u) = push [c] (opened q n u) := by
  have hescape : isEscape c = false := decide_eq_false hb
  rw [opened, delimited_plain hc hescape, bind_push]
  rfl

theorem opened_escape (hq : backslash ≠ q) (c : Nat) (u : Bytes) :
    opened q n (backslash :: c :: u) = push (unescape c) (opened q n u) := by
  rw [opened, delimited_escape hq, bind_push]
  rfl

theorem opened_double (u : Bytes) : opened q n (q :: q :: u) = push [q] (opened q n u) := by
  rw [opened, delimited_double, bind_push]
  rfl

theorem opened_close (h : u.head? ≠ some q) : opened q n (q :: u) = between n u := by
  rw [opened, delimited_close h, Option.bind_some, push_nil]

theorem avoids_between_space (hc : isSpace c = true) (hw : w ≠ []) (h : Avoids (between n u) w) :
    Avoids (between n (c :: u)) w := by
  have hskip : skipSpace (c :: u) = skipSpace u := List.dropWhile_cons_of_pos hc
  unfold between at h ⊢
  rw [hskip]
  by_cases hquote : (skipSpace u).head?.any isStringQuote = true
  · have hsame : literals n (c :: u) = literals n u := by
      cases n with
      | zero => rfl
      | succ n =>
        unfold literals
        rw [hskip]
    rw [if_pos hquote] at h ⊢
    rw [hsame]
    exact h
  · rw [if_neg hquote]
    exact avoids_nil hw

theorem isSpace_of_isStringQuote (hc : isStringQuote c = true) : isSpace c = false := by
  rcases isStringQuote_iff.mp hc with rfl | rfl <;> rfl

theorem literals_quote (hc : isStringQuote c = true) (n : Nat) (u : Bytes) :
    literals (n + 1) (c :: u) = opened c n u := by
  unfold literals opened
  rw [skipSpace_cons (isSpace_of_isStringQuote hc)]
  dsimp only
  rw [if_pos hc]
  refine Option.bind_congr fun y _ => ?_
  unfold between
  split
  · rfl
  · simp [push]

theorem between_quote (hc : isStringQuote c = true) (u : Bytes) :
    between n (c :: u) = none ∨ ∃ m, between n (c :: u) = opened c m u := by
  unfold between
  rw [skipSpace_cons (isSpace_of_isStringQuote hc), List.head?_cons, Option.any_some, if_pos hc]
  cases n with
  | zero => exact .inl rfl
  | succ n => exact .inr ⟨n, literals_quote hc n u⟩

theorem between_other (hspace : isSpace c = false) (hquote : isStringQuote c = false) (u : Bytes) :
    between n (c :: u) = some ([], c :: u) := by
  unfold between
  rw [skipSpace_cons hspace, List.head?_cons, Option.any_some, hquote]
  exact if_neg Bool.false_ne_true

/-- Bytes that reading may miss: quotes, backslashes, spaces, and the letters of escaped spaces. -/
def isLaggard (c : Nat) : Bool :=
  isStringQuote c || c = backslash || isSpace c || c = 110 || c = 114 || c = 116

/-- What ends a literal: after spaces, a byte that reading does not miss. -/
def EndsText (t : Bytes) : Prop := ∃ c t', skipSpace t = c :: t' ∧ isLaggard c = false

theorem not_isStringQuote (hc : isLaggard c = false) : isStringQuote c = false := by
  unfold isLaggard at hc
  simp only [Bool.or_eq_false_iff] at hc
  exact hc.1.1.1.1.1

theorem EndsText.quotes (ht : EndsText t) : (skipSpace t).head?.any isStringQuote = false := by
  obtain ⟨c, t', hskip, hc⟩ := ht
  rw [hskip, List.head?_cons, Option.any_some]
  exact not_isStringQuote hc

theorem EndsText.between (ht : EndsText t) : between n t = some ([], t) := by
  unfold MySqlText.between
  rw [ht.quotes]
  exact if_neg Bool.false_ne_true

theorem EndsText.head (ht : EndsText t) (hq : isStringQuote q = true) : t.head? ≠ some q := by
  cases t with
  | nil => exact fun heq => by cases heq
  | cons c t =>
    rintro heq
    obtain rfl := Option.some.inj heq
    have hquotes := ht.quotes
    rw [skipSpace_cons (isSpace_of_isStringQuote hq), List.head?_cons, Option.any_some, hq] at hquotes
    cases hquotes

/-- What is read beyond a literal shows a byte that is not missed. -/
theorem EndsText.shows (ht : EndsText t) (hq : isStringQuote q = true)
    (h : delimited q isEscape t = some (d, r)) : ∃ c ∈ d, isLaggard c = false := by
  obtain ⟨c, t', hskip, hc⟩ := ht
  have hplain {b : Nat} (hb : isStringQuote b = false) : b ≠ q := by
    rintro rfl
    rw [hq] at hb
    cases hb
  induction t generalizing d with
  | nil => cases hskip
  | cons b t ih =>
    by_cases hspace : isSpace b = true
    · have hskip' : skipSpace (b :: t) = skipSpace t := List.dropWhile_cons_of_pos hspace
      have hescape : isEscape b = false := by
        refine decide_eq_false ?_
        rintro rfl
        cases hspace
      have hquote : isStringQuote b = false := by
        unfold isSpace at hspace
        unfold isStringQuote quote doubleQuote
        simp only [Bool.or_eq_true, Bool.and_eq_true, decide_eq_true_eq] at hspace
        simp only [Bool.or_eq_false_iff, decide_eq_false_iff_not]
        omega
      rw [delimited_plain (hplain hquote) hescape] at h
      obtain ⟨d', hd', rfl⟩ := push_eq_some h
      obtain ⟨e, he, hnot⟩ := ih hd' (hskip'.symm.trans hskip)
      exact ⟨e, List.mem_append_right _ he, hnot⟩
    · rw [skipSpace_cons (Bool.eq_false_iff.mpr hspace)] at hskip
      obtain ⟨rfl, rfl⟩ := List.cons.inj hskip
      have hescape : isEscape b = false := by
        refine decide_eq_false ?_
        rintro rfl
        cases hc
      rw [delimited_plain (hplain (not_isStringQuote hc)) hescape] at h
      obtain ⟨d', -, rfl⟩ := push_eq_some h
      exact ⟨b, List.mem_append_left _ (List.mem_singleton_self b), hc⟩

theorem EndsText.avoids (ht : EndsText t) (hq : isStringQuote q = true)
    (hw : ∀ c ∈ w, isLaggard c = true) : Avoids (opened q n t) w := by
  intro d r h heq
  obtain ⟨⟨d', r'⟩, hread, hrest⟩ := Option.bind_eq_some_iff.mp h
  obtain ⟨c, hmem, hc⟩ := ht.shows hq hread
  obtain ⟨d'', -, rfl⟩ := push_eq_some hrest
  have hlaggard := hw c (heq ▸ List.mem_append_left _ hmem)
  rw [hc] at hlaggard
  cases hlaggard

theorem unescape_cases (c : Nat) : (c = 37 ∨ c = 95) ∧ unescape c = [backslash, c] ∨
    ¬ (c = 37 ∨ c = 95) ∧ ∃ e, unescape c = [e] ∧ (e = backslash → c = backslash) ∧
      (isLaggard e = true → isLaggard c = true) := by
  by_cases hkeep : c = 37 ∨ c = 95
  · exact .inl ⟨hkeep, if_pos hkeep⟩
  · refine .inr ⟨hkeep, ?_⟩
    rw [unescape, if_neg hkeep]
    have hplain {e : Nat} (hback : e ≠ backslash) (he : isLaggard e = false) : ∃ e', [e] = [e'] ∧
        (e' = backslash → c = backslash) ∧ (isLaggard e' = true → isLaggard c = true) :=
      ⟨e, rfl, fun h => absurd h hback, fun h => by rw [he] at h; cases h⟩
    have hspace {e : Nat} (hback : e ≠ backslash) (hc : isLaggard c = true) : ∃ e', [e] = [e'] ∧
        (e' = backslash → c = backslash) ∧ (isLaggard e' = true → isLaggard c = true) :=
      ⟨e, rfl, fun h => absurd h hback, fun _ => hc⟩
    split_ifs with h0 hb hn hr ht hz
    · exact hplain (by decide) rfl
    · exact hplain (by decide) rfl
    · exact hspace (by decide) (hn ▸ rfl)
    · exact hspace (by decide) (hr ▸ rfl)
    · exact hspace (by decide) (ht ▸ rfl)
    · exact hplain (by decide) rfl
    · exact ⟨c, rfl, id, id⟩

theorem escapeQuotes_quote (w : Bytes) :
    escapeQuotes (quote :: w) = backslash :: quote :: escapeQuotes w := rfl

theorem escapeQuotes_cons (hc : c ≠ quote) (w : Bytes) :
    escapeQuotes (c :: w) = c :: escapeQuotes w := by
  rw [escapeQuotes, List.flatMap_cons, if_neg hc]
  rfl

/-- Only the text that ends here begins with a quote. -/
theorem head_escapeQuotes (hw : w ≠ []) (u : Bytes) : (escapeQuotes w ++ u).head? ≠ some quote := by
  obtain ⟨c, w, rfl⟩ := List.exists_cons_of_ne_nil hw
  by_cases hc : c = quote
  · subst hc
    rw [escapeQuotes_quote]
    intro heq
    cases heq
  · rw [escapeQuotes_cons hc]
    exact fun heq => hc (Option.some.inj heq)

/-- What is read of a text before `t`, or of the literals that seem to follow one, misses the bytes
before it, if there are any. -/
structure Lags (t w : Bytes) : Prop where
  opened : ∀ ⦃q n g⦄, isStringQuote q = true → g ≠ [] → (∀ a ∈ g, isLaggard a = true) →
    Avoids (opened q n (escapeQuotes w ++ quote :: t)) (g ++ w)
  between : ∀ ⦃n g⦄, g ≠ [] → (∀ a ∈ g, isLaggard a = true) →
    Avoids (between n (escapeQuotes w ++ quote :: t)) (g ++ w)

theorem laggards_snoc (hg : ∀ a ∈ g, isLaggard a = true) (hc : isLaggard c = true) :
    ∀ a ∈ g ++ [c], isLaggard a = true :=
  List.forall_mem_append.mpr ⟨hg, List.forall_mem_singleton.mpr hc⟩

/-- A byte that stays with its backslash is not one of those that are missed. -/
theorem not_kept_of_laggards {b : Nat} {w' : Bytes} (hkeep : b = 37 ∨ b = 95)
    (hg : ∀ a ∈ g, isLaggard a = true) : g ++ backslash :: b :: w ≠ [b] ++ w' := by
  intro heq
  have hb : isLaggard b = false := by
    rcases hkeep with rfl | rfl <;> rfl
  cases g with
  | nil =>
    have hback := (List.cons.inj heq).1
    rw [← hback] at hb
    cases hb
  | cons a g =>
    rw [← (List.cons.inj heq).1, hg a List.mem_cons_self] at hb
    cases hb

theorem Lags.opened_snoc (h : Lags t w) (hq : isStringQuote q = true)
    (hg : ∀ a ∈ g, isLaggard a = true) (hc : isLaggard c = true) :
    Avoids (MySqlText.opened q n (escapeQuotes w ++ quote :: t)) (g ++ c :: w) := by
  have hread := h.opened (n := n) hq (by simp) (laggards_snoc hg hc)
  rwa [List.append_assoc] at hread

theorem Lags.between_snoc (h : Lags t w) (hg : ∀ a ∈ g, isLaggard a = true)
    (hc : isLaggard c = true) : Avoids (MySqlText.between n (escapeQuotes w ++ quote :: t)) (g ++ c :: w) := by
  have hread := h.between (n := n) (by simp) (laggards_snoc hg hc)
  rwa [List.append_assoc] at hread

theorem lags_nil (ht : EndsText t) : Lags t [] where
  opened q n g hq hg hA := by
    have htext : escapeQuotes [] ++ quote :: t = quote :: t := rfl
    rw [htext, List.append_nil]
    rcases isStringQuote_iff.mp hq with rfl | rfl
    · rw [opened_close (ht.head hq), ht.between]
      exact avoids_nil hg
    · rw [opened_plain (by decide) (by decide)]
      refine avoids_push fun w' heq => ht.avoids hq fun c hc => hA c ?_
      rw [heq]
      exact List.mem_append_right _ hc
  between n g hg hA := by
    have htext : escapeQuotes [] ++ quote :: t = quote :: t := rfl
    rw [htext, List.append_nil]
    rcases between_quote (n := n) (c := quote) rfl t with hnone | ⟨m, hread⟩
    · rw [hnone]
      intro d r hd
      cases hd
    · rw [hread]
      exact ht.avoids rfl hA

theorem opened_lags_quote (h : Lags t w) (hq : isStringQuote q = true) (hg : g ≠ [])
    (hA : ∀ a ∈ g, isLaggard a = true) :
    Avoids (opened q n (escapeQuotes (quote :: w) ++ quote :: t)) (g ++ quote :: w) := by
  have hback : backslash ≠ q := by
    rcases isStringQuote_iff.mp hq with rfl | rfl <;> decide
  have hone : unescape quote = [quote] := rfl
  rw [escapeQuotes_quote, List.cons_append, List.cons_append, opened_escape hback, hone]
  exact avoids_push_lag hg hA fun hc g' hg' => h.opened_snoc hq hg' hc

theorem opened_lags_doubleQuote (h : Lags t w) (hnext : ∀ c w', w = c :: w' → Lags t w')
    (hg : g ≠ []) (hA : ∀ a ∈ g, isLaggard a = true) :
    Avoids (opened doubleQuote n (escapeQuotes (doubleQuote :: w) ++ quote :: t))
      (g ++ doubleQuote :: w) := by
  have hdouble : isLaggard doubleQuote = true := rfl
  rw [escapeQuotes_cons (by decide), List.cons_append]
  by_cases hhead : (escapeQuotes w ++ quote :: t).head? = some doubleQuote
  · cases w with
    | nil => cases hhead
    | cons c w =>
      obtain rfl : c = doubleQuote := by
        by_cases hc : c = quote
        · rw [hc, escapeQuotes_quote] at hhead
          cases hhead
        · rw [escapeQuotes_cons hc] at hhead
          exact Option.some.inj hhead
      rw [escapeQuotes_cons (by decide), List.cons_append, opened_double]
      refine avoids_push_lag hg hA fun _ g' hg' => ?_
      have hread := (hnext _ w rfl).opened_snoc (n := n) (q := doubleQuote) rfl
        (laggards_snoc hg' hdouble) hdouble
      rwa [List.append_assoc] at hread
  · rw [opened_close hhead]
    exact h.between_snoc hA hdouble

theorem opened_lags_backslash (ht : EndsText t) (hnext : ∀ c w', w = c :: w' → Lags t w')
    (hq : isStringQuote q = true) (hg : g ≠ []) (hA : ∀ a ∈ g, isLaggard a = true) :
    Avoids (opened q n (escapeQuotes (backslash :: w) ++ quote :: t)) (g ++ backslash :: w) := by
  have hback : backslash ≠ q := by
    rcases isStringQuote_iff.mp hq with rfl | rfl <;> decide
  have hlaggard : isLaggard backslash = true := rfl
  have hone : unescape quote = [quote] := rfl
  have hself : unescape backslash = [backslash] := rfl
  rw [escapeQuotes_cons (by decide), List.cons_append]
  cases w with
  | nil =>
    have htext : escapeQuotes [] ++ quote :: t = quote :: t := rfl
    rw [htext, opened_escape hback, hone]
    refine avoids_push fun w' heq => ht.avoids hq fun c hc => laggards_snoc hA hlaggard c ?_
    rw [heq]
    exact List.mem_append_right _ hc
  | cons b w =>
    have hw := hnext b w rfl
    by_cases hb : b = quote
    · subst hb
      rw [escapeQuotes_quote, List.cons_append, List.cons_append, opened_escape hback, hself]
      refine avoids_push_lag hg hA fun _ g' hg' => ?_
      have hg'' := laggards_snoc hg' hlaggard
      have hsplit : g' ++ backslash :: quote :: w = (g' ++ [backslash]) ++ quote :: w := by simp
      rw [hsplit]
      rcases isStringQuote_iff.mp hq with rfl | rfl
      · by_cases hnil : w = []
        · subst hnil
          have htext : escapeQuotes [] ++ quote :: t = quote :: t := rfl
          rw [htext, opened_double]
          refine avoids_push fun w' heq => ht.avoids hq fun c hc => laggards_snoc hg'' (c := quote) rfl c ?_
          rw [heq]
          exact List.mem_append_right _ hc
        · rw [opened_close (head_escapeQuotes hnil _)]
          exact hw.between_snoc hg'' rfl
      · rw [opened_plain (by decide) (by decide)]
        exact avoids_push_lag (by simp) hg'' fun hc g'' hg'' => hw.opened_snoc hq hg'' hc
    · rw [escapeQuotes_cons hb, List.cons_append, opened_escape hback]
      rcases unescape_cases b with ⟨hkeep, hun⟩ | ⟨-, e, hun, -, he⟩
      · rw [hun, ← List.singleton_append, ← push_push]
        exact avoids_push_lag hg hA fun _ g' hg' => avoids_push fun w' heq =>
          absurd heq (not_kept_of_laggards hkeep hg')
      · rw [hun]
        refine avoids_push_lag hg hA fun hc g' hg' => ?_
        have hread := hw.opened_snoc (n := n) hq (laggards_snoc hg' hlaggard) (he hc)
        rwa [List.append_assoc] at hread

theorem between_lags_cons (h : Lags t w) (hA : ∀ a ∈ g, isLaggard a = true) :
    Avoids (between n (escapeQuotes (c :: w) ++ quote :: t)) (g ++ c :: w) := by
  have hne : g ++ c :: w ≠ [] := by simp
  by_cases hc : c = quote
  · subst hc
    rw [escapeQuotes_quote, List.cons_append, between_other rfl rfl]
    exact avoids_nil hne
  · rw [escapeQuotes_cons hc, List.cons_append]
    by_cases hspace : isSpace c = true
    · exact avoids_between_space hspace hne (h.between_snoc hA (by simp [isLaggard, hspace]))
    · by_cases hquote : isStringQuote c = true
      · rcases between_quote (n := n) hquote (escapeQuotes w ++ quote :: t) with hnone | ⟨m, hread⟩
        · rw [hnone]
          intro d r hd
          cases hd
        · rw [hread]
          exact h.opened_snoc hquote hA (by simp [isLaggard, hquote])
      · rw [between_other (Bool.eq_false_iff.mpr hspace) (Bool.eq_false_iff.mpr hquote)]
        exact avoids_nil hne

theorem lags_cons (ht : EndsText t) (h : Lags t w) (hnext : ∀ c w', w = c :: w' → Lags t w') (c : Nat) :
    Lags t (c :: w) where
  opened q n g hq hg hA := by
    by_cases hquote : c = quote
    · subst hquote
      exact opened_lags_quote h hq hg hA
    · by_cases hback : c = backslash
      · subst hback
        exact opened_lags_backslash ht hnext hq hg hA
      · by_cases hc : c = q
        · obtain rfl : c = doubleQuote :=
            ((isStringQuote_iff.mp (hc ▸ hq)).resolve_left hquote)
          subst hc
          exact opened_lags_doubleQuote h hnext hg hA
        · rw [escapeQuotes_cons hquote, List.cons_append, opened_plain hc hback]
          exact avoids_push_lag hg hA fun hc g' hg' => h.opened_snoc hq hg' hc
  between n g hg hA := between_lags_cons h hA

/-- **A literal that lags.** -/
theorem lags (ht : EndsText t) (w : Bytes) : Lags t w := by
  induction w using List.twoStepInduction with
  | nil => exact lags_nil ht
  | singleton c => exact lags_cons ht (lags_nil ht) (fun c w' heq => by cases heq) c
  | cons_cons c c' w ih ih' =>
    refine lags_cons ht (ih' c') (fun c w' heq => ?_) c
    obtain ⟨-, rfl⟩ := List.cons.inj heq
    exact ih

theorem opened_tame (ht : EndsText t) (h : isTame w = true) :
    opened quote n (escapeQuotes w ++ quote :: t) = some (w, t) := by
  fun_induction isTame w with
  | case1 =>
    have htext : escapeQuotes [] ++ quote :: t = quote :: t := rfl
    rw [htext, opened_close (ht.head rfl), ht.between]
  | case2 => cases h
  | case3 c' t' ih =>
    rw [Bool.and_eq_true, Bool.or_eq_true, decide_eq_true_eq, decide_eq_true_eq] at h
    have hquote : c' ≠ quote := by
      unfold quote
      omega
    have hkeep : unescape c' = [backslash, c'] := if_pos h.1
    rw [escapeQuotes_cons (by decide), escapeQuotes_cons hquote, List.cons_append, List.cons_append,
      opened_escape (by decide), hkeep, ih h.2]
    rfl
  | case4 c w hc ih =>
    by_cases hquote : c = quote
    · have hone : unescape quote = [quote] := rfl
      rw [hquote, escapeQuotes_quote, List.cons_append, List.cons_append, opened_escape (by decide),
        hone, ih h]
      rfl
    · rw [escapeQuotes_cons hquote, List.cons_append, opened_plain hquote hc, ih h]
      rfl

theorem opened_avoids (ht : EndsText t) (h : ¬ isTame w = true) :
    Avoids (opened quote n (escapeQuotes w ++ quote :: t)) w := by
  have hself : unescape backslash = [backslash] := rfl
  have hone : unescape quote = [quote] := rfl
  have hlaggard : ∀ a ∈ [backslash], isLaggard a = true := by decide
  fun_induction isTame w with
  | case1 => exact absurd rfl h
  | case2 =>
    have htext : escapeQuotes [backslash] ++ quote :: t = backslash :: quote :: t := rfl
    rw [htext, opened_escape (by decide), hone]
    exact avoids_push fun w' heq => by cases heq
  | case3 c' w ih =>
    rw [escapeQuotes_cons (by decide), List.cons_append]
    by_cases hquote : c' = quote
    · subst hquote
      rw [escapeQuotes_quote, List.cons_append, List.cons_append, opened_escape (by decide), hself]
      refine avoids_push fun w' heq => ?_
      obtain ⟨-, rfl⟩ := List.cons.inj heq
      by_cases hnil : w = []
      · subst hnil
        have htext : escapeQuotes [] ++ quote :: t = quote :: t := rfl
        rw [htext, opened_double]
        refine avoids_push fun w' heq => ?_
        obtain ⟨-, rfl⟩ := List.cons.inj heq
        exact ht.avoids rfl fun c hc => absurd hc List.not_mem_nil
      · rw [opened_close (head_escapeQuotes hnil _)]
        exact (lags ht w).between (g := [quote]) (by simp) (by decide)
    · rw [escapeQuotes_cons hquote, List.cons_append, opened_escape (by decide)]
      rcases unescape_cases c' with ⟨hkeep, hun⟩ | ⟨hkeep, e, hun, hback, -⟩
      · rw [hun]
        refine avoids_push fun w' heq => ?_
        obtain rfl : w = w' := @List.append_cancel_left _ [backslash, c'] w w' heq
        refine ih fun htame => h ?_
        rw [htame, Bool.and_true]
        simpa using hkeep
      · rw [hun]
        refine avoids_push fun w' heq => ?_
        obtain ⟨he, rfl⟩ := List.cons.inj heq
        obtain rfl := hback he.symm
        exact (lags ht w).opened (g := [backslash]) rfl (by simp) hlaggard
  | case4 c w hc ih =>
    by_cases hquote : c = quote
    · rw [hquote, escapeQuotes_quote, List.cons_append, List.cons_append, opened_escape (by decide),
        hone]
      refine avoids_push fun w' heq => ?_
      obtain ⟨-, rfl⟩ := List.cons.inj heq
      exact ih h
    · rw [escapeQuotes_cons hquote, List.cons_append, opened_plain hquote hc]
      refine avoids_push fun w' heq => ?_
      obtain ⟨-, rfl⟩ := List.cons.inj heq
      exact ih h

/-! ## Texts that stand as they are

A text between quotes in which nothing is escaped is read as itself only if nothing in it needs an
escape. -/

section Plain

variable {w t g : Bytes}

/-- What is read of the text before a quote and `t` misses the bytes before it, if there are any. -/
def PlainLags (t w : Bytes) : Prop :=
  ∀ ⦃g⦄, g ≠ [] → (∀ a ∈ g, isLaggard a = true) →
    Avoids (delimited quote isEscape (w ++ quote :: t)) (g ++ w)

theorem PlainLags.snoc {c : Nat} (h : PlainLags t w) (hg : ∀ a ∈ g, isLaggard a = true)
    (hc : isLaggard c = true) :
    Avoids (delimited quote isEscape (w ++ quote :: t)) (g ++ c :: w) := by
  have hread := h (by simp) (laggards_snoc hg hc)
  rwa [List.append_assoc] at hread

theorem EndsText.delimited_avoids (ht : EndsText t) (hw : ∀ c ∈ w, isLaggard c = true) :
    Avoids (delimited quote isEscape t) w := by
  intro d r h heq
  obtain ⟨c, hmem, hc⟩ := ht.shows rfl h
  have hlaggard := hw c (heq ▸ hmem)
  rw [hc] at hlaggard
  cases hlaggard

theorem plainLags_nil (ht : EndsText t) : PlainLags t [] := by
  intro g hg _
  rw [List.nil_append, List.append_nil, delimited_close (ht.head rfl)]
  exact avoids_nil hg

theorem plainLags_quote (ht : EndsText t) (hnext : ∀ c w', w = c :: w' → PlainLags t w') :
    PlainLags t (quote :: w) := by
  intro g hg hA
  have hlaggard : isLaggard quote = true := rfl
  have hne : g ++ quote :: w ≠ [] := by simp
  rw [List.cons_append]
  by_cases hhead : (w ++ quote :: t).head? = some quote
  · cases w with
    | nil =>
      rw [List.nil_append, delimited_double]
      refine avoids_push fun w' heq => ht.delimited_avoids fun c hc => laggards_snoc hA hlaggard c ?_
      rw [heq]
      exact List.mem_append_right _ hc
    | cons c w =>
      obtain rfl : c = quote := Option.some.inj hhead
      rw [List.cons_append, delimited_double]
      refine avoids_push_lag hg hA fun _ g' hg' => ?_
      have hread := (hnext quote w rfl).snoc (laggards_snoc hg' hlaggard) hlaggard
      rwa [List.append_assoc] at hread
  · rw [delimited_close hhead]
    exact avoids_nil hne

theorem plainLags_backslash (ht : EndsText t) (hnext : ∀ c w', w = c :: w' → PlainLags t w') :
    PlainLags t (backslash :: w) := by
  intro g hg hA
  have hlaggard : isLaggard backslash = true := rfl
  have hone : unescape quote = [quote] := rfl
  rw [List.cons_append]
  cases w with
  | nil =>
    rw [List.nil_append, delimited_escape (by decide), hone]
    refine avoids_push fun w' heq => ht.delimited_avoids fun c hc => laggards_snoc hA hlaggard c ?_
    rw [heq]
    exact List.mem_append_right _ hc
  | cons b w =>
    rw [List.cons_append, delimited_escape (by decide)]
    rcases unescape_cases b with ⟨hkeep, hun⟩ | ⟨-, e, hun, -, he⟩
    · rw [hun, ← List.singleton_append, ← push_push]
      exact avoids_push_lag hg hA fun _ g' hg' => avoids_push fun w' heq =>
        absurd heq (not_kept_of_laggards hkeep hg')
    · rw [hun]
      refine avoids_push_lag hg hA fun hc g' hg' => ?_
      have hread := (hnext b w rfl).snoc (laggards_snoc hg' hlaggard) (he hc)
      rwa [List.append_assoc] at hread

theorem plainLags_cons (ht : EndsText t) (h : PlainLags t w)
    (hnext : ∀ c w', w = c :: w' → PlainLags t w') (c : Nat) : PlainLags t (c :: w) := by
  by_cases hc : c = quote
  · subst hc
    exact plainLags_quote ht hnext
  · by_cases hback : c = backslash
    · subst hback
      exact plainLags_backslash ht hnext
    · intro g hg hA
      rw [List.cons_append, delimited_plain hc (decide_eq_false hback)]
      exact avoids_push_lag hg hA fun hc g' hg' => h.snoc hg' hc

/-- **A plain literal that lags.** -/
theorem plainLags (ht : EndsText t) (w : Bytes) : PlainLags t w := by
  induction w using List.twoStepInduction with
  | nil => exact plainLags_nil ht
  | singleton c => exact plainLags_cons ht (plainLags_nil ht) (fun c w' heq => by cases heq) c
  | cons_cons c c' w ih ih' =>
    refine plainLags_cons ht (ih' c') (fun c w' heq => ?_) c
    obtain ⟨-, rfl⟩ := List.cons.inj heq
    exact ih

theorem delimited_plain_avoids (ht : EndsText t) (h : ¬ isPlain quote isEscape w = true) :
    Avoids (delimited quote isEscape (w ++ quote :: t)) w := by
  have hone : unescape quote = [quote] := rfl
  have hquote : ∀ a ∈ [quote], isLaggard a = true := by decide
  have hback : ∀ a ∈ [backslash], isLaggard a = true := by decide
  fun_induction isPlain quote isEscape w with
  | case1 => exact absurd rfl h
  | case2 w =>
    rw [List.cons_append]
    by_cases hhead : (w ++ quote :: t).head? = some quote
    · cases w with
      | nil =>
        rw [List.nil_append, delimited_double]
        refine avoids_push fun w' heq => ?_
        obtain ⟨-, rfl⟩ := List.cons.inj heq
        exact ht.delimited_avoids fun c hc => absurd hc List.not_mem_nil
      | cons c w =>
        obtain rfl : c = quote := Option.some.inj hhead
        rw [List.cons_append, delimited_double]
        refine avoids_push fun w' heq => ?_
        obtain ⟨-, rfl⟩ := List.cons.inj heq
        exact plainLags ht w (List.cons_ne_nil quote []) hquote
    · rw [delimited_close hhead]
      exact avoids_nil (List.cons_ne_nil quote w)
  | case3 c hc hesc =>
    obtain rfl := escape_backslash c hesc
    rw [List.cons_append, List.nil_append, delimited_escape hc, hone]
    exact avoids_push fun w' heq => by cases heq
  | case4 c hc hesc c' w ih =>
    obtain rfl := escape_backslash c hesc
    rw [List.cons_append, List.cons_append, delimited_escape hc]
    rcases unescape_cases c' with ⟨hkeep, hun⟩ | ⟨-, e, hun, he, -⟩
    · rw [hun]
      refine avoids_push fun w' heq => ?_
      obtain rfl : w = w' := @List.append_cancel_left _ [backslash, c'] w w' heq
      refine ih fun hplain => h ?_
      rw [hplain, Bool.and_true]
      simpa using hkeep
    · rw [hun]
      refine avoids_push fun w' heq => ?_
      obtain ⟨hb, rfl⟩ := List.cons.inj heq
      obtain rfl := he hb.symm
      exact plainLags ht w (List.cons_ne_nil backslash []) hback
  | case5 c w hc hesc ih =>
    have hplain : c ≠ backslash := fun heq => hesc (decide_eq_true heq)
    rw [List.cons_append, delimited_plain hc (decide_eq_false hplain)]
    refine avoids_push fun w' heq => ?_
    obtain ⟨-, rfl⟩ := List.cons.inj heq
    exact ih h

end Plain

end MySqlText
