import NextDBM.Accounts.Proofs.LoginPolicyProofs
import NextDBM.Accounts.WeekTime
import NextDBM.Library.MaximalRuns

/-!
# Proofs: the grid against the check

The loop of `splicing` writes one range for each maximal run of selected slots. A range is compared as
texts, which orders times of day as numbers except for an end at midnight: so the time at which a run
ends is still a match, and a run that ends at midnight matches only when it is the whole day.
-/

namespace NextDBM

open Relational MaximalRuns

/-! ## Times of day as texts -/

/-- The text of a number of minutes since midnight. -/
def clock (m : Nat) : String := twoDigits (m / 60) ++ ":" ++ twoDigits (m % 60)

def digitChar (d : Nat) : Char := Char.ofNat (48 + d)

theorem twoDigits_toList : ∀ n : Fin 60,
    (twoDigits n.val).toList = [digitChar (n.val / 10), digitChar (n.val % 10)] := by
  decide

theorem digitChar_lt : ∀ a b : Fin 10, digitChar a.val < digitChar b.val ↔ a.val < b.val := by
  decide

theorem padded_eq : ∀ n : Fin 60, DragWeekTime.padded n.val = twoDigits n.val := by
  decide

theorem clock_toList {m : Nat} (h : m < 1440) :
    (clock m).toList = [digitChar (m / 60 / 10), digitChar (m / 60 % 10), ':',
      digitChar (m % 60 / 10), digitChar (m % 60 % 10)] := by
  have hhour := twoDigits_toList ⟨m / 60, by omega⟩
  have hminute := twoDigits_toList ⟨m % 60, by omega⟩
  simp only at hhour hminute
  rw [clock, String.toList_append, String.toList_append, hhour, hminute]
  rfl

/-- Texts of times are ordered as the times. -/
theorem clock_lt_iff {m n : Nat} (hm : m < 1440) (hn : n < 1440) : clock m < clock n ↔ m < n := by
  have hlt : ∀ {a b : Nat}, a < 10 → b < 10 → (digitChar a < digitChar b ↔ a < b) :=
    fun ha hb => digitChar_lt ⟨_, ha⟩ ⟨_, hb⟩
  have heq : ∀ {a b : Nat}, a < 10 → b < 10 → (digitChar a = digitChar b ↔ a = b) := by
    intro a b ha hb
    constructor
    · intro h
      have h₁ : ¬ a < b := fun hab => absurd h (ne_of_lt ((hlt ha hb).mpr hab))
      have h₂ : ¬ b < a := fun hba => absurd h (ne_of_gt ((hlt hb ha).mpr hba))
      omega
    · rintro rfl
      rfl
  show (clock m).toList < (clock n).toList ↔ _
  rw [clock_toList hm, clock_toList hn]
  simp only [List.cons_lt_cons_iff, lt_irrefl, false_or, true_and, and_false, or_false]
  rw [hlt (by omega) (by omega), hlt (by omega) (by omega), hlt (by omega) (by omega),
    hlt (by omega) (by omega), heq (by omega) (by omega), heq (by omega) (by omega),
    heq (by omega) (by omega)]
  omega

theorem clock_le_iff {m n : Nat} (hm : m < 1440) (hn : n < 1440) : clock m ≤ clock n ↔ m ≤ n := by
  rw [← not_lt, clock_lt_iff hn hm, not_lt]

theorem clock_inj {m n : Nat} (hm : m < 1440) (hn : n < 1440) : clock m = clock n ↔ m = n := by
  rw [le_antisymm_iff, clock_le_iff hm hn, clock_le_iff hn hm]
  omega

theorem digitChar_ne {ch : Char} (h : ∀ d : Fin 10, digitChar d.val ≠ ch) (hcolon : ch ≠ ':')
    {m : Nat} (hm : m < 1440) : ch ∉ (clock m).toList := by
  rw [clock_toList hm]
  intro hmem
  simp only [List.mem_cons, List.not_mem_nil, or_false] at hmem
  rcases hmem with hd | hd | hd | hd | hd
  · exact h ⟨m / 60 / 10, by omega⟩ hd.symm
  · exact h ⟨m / 60 % 10, by omega⟩ hd.symm
  · exact hcolon hd
  · exact h ⟨m % 60 / 10, by omega⟩ hd.symm
  · exact h ⟨m % 60 % 10, by omega⟩ hd.symm

theorem hwc_eq (now : Moment) : now.hwc = clock now.minutes := by
  have hhour : now.minutes / 60 = now.hour.val := by
    have := now.minute.isLt
    unfold Moment.minutes
    omega
  have hminute : now.minutes % 60 = now.minute.val := by
    have := now.minute.isLt
    unfold Moment.minutes
    omega
  rw [clock, hhour, hminute, Moment.hwc]

theorem minutes_lt (now : Moment) : now.minutes < 1440 := by
  have hhour := now.hour.isLt
  have hminute := now.minute.isLt
  unfold Moment.minutes
  omega

/-! ## The slots -/

namespace DragWeekTime

/-- The timestamp of the `k`-th half hour is read as its time of day. -/
theorem formatDate_eq (k : Nat) :
    formatDate (1542384000000 + k * 1800000) = clock (30 * k % 1440) := by
  have hhour : getHours (1542384000000 + k * 1800000) = 30 * k % 1440 / 60 := by
    unfold getHours
    omega
  have hminute : getMinutes (1542384000000 + k * 1800000) = 30 * k % 1440 % 60 := by
    unfold getMinutes
    omega
  have hpadHour := padded_eq ⟨30 * k % 1440 / 60, by omega⟩
  have hpadMinute := padded_eq ⟨30 * k % 1440 % 60, by omega⟩
  simp only at hpadHour hpadMinute
  rw [formatDate, hhour, hminute, hpadHour, hpadMinute, clock]

theorem split_formatWeekTime (col : Nat) :
    Text.split (formatWeekTime col) '~' =
      [clock (30 * col % 1440), clock (30 * (col + 1) % 1440)] := by
  have hstop : 1542384000000 + col * 1800000 + 1800000 = 1542384000000 + (col + 1) * 1800000 := by
    omega
  have hnot : ∀ m, m < 1440 → '~' ∉ (clock m).toList :=
    fun m hm => digitChar_ne (by decide) (by decide) hm
  rw [formatWeekTime]
  simp only [hstop]
  rw [formatDate_eq, formatDate_eq,
    Text.split_append_sep (hnot _ (Nat.mod_lt _ (by decide))) (by decide),
    Text.split_of_not_mem (hnot _ (Nat.mod_lt _ (by decide)))]

/-! ## The loop of `splicing` -/

section Splicing

-- `edge i` is the label where slot `i` begins and the slot before it ends
variable {edge : Nat → String}

/-- The tokens of a list of runs, the last run first. -/
def tokens (edge : Nat → String) (rs : List (Nat × Nat)) : List String :=
  rs.reverse.flatMap fun r => ["、", edge r.1, "~", edge r.2]

theorem tokens_cons (r : Nat × Nat) (rs : List (Nat × Nat)) :
    tokens edge (r :: rs) = tokens edge rs ++ ["、", edge r.1, "~", edge r.2] := by
  rw [tokens, List.reverse_cons, List.flatMap_append, List.flatMap_singleton, tokens]

/-- The items of a row: slot `i` has its two labels and is selected when `p i`. -/
def IsRow (edge : Nat → String) (p : Nat → Bool) (items : List Item) : Prop :=
  ∀ i (h : i < items.length), items[i].begin = edge i ∧ items[i].stop = edge (i + 1) ∧
    items[i].checked = p i

/-- Whether the slot before the `n`-th one is selected. -/
def before (p : Nat → Bool) : Nat → Bool
  | 0 => false
  | n + 1 => p n

/-- After `n` slots the loop has written the runs below `n`. -/
theorem foldl_splice {p : Nat → Bool} {items : List Item} (hrow : IsRow edge p items) {n : Nat}
    (hn : n ≤ items.length) :
    (items.take n).foldl splice ([], false) =
      (tokens edge (closeRuns p n), before p n) := by
  induction n with
  | zero => rfl
  | succ n ih =>
    obtain ⟨hbegin, hstop, hchecked⟩ := hrow n hn
    have hbefore : before p (n + 1) = p n := rfl
    rw [← List.take_append_getElem hn, List.foldl_append, ih (Nat.le_of_succ_le hn),
      List.foldl_cons, List.foldl_nil, splice, hbegin, hstop, hchecked, hbefore]
    cases hp : p n with
    | false =>
      rw [closeRuns_skip hp]
      rfl
    | true =>
      cases n with
      | zero =>
        rw [closeRuns_start hp fun i hi => absurd hi (Nat.succ_ne_zero i), tokens_cons]
        rfl
      | succ n =>
        have hlast : before p (n + 1) = p n := rfl
        rw [hlast]
        cases hprev : p n with
        | false =>
          have hnone : ∀ i, i + 1 = n + 1 → p i = false := by
            intro i hi
            have hin : i = n := by omega
            exact hin ▸ hprev
          rw [closeRuns_start hp hnone, tokens_cons]
          rfl
        | true =>
          obtain ⟨a, rs, hrs, hrs'⟩ := closeRuns_grow hp hprev
          rw [hrs', hrs, tokens_cons, tokens_cons]
          have hpop : (tokens edge rs ++ ["、", edge a, "~", edge (n + 1)]).dropLast =
              tokens edge rs ++ ["、", edge a, "~"] := by
            rw [List.dropLast_append_of_ne_nil (List.cons_ne_nil _ _)]
            rfl
          simp only [if_true, bne_self_eq_false, Bool.false_eq_true, if_false, hpop]
          simp

/-- The range of a run. -/
def runText (edge : Nat → String) (r : Nat × Nat) : String := edge r.1 ++ "~" ++ edge r.2

/-- The joined tokens without the first separator are the ranges with separators between them. -/
theorem join_tail_tokens (rs : List (Nat × Nat)) :
    String.join (tokens edge rs).tail = Text.join "、" (rs.reverse.map (runText edge)) := by
  unfold tokens
  generalize rs.reverse = runs
  induction runs with
  | nil => rfl
  | cons r runs ih =>
    cases runs with
    | nil => simp [Text.join, runText, String.append_assoc]
    | cons r' runs =>
      rw [List.map_cons, List.map_cons, Text.join, ← List.map_cons, ← ih]
      simp [runText, String.append_assoc]

theorem splicing_eq {p : Nat → Bool} {items : List Item} (hrow : IsRow edge p items) :
    splicing items = Text.join "、" ((closeRuns p items.length).reverse.map (runText edge)) := by
  have hloop := foldl_splice hrow le_rfl
  rw [List.take_length] at hloop
  rw [splicing, hloop, join_tail_tokens]

end Splicing

/-! ## The rows of the grid -/

/-- Whether slot `i` of a row is selected. -/
def inRow (selected : Fin 7 → Fin 48 → Bool) (row : Fin 7) (i : Nat) : Bool :=
  if h : i < 48 then selected row ⟨i, h⟩ else false

/-- The range of a run of the grid in UTC+8. -/
def rangeText (r : Nat × Nat) : String :=
  clock (30 * r.1 % 1440) ++ "~" ++ clock (30 * r.2 % 1440)

/-- The value of a row of the grid. -/
def rowValue (selected : Fin 7 → Fin 48 → Bool) (row : Fin 7) : String :=
  Text.join "、" ((closeRuns (inRow selected row) 48).reverse.map rangeText)

/-- The key of a row: the days counted from Sunday. -/
def rowKey (row : Fin 7) : Int := if row.val = 6 then 0 else (row.val : Int) + 1

theorem dealTimePeriod_eq (selected : Fin 7 → Fin 48 → Bool) :
    dealTimePeriod (weekTimeData selected) =
      (List.finRange 7).map fun row => (rowKey row, rowValue selected row) := by
  rw [dealTimePeriod, weekTimeData, data, List.map_map, List.map_map]
  refine List.map_congr_left fun row _ => ?_
  simp only [Function.comp_apply, List.map_map, rowKey, Prod.mk.injEq]
  have hlen : ∀ f : Fin 48 → Item, ((List.finRange 48).map f).length = 48 := by
    intro f
    rw [List.length_map, List.length_finRange]
  refine ⟨if_congr Fin.ext_iff rfl rfl,
    Eq.trans (@splicing_eq (fun i => clock (30 * i % 1440)) (inRow selected row) _ ?_) ?_⟩
  · intro i hi
    have hi48 : i < 48 := hlen _ ▸ hi
    simp only [List.getElem_map, List.getElem_finRange, Function.comp_apply, Fin.val_cast,
      split_formatWeekTime, inRow, dif_pos hi48]
    exact ⟨rfl, rfl, rfl⟩
  · rw [hlen]
    rfl

theorem rowKey_eq_weekday : ∀ (row weekday : Fin 7),
    (weekday.val : Int) = rowKey row ↔ row = weekday - 1 := by
  decide

end DragWeekTime

/-! ## The ranges of a saved grid -/

namespace SavedGrid

open DragWeekTime

variable {db : AccountDatabase} {now : Moment} (grid : SavedGrid db)

/-- The runs of selected slots of the day. -/
def runs (now : Moment) : List (Nat × Nat) := closeRuns (grid.isSelected now) 48

theorem comma_not_mem_rangeText (r : Nat × Nat) : '、' ∉ (rangeText r).toList := by
  have hclock : ∀ m, m < 1440 → '、' ∉ (clock m).toList :=
    fun m hm => digitChar_ne (by decide) (by decide) hm
  rw [rangeText, String.toList_append, String.toList_append]
  intro h
  rcases List.mem_append.mp h with h | h
  · rcases List.mem_append.mp h with h | h
    · exact hclock _ (Nat.mod_lt _ (by decide)) h
    · exact absurd h (by decide)
  · exact hclock _ (Nat.mod_lt _ (by decide)) h

theorem split_rangeText (r : Nat × Nat) :
    Text.split (rangeText r) '~' = [clock (30 * r.1 % 1440), clock (30 * r.2 % 1440)] := by
  have hclock : ∀ m, '~' ∉ (clock (m % 1440)).toList :=
    fun m => digitChar_ne (by decide) (by decide) (Nat.mod_lt _ (by decide))
  rw [rangeText, Text.split_append_sep (hclock _) (by decide), Text.split_of_not_mem (hclock _)]

/-- The pieces of a value are the ranges of its runs; a row without a run has no value. -/
theorem mem_pieces_rowValue {selected : Fin 7 → Fin 48 → Bool} {row : Fin 7} {t : String} :
    (rowValue selected row ≠ "" ∧ t ∈ Text.split (rowValue selected row) '、') ↔
      ∃ r ∈ closeRuns (inRow selected row) 48, rangeText r = t := by
  rw [rowValue]
  by_cases hnil : closeRuns (inRow selected row) 48 = []
  · rw [hnil]
    simp [Text.join]
  · have hpieces : (closeRuns (inRow selected row) 48).reverse.map rangeText ≠ [] := by
      simpa using hnil
    have hsep : ∀ p ∈ (closeRuns (inRow selected row) 48).reverse.map rangeText,
        '、' ∉ p.toList := by
      intro p hp
      obtain ⟨r, -, rfl⟩ := List.mem_map.mp hp
      exact comma_not_mem_rangeText r
    have hsplit := Text.split_join (by decide : "、".toList = ['、']) hpieces hsep
    rw [hsplit]
    constructor
    · rintro ⟨-, ht⟩
      obtain ⟨r, hr, rfl⟩ := List.mem_map.mp ht
      exact ⟨r, List.mem_reverse.mp hr, rfl⟩
    · rintro ⟨r, hr, rfl⟩
      refine ⟨fun hempty => ?_, List.mem_map.mpr ⟨r, List.mem_reverse.mpr hr, rfl⟩⟩
      -- an empty value would be cut into one empty piece, but a range is not empty
      have hempty' : Text.split "" '、' = [""] := by decide
      rw [hempty, hempty'] at hsplit
      have hmem : rangeText r ∈ [""] :=
        hsplit ▸ List.mem_map.mpr ⟨r, List.mem_reverse.mpr hr, rfl⟩
      have htilde : Text.split (rangeText r) '~' = Text.split "" '~' :=
        congrArg (Text.split · '~') (List.mem_singleton.mp hmem)
      have hone : Text.split "" '~' = [""] := by decide
      rw [split_rangeText, hone] at htilde
      exact absurd (List.cons.inj htilde).2 (List.cons_ne_nil _ _)

/-- The policy of the grid as a reject policy. -/
def rejecting : LoginPolicy := { grid.policy with rule := "reject" }

theorem mem_timeRanges {item : LoginPolicy × String} :
    item ∈ timeRanges db [grid.rejecting] now ↔
      item.1 = grid.rejecting ∧ ∃ r ∈ grid.runs now, rangeText r = item.2 := by
  have hperiod : ∀ key value, (∃ period ∈ TimePeriodRepository.findByLoginPolicyId db
      grid.policy.id, period.key = key ∧ period.value = value) ↔
      ∃ row, rowKey row = key ∧ rowValue grid.selected row = value := by
    intro key value
    have hmem := grid.periods.mem_iff (a := (key, value))
    rw [dealTimePeriod_eq, List.mem_map, List.mem_map] at hmem
    simpa [Prod.ext_iff] using hmem
  have hselected : ∀ row, row = now.row → inRow grid.selected row = grid.isSelected now := by
    rintro row rfl
    rfl
  rw [timeRanges, List.flatMap_singleton]
  have henabled : grid.rejecting.enabled = true := grid.enabled
  simp only [henabled, Bool.not_true, Bool.false_eq_true, if_false, List.mem_flatMap]
  obtain ⟨policy, t⟩ := item
  constructor
  · rintro ⟨period, hperiodMem, hitem⟩
    split at hitem
    · exact absurd hitem List.not_mem_nil
    · next hkey =>
      split at hitem
      · exact absurd hitem List.not_mem_nil
      · next hvalue =>
        obtain ⟨t', ht', heq⟩ := List.mem_map.mp hitem
        obtain ⟨rfl, rfl⟩ := Prod.mk.inj heq
        obtain ⟨row, hrowKey, hrowValue⟩ :=
          (hperiod period.key period.value).mp ⟨period, hperiodMem, rfl, rfl⟩
        have hrow : row = now.row :=
          (rowKey_eq_weekday row now.weekday).mp ((not_not.mp hkey).trans hrowKey.symm)
        rw [← hrowValue] at hvalue ht'
        obtain ⟨r, hr, hrt⟩ := mem_pieces_rowValue.mp ⟨hvalue, ht'⟩
        exact ⟨rfl, r, by rw [runs, ← hselected row hrow]; exact hr, hrt⟩
  · rintro ⟨hpolicy, r, hr, hrt⟩
    have hday := (rowKey_eq_weekday now.row now.weekday).mpr rfl
    obtain ⟨period, hperiodMem, hkey, hvalue⟩ :=
      (hperiod (rowKey now.row) (rowValue grid.selected now.row)).mpr ⟨now.row, rfl, rfl⟩
    have hrun : r ∈ closeRuns (inRow grid.selected now.row) 48 := by
      rw [hselected now.row rfl]
      exact hr
    have hpiece := mem_pieces_rowValue.mpr ⟨r, hrun, hrt⟩
    refine ⟨period, hperiodMem, ?_⟩
    rw [if_neg (not_not.mpr (hday.trans hkey.symm)), hvalue, if_neg hpiece.1]
    exact List.mem_map.mpr ⟨t, hpiece.2, Prod.ext hpolicy.symm rfl⟩

/-- A range matches from its beginning to its end, both included; one that ends at midnight matches
only when it is the whole day. -/
theorem rangeMatches_rangeText {r : Nat × Nat} (hne : r.1 < r.2) (hle : r.2 ≤ 48) :
    rangeMatches now.hwc (rangeText r) = .ok true ↔
      (r.1 = 0 ∧ r.2 = 48) ∨ (r.2 < 48 ∧ 30 * r.1 ≤ now.minutes ∧ now.minutes ≤ 30 * r.2) := by
  have hm := minutes_lt now
  have hzero : clock 0 = "00:00" := by decide
  have hmod : ∀ k, 30 * k % 1440 < 1440 := fun k => Nat.mod_lt _ (by decide)
  have hcompare : ∀ start stop : String,
      (Except.ok ((start == "00:00" && stop == "00:00") ||
        decide (start ≤ now.hwc ∧ now.hwc ≤ stop)) : Except Refusal Bool) = .ok true ↔
      (start = "00:00" ∧ stop = "00:00") ∨ (start ≤ now.hwc ∧ now.hwc ≤ stop) := by
    intro start stop
    simp
  have hread : rangeMatches now.hwc (rangeText r) =
      .ok ((clock (30 * r.1 % 1440) == "00:00" && clock (30 * r.2 % 1440) == "00:00") ||
        decide (clock (30 * r.1 % 1440) ≤ now.hwc ∧ now.hwc ≤ clock (30 * r.2 % 1440))) := by
    rw [rangeMatches, split_rangeText]
  rw [hread, hcompare, hwc_eq, ← hzero, clock_inj (hmod _) (by decide),
    clock_inj (hmod _) (by decide), clock_le_iff (hmod _) hm, clock_le_iff hm (hmod _)]
  omega

/-- The check reports a match when the time is in the range of a run. -/
theorem reportsMatch_iff :
    ReportsMatch db grid.policy now ↔
      ∃ r ∈ grid.runs now, (r.1 = 0 ∧ r.2 = 48) ∨
        (r.2 < 48 ∧ 30 * r.1 ≤ now.minutes ∧ now.minutes ≤ 30 * r.2) := by
  have hrun : ∀ r ∈ grid.runs now, IsRun (grid.isSelected now) 48 r :=
    (runs_closeRuns (grid.isSelected now) 48).isRun
  have hranges : ∀ item ∈ timeRanges db [grid.rejecting] now, '~' ∈ item.2.toList := by
    intro item hitem
    obtain ⟨-, r, -, hrt⟩ := grid.mem_timeRanges.mp hitem
    rw [← hrt, rangeText, String.toList_append, String.toList_append]
    exact List.mem_append_left _ (List.mem_append_right _ (by decide))
  have hallow : AllowsTime db [grid.rejecting] now ↔
      ¬ ∃ item ∈ timeRanges db [grid.rejecting] now,
        rangeMatches now.hwc item.2 = .ok true := by
    constructor
    · rintro ⟨-, hlast⟩ ⟨item, hitem, hmatch⟩
      have hsome : ((timeRanges db [grid.rejecting] now).reverse.find? fun item =>
          rangeMatches now.hwc item.2 == .ok true).isSome :=
        List.find?_isSome.mpr ⟨item, List.mem_reverse.mpr hitem, by rw [hmatch]; rfl⟩
      obtain ⟨last, hfind⟩ := Option.isSome_iff_exists.mp hsome
      have hmem := List.mem_reverse.mp (List.mem_of_find?_eq_some hfind)
      have hrule : last.1.rule = "reject" := by rw [(grid.mem_timeRanges.mp hmem).1]; rfl
      exact absurd (hrule.symm.trans (hlast last hfind)) (by decide)
    · intro hnone
      refine ⟨hranges, fun item hfind => ?_⟩
      have hmem := List.mem_reverse.mp (List.mem_of_find?_eq_some hfind)
      have hmatch := List.find?_some hfind
      refine absurd ⟨item, hmem, ?_⟩ hnone
      cases hread : rangeMatches now.hwc item.2 with
      | error e => rw [hread] at hmatch; cases hmatch
      | ok b => cases b with
        | true => rfl
        | false => rw [hread] at hmatch; cases hmatch
  refine (checkWeekDay_denied hranges).trans ?_
  rw [hallow, not_not]
  constructor
  · rintro ⟨item, hitem, hmatch⟩
    obtain ⟨-, r, hr, hrt⟩ := grid.mem_timeRanges.mp hitem
    rw [← hrt] at hmatch
    exact ⟨r, hr, (rangeMatches_rangeText (hrun r hr).nonempty (hrun r hr).le).mp hmatch⟩
  · rintro ⟨r, hr, hmatch⟩
    exact ⟨(grid.rejecting, rangeText r), grid.mem_timeRanges.mpr ⟨rfl, r, hr, rfl⟩,
      (rangeMatches_rangeText (hrun r hr).nonempty (hrun r hr).le).mpr hmatch⟩

/-! ## The slots and the check -/

/-- A selected slot is in a run, and a run has selected slots only. -/
theorem isSelected_iff_mem_run {i : Nat} :
    grid.isSelected now i = true ↔ ∃ r ∈ grid.runs now, r.1 ≤ i ∧ i < r.2 := by
  constructor
  · intro h
    have hi : i < 48 := by
      by_contra hi
      rw [isSelected, dif_neg hi] at h
      exact Bool.false_ne_true h
    exact (runs_closeRuns _ 48).cover i hi h
  · rintro ⟨r, hr, hle, hlt⟩
    exact ((runs_closeRuns _ 48).isRun r hr).all i hle hlt

theorem isRun_of_mem {r : Nat × Nat} (hr : r ∈ grid.runs now) : IsRun (grid.isSelected now) 48 r :=
  (runs_closeRuns (grid.isSelected now) 48).isRun r hr

theorem slot_lt (now : Moment) : now.slot < 48 := by
  have hm := minutes_lt now
  unfold Moment.slot
  omega

/-- At the end of a run the check still reports a match. -/
theorem reportsMatch_of_endOfRun (h : grid.EndOfRun now) : ReportsMatch db grid.policy now := by
  obtain ⟨hdvd, hpos, hbefore, hnot⟩ := h
  obtain ⟨r, hr, hle, hlt⟩ := grid.isSelected_iff_mem_run.mp hbefore
  have hend : r.2 ≤ now.slot := by
    by_contra hgt
    have hin : grid.isSelected now now.slot = true :=
      (grid.isRun_of_mem hr).all now.slot (by omega) (by omega)
    rw [hnot] at hin
    exact Bool.false_ne_true hin
  have hslot := slot_lt now
  refine grid.reportsMatch_iff.mpr ⟨r, hr, .inr ⟨by omega, ?_, ?_⟩⟩
  · unfold Moment.slot at *
    omega
  · unfold Moment.slot at *
    omega

/-- In a run that reaches midnight without being the whole day the check reports no match. -/
theorem not_reportsMatch_of_untilMidnight (h : grid.UntilMidnight now) :
    ¬ ReportsMatch db grid.policy now := by
  obtain ⟨hall, i, hi, hnot⟩ := h
  have hslot := slot_lt now
  intro hmatch
  obtain ⟨r, hr, ⟨hzero, hday⟩ | ⟨hlt, -, hend⟩⟩ := grid.reportsMatch_iff.mp hmatch
  · have hin : grid.isSelected now i = true :=
      (grid.isRun_of_mem hr).all i (by omega) (by omega)
    rw [hnot] at hin
    exact Bool.false_ne_true hin
  · -- the slot at which the run ends is after the time, and is selected
    have hin : grid.isSelected now r.2 = true := by
      refine hall r.2 hlt ?_
      unfold Moment.slot
      omega
    rw [(grid.isRun_of_mem hr).right hlt] at hin
    exact Bool.false_ne_true hin

theorem isSelected_of_reportsMatch (hend : ¬ grid.EndOfRun now)
    (h : ReportsMatch db grid.policy now) : grid.isSelected now now.slot = true := by
  have hslot := slot_lt now
  obtain ⟨r, hr, ⟨hzero, hday⟩ | ⟨hlt, hstart, hstop⟩⟩ := grid.reportsMatch_iff.mp h
  · exact (grid.isRun_of_mem hr).all now.slot (by omega) (by omega)
  · have hrun := grid.isRun_of_mem hr
    by_cases hin : now.slot < r.2
    · refine hrun.all now.slot ?_ hin
      unfold Moment.slot
      omega
    · -- the time is the end of the run
      have hne := hrun.nonempty
      have heq : now.minutes = 30 * r.2 := by
        unfold Moment.slot at hin
        omega
      have hslotEq : now.slot = r.2 := by
        unfold Moment.slot
        omega
      refine absurd ⟨⟨r.2, heq⟩, by omega, ?_, ?_⟩ hend
      · exact hrun.all (now.slot - 1) (by omega) (by omega)
      · rw [hslotEq]
        exact hrun.right hlt

theorem reportsMatch_of_isSelected (huntil : ¬ grid.UntilMidnight now)
    (h : grid.isSelected now now.slot = true) : ReportsMatch db grid.policy now := by
  obtain ⟨r, hr, hle, hlt⟩ := grid.isSelected_iff_mem_run.mp h
  have hrun := grid.isRun_of_mem hr
  refine grid.reportsMatch_iff.mpr ⟨r, hr, ?_⟩
  by_cases hday : r.2 < 48
  · refine .inr ⟨hday, ?_, ?_⟩
    · unfold Moment.slot at hle
      omega
    · unfold Moment.slot at hlt
      omega
  · have hmidnight : r.2 = 48 := by
      have := hrun.le
      omega
    by_cases hzero : r.1 = 0
    · exact .inl ⟨hzero, hmidnight⟩
    · refine absurd ⟨fun i hi hslot => hrun.all i (by omega) (by omega), ?_⟩ huntil
      exact ⟨r.1 - 1, by omega, hrun.left (r.1 - 1) (by omega)⟩

/-- A saved grid matches a time exactly when its slot is selected, save at the end of a run and in a
run that reaches midnight without being the whole day. -/
theorem reportsMatch_iff_isSelected :
    (ReportsMatch db grid.policy now ↔ grid.isSelected now now.slot = true) ↔
      ¬ grid.EndOfRun now ∧ ¬ grid.UntilMidnight now := by
  constructor
  · intro h
    constructor
    · intro hend
      have hin := h.mp (grid.reportsMatch_of_endOfRun hend)
      rw [hend.2.2.2] at hin
      exact Bool.false_ne_true hin
    · intro huntil
      have hin : grid.isSelected now now.slot = true := huntil.1 now.slot (slot_lt now) le_rfl
      exact grid.not_reportsMatch_of_untilMidnight huntil (h.mpr hin)
  · rintro ⟨hend, huntil⟩
    exact ⟨grid.isSelected_of_reportsMatch hend, grid.reportsMatch_of_isSelected huntil⟩

end SavedGrid

/-- The periods of a grid in which only Monday from 22:00 to midnight is selected. -/
def lateMonday : AccountDatabase :=
  { timePeriods :=
      ⟨[{ id := "t0", loginPolicyId := "p1", key := 0 },
        { id := "t1", loginPolicyId := "p1", key := 1, value := "22:00~00:00" },
        { id := "t2", loginPolicyId := "p1", key := 2 },
        { id := "t3", loginPolicyId := "p1", key := 3 },
        { id := "t4", loginPolicyId := "p1", key := 4 },
        { id := "t5", loginPolicyId := "p1", key := 5 },
        { id := "t6", loginPolicyId := "p1", key := 6 }], by decide⟩ }

def lateMondayGrid : SavedGrid lateMonday where
  policy := { id := "p1", enabled := true, rule := "allow" }
  enabled := rfl
  selected row col := row.val == 0 && decide (44 ≤ col.val)
  periods := by decide

/-- At 23:00 on Monday the selected slot is not matched. -/
theorem not_reportsMatch_lateMonday :
    ¬ (ReportsMatch lateMonday lateMondayGrid.policy ⟨1, 23, 0⟩ ↔
      lateMondayGrid.isSelected ⟨1, 23, 0⟩ (Moment.slot ⟨1, 23, 0⟩) = true) := by
  intro h
  have hselected : lateMondayGrid.isSelected ⟨1, 23, 0⟩ (Moment.slot ⟨1, 23, 0⟩) = true := by
    decide
  have hpasses : checkWeekDay lateMonday [{ lateMondayGrid.policy with rule := "reject" }]
      ⟨1, 23, 0⟩ = .ok () := by
    decide
  exact nomatch hpasses.symm.trans (h.mpr hselected)

end NextDBM
