import NextDBM.Accounts.Proofs.WeekTimeProofs
import NextDBM.Accounts.WeekGrid

/-!
# Proofs: the grid after saving and rendering

Rendering turns the runs of a row by the half hours between the local time of the base timestamp and
midnight, and drops a run that is turned across midnight. So a row is shown again exactly when it is
the same after the turn and no run of it is dropped.
-/

namespace NextDBM

namespace DragWeekTime

open MaximalRuns

/-! ## Runs on the circle of the day -/

/-- The end of the loop of `renderTimePeriod`. -/
def endIndex (v : Nat) : Nat := if v = 0 then 48 else v

/-- Whether rendering the runs of a row checks a slot, when their ends are read as slot numbers. -/
def shown (idx : Nat → Nat) (p : Nat → Bool) (i : Nat) : Bool :=
  (closeRuns p 48).any fun r => decide (idx r.1 ≤ i ∧ i < endIndex (idx r.2))

theorem shown_iff {idx : Nat → Nat} {p : Nat → Bool} {i : Nat} :
    shown idx p i = true ↔ ∃ r, r ∈ closeRuns p 48 ∧ idx r.1 ≤ i ∧ i < endIndex (idx r.2) := by
  simp [shown]

/-- The row is rendered as it was. -/
def ShownAgain (idx : Nat → Nat) (p : Nat → Bool) : Prop := ∀ i < 48, shown idx p i = p i

section Turn

variable {idx : Nat → Nat} {p : Nat → Bool} {k : Nat}

/-- The slot that is turned to slot `i`. -/
def origin (k i : Nat) : Nat := (i + 48 - k) % 48

/-- A run that is turned by `k` covers the slots turned from it, unless it is turned across
midnight. -/
theorem turned_run (hk : k < 48) {r : Nat × Nat} (hrun : r.1 < r.2) (hle : r.2 ≤ 48) {i : Nat}
    (hi : i < 48) :
    ((k + r.1) % 48 ≤ i ∧ i < endIndex ((k + r.2) % 48)) ↔
      ¬ (r.1 + k < 48 ∧ 48 < r.2 + k) ∧ r.1 ≤ origin k i ∧ origin k i < r.2 := by
  unfold endIndex origin
  split <;> omega

/-- When the ends are turned by `k`, a slot is checked exactly when it is turned from a slot of a run
that does not come across midnight. -/
theorem shown_turned (hk : k < 48)
    (hidx : ∀ r ∈ closeRuns p 48, idx r.1 = (k + r.1) % 48 ∧ idx r.2 = (k + r.2) % 48) {i : Nat}
    (hi : i < 48) :
    shown idx p i = true ↔ ∃ r, r ∈ closeRuns p 48 ∧ ¬ (r.1 + k < 48 ∧ 48 < r.2 + k) ∧
      r.1 ≤ origin k i ∧ origin k i < r.2 := by
  rw [shown_iff]
  refine exists_congr fun r => and_congr_right fun hr => ?_
  have hrun := (runs_closeRuns p 48).isRun r hr
  rw [(hidx r hr).1, (hidx r hr).2]
  exact turned_run hk hrun.nonempty hrun.le hi

/-- A checked slot is turned from a selected one. -/
theorem selected_of_shown (hk : k < 48)
    (hidx : ∀ r ∈ closeRuns p 48, idx r.1 = (k + r.1) % 48 ∧ idx r.2 = (k + r.2) % 48) {i : Nat}
    (hi : i < 48) (h : shown idx p i = true) : p (origin k i) = true := by
  obtain ⟨r, hr, -, hle, hlt⟩ := (shown_turned hk hidx hi).mp h
  exact ((runs_closeRuns p 48).isRun r hr).all _ hle hlt

/-- A row that contains the origins of its slots contains the slots of its origins: going back 48 times
comes round to the slot itself. -/
theorem selected_of_origin (hk : k < 48) (h : ∀ i < 48, p i = true → p (origin k i) = true) {i : Nat}
    (hi : i < 48) (horigin : p (origin k i) = true) : p i = true := by
  have hback : ∀ n, p ((i + 48 * (n + 1) - (n + 1) * k) % 48) = true := by
    intro n
    induction n with
    | zero =>
      have heq : (i + 48 * (0 + 1) - (0 + 1) * k) % 48 = origin k i := by
        unfold origin
        omega
      rw [heq]
      exact horigin
    | succ n ih =>
      have hstep := h _ (Nat.mod_lt _ (by decide)) ih
      have heq : origin k ((i + 48 * (n + 1) - (n + 1) * k) % 48) =
          (i + 48 * (n + 1 + 1) - (n + 1 + 1) * k) % 48 := by
        have hle : (n + 1) * k ≤ 48 * (n + 1) := by
          rw [Nat.mul_comm 48]
          exact Nat.mul_le_mul_left _ hk.le
        have hsucc : (n + 1 + 1) * k = (n + 1) * k + k := by rw [Nat.add_mul, Nat.one_mul]
        rw [hsucc]
        unfold origin
        generalize (n + 1) * k = m at hle
        omega
      rw [← heq]
      exact hstep
  have hround := hback 47
  have heq : (i + 48 * (47 + 1) - (47 + 1) * k) % 48 = i := by omega
  rwa [heq] at hround

/-- Turning and the origin of a slot undo each other. -/
theorem origin_turn (hk : k < 48) {i : Nat} (hi : i < 48) : origin k ((i + k) % 48) = i := by
  unfold origin
  omega

theorem turn_origin (hk : k < 48) {i : Nat} (hi : i < 48) : (origin k i + k) % 48 = i := by
  unfold origin
  omega

/-- A row that is moved and shown again is the same after the turn and is not selected across
midnight. -/
theorem turned_of_shownAgain (hk : k < 48)
    (hidx : ∀ r ∈ closeRuns p 48, idx r.1 = (k + r.1) % 48 ∧ idx r.2 = (k + r.2) % 48)
    (hmoved : k ≠ 0) (h : ShownAgain idx p) :
    (∀ i < 48, p i = p ((i + k) % 48)) ∧ ¬ (p 0 = true ∧ p 47 = true) := by
  have hclosed : ∀ i < 48, p i = true → p (origin k i) = true := by
    intro i hi hp
    exact selected_of_shown hk hidx hi ((h i hi).trans hp)
  refine ⟨fun i hi => ?_, fun ⟨hfirst, hlast⟩ => ?_⟩
  · have hlt : (i + k) % 48 < 48 := Nat.mod_lt _ (by decide)
    have heq : origin k ((i + k) % 48) = i := origin_turn hk hi
    rw [Bool.eq_iff_iff]
    constructor
    · intro hp
      exact selected_of_origin hk hclosed hlt (by rw [heq]; exact hp)
    · intro hp
      have hturned := hclosed _ hlt hp
      rwa [heq] at hturned
  · -- slot 0 is turned from the slot that begins at midnight, the run of which begins there
    obtain ⟨r, hr, hcross, hle, hlt⟩ :=
      (shown_turned hk hidx (by decide)).mp ((h 0 (by decide)).trans hfirst)
    have hrun := (runs_closeRuns p 48).isRun r hr
    have hprev := hclosed 47 (by decide) hlast
    have hbegin : r.1 = origin k 47 + 1 := by
      unfold origin at *
      omega
    rw [hrun.left _ hbegin.symm] at hprev
    exact Bool.false_ne_true hprev

/-- In a row that is the same after the turn and not selected across midnight no run is turned across
midnight. -/
theorem not_crosses_of_turned (hturn : ∀ i < 48, p i = p ((i + k) % 48))
    (hmidnight : ¬ (p 0 = true ∧ p 47 = true)) (hk : k < 48) :
    ∀ r ∈ closeRuns p 48, ¬ (r.1 + k < 48 ∧ 48 < r.2 + k) := by
  rintro r hr ⟨hbefore, hafter⟩
  have hrun := (runs_closeRuns p 48).isRun r hr
  have hle := hrun.le
  refine hmidnight ⟨?_, ?_⟩
  · have hin := hrun.all (48 - k) (by omega) (by omega)
    have hmod : (48 - k + k) % 48 = 0 := by omega
    rw [hturn _ (by omega), hmod] at hin
    exact hin
  · have hin := hrun.all (47 - k) (by omega) (by omega)
    have hmod : (47 - k + k) % 48 = 47 := by omega
    rw [hturn _ (by omega), hmod] at hin
    exact hin

/-- A row is shown again when every slot is selected with its origin and no run is turned across
midnight. -/
theorem shownAgain_of_origin (hk : k < 48)
    (hidx : ∀ r ∈ closeRuns p 48, idx r.1 = (k + r.1) % 48 ∧ idx r.2 = (k + r.2) % 48)
    (hsame : ∀ i < 48, p (origin k i) = p i)
    (hnot : ∀ r ∈ closeRuns p 48, ¬ (r.1 + k < 48 ∧ 48 < r.2 + k)) : ShownAgain idx p := by
  intro i hi
  rw [Bool.eq_iff_iff, ← hsame i hi, shown_turned hk hidx hi]
  constructor
  · rintro ⟨r, hr, -, hle, hlt⟩
    exact ((runs_closeRuns p 48).isRun r hr).all _ hle hlt
  · intro hp
    obtain ⟨r, hr, hle, hlt⟩ :=
      (runs_closeRuns p 48).cover _ (Nat.mod_lt _ (by decide)) hp
    exact ⟨r, hr, hnot r hr, hle, hlt⟩

/-- A row that is turned is shown again exactly when it is not moved, or is the same after the turn
and is not selected across midnight. -/
theorem shownAgain_iff_turned (hk : k < 48)
    (hidx : ∀ r ∈ closeRuns p 48, idx r.1 = (k + r.1) % 48 ∧ idx r.2 = (k + r.2) % 48) :
    ShownAgain idx p ↔
      k = 0 ∨ (∀ i < 48, p i = p ((i + k) % 48)) ∧ ¬ (p 0 = true ∧ p 47 = true) := by
  constructor
  · intro h
    by_cases hzero : k = 0
    · exact .inl hzero
    · exact .inr (turned_of_shownAgain hk hidx hzero h)
  · rintro (rfl | ⟨hturn, hmidnight⟩)
    · refine shownAgain_of_origin hk hidx (fun i hi => ?_) fun r hr hcross => ?_
      · have heq : origin 0 i = i := by
          unfold origin
          omega
        rw [heq]
      · have hle := ((runs_closeRuns p 48).isRun r hr).le
        omega
    · refine shownAgain_of_origin hk hidx (fun i hi => ?_) (not_crosses_of_turned hturn hmidnight hk)
      have hlt : origin k i < 48 := Nat.mod_lt _ (by decide)
      rw [hturn _ hlt, turn_origin hk hi]

end Turn

/-! ## The labels of a zone -/

/-- The local time of the base timestamp, in minutes since midnight. -/
def firstMinute (offset : Int) : Nat := ((960 + offset) % 1440).toNat

/-- The local time where slot `c` begins. -/
def boundary (offset : Int) (c : Nat) : Nat := (firstMinute offset + 30 * c) % 1440

/-- The slot number that is read from a time of day. -/
def readIndex (m : Nat) : Nat := m / 60 * 2 + if m % 60 = 30 then 1 else 0

/-- The slot number that is read from the label where slot `c` begins. -/
def slotIndex (offset : Int) (c : Nat) : Nat := readIndex (boundary offset c)

theorem boundary_lt (offset : Int) (c : Nat) : boundary offset c < 1440 := Nat.mod_lt _ (by decide)

theorem firstSlot_eq (offset : Int) : firstSlot offset = firstMinute offset / 30 := by
  unfold firstSlot firstMinute
  omega

theorem dvd_iff (offset : Int) : 30 ∣ offset ↔ firstMinute offset % 30 = 0 := by
  unfold firstMinute
  omega

theorem firstMinute_lt (offset : Int) : firstMinute offset < 1440 := by
  unfold firstMinute
  omega

theorem slotIndex_of_dvd {offset : Int} (h : 30 ∣ offset) (c : Nat) :
    slotIndex offset c = (firstSlot offset + c) % 48 := by
  have hzero := (dvd_iff offset).mp h
  have hlt := firstMinute_lt offset
  rw [firstSlot_eq, slotIndex, readIndex, boundary]
  generalize firstMinute offset = first at *
  split <;> omega

theorem slotIndex_of_not_dvd {offset : Int} (h : ¬ 30 ∣ offset) (c : Nat) :
    slotIndex offset c = (firstSlot offset + c) % 48 / 2 * 2 := by
  have hne := (dvd_iff offset).not.mp h
  have hlt := firstMinute_lt offset
  rw [firstSlot_eq, slotIndex, readIndex, boundary]
  generalize firstMinute offset = first at *
  split <;> omega

theorem formatDateAt_eq (offset : Int) (c : Nat) :
    formatDateAt offset (1542384000000 + c * 1800000) = clock (boundary offset c) := by
  have hlt := boundary_lt offset c
  have hhour : getHoursAt offset (1542384000000 + c * 1800000) = boundary offset c / 60 := by
    unfold getHoursAt boundary firstMinute
    omega
  have hminute : getMinutesAt offset (1542384000000 + c * 1800000) = boundary offset c % 60 := by
    unfold getMinutesAt boundary firstMinute
    omega
  have hpadHour := padded_eq ⟨boundary offset c / 60, by omega⟩
  have hpadMinute := padded_eq ⟨boundary offset c % 60, by omega⟩
  simp only at hpadHour hpadMinute
  rw [formatDateAt, hhour, hminute, hpadHour, hpadMinute, clock]

/-- A time of day holds none of the separators. -/
theorem not_mem_clock {ch : Char} (h : ∀ d : Fin 10, digitChar d.val ≠ ch) (hcolon : ch ≠ ':')
    (offset : Int) (c : Nat) : ch ∉ (clock (boundary offset c)).toList :=
  digitChar_ne h hcolon (boundary_lt offset c)

theorem split_formatWeekTimeAt (offset : Int) (col : Nat) :
    Text.split (formatWeekTimeAt offset col) '~' =
      [clock (boundary offset col), clock (boundary offset (col + 1))] := by
  have hstop : (1542384000000 + col * 1800000 + 1800000 : Int) =
      1542384000000 + ((col + 1 : Nat) : Int) * 1800000 := by
    omega
  have hnot : ∀ c, '~' ∉ (clock (boundary offset c)).toList :=
    not_mem_clock (by decide) (by decide) offset
  rw [formatWeekTimeAt]
  simp only [hstop]
  rw [formatDateAt_eq, formatDateAt_eq, Text.split_append_sep (hnot _) (by decide),
    Text.split_of_not_mem (hnot _)]

/-- In UTC+8 the grid is that of the base timestamp at midnight. -/
theorem weekTimeDataAt_480 (selected : Fin 7 → Fin 48 → Bool) :
    weekTimeDataAt 480 selected = weekTimeData selected := by
  have hdate : ∀ date : Nat, formatDateAt 480 date = formatDate date := by
    intro date
    have hhour : getHoursAt 480 date = getHours date := by
      unfold getHoursAt getHours
      omega
    have hminute : getMinutesAt 480 date = getMinutes date := by
      unfold getMinutesAt getMinutes
      omega
    rw [formatDateAt, formatDate, hhour, hminute]
  have htime : ∀ col : Nat, formatWeekTimeAt 480 col = formatWeekTime col := by
    intro col
    have hbegin := hdate (1542384000000 + col * 1800000)
    have hstop := hdate (1542384000000 + col * 1800000 + 1800000)
    push_cast at hbegin hstop
    simp only [formatWeekTimeAt, formatWeekTime, hbegin, hstop]
  simp only [weekTimeDataAt, weekTimeData, dataAt, data, htime]

/-! ## The rows of the grid -/

/-- The slot of a grid in a zone. -/
def itemAt (offset : Int) (selected : Fin 7 → Fin 48 → Bool) (row : Fin 7) (col : Fin 48) : Item :=
  { week := ["星期一", "星期二", "星期三", "星期四", "星期五", "星期六", "星期日"].getD row.val ""
    value := formatWeekTimeAt offset col.val
    begin := clock (boundary offset col.val)
    stop := clock (boundary offset (col.val + 1))
    row
    col
    checked := selected row col }

/-- The row of a grid in a zone. -/
def dayAt (offset : Int) (selected : Fin 7 → Fin 48 → Bool) (row : Fin 7) : Day :=
  { value := ["星期一", "星期二", "星期三", "星期四", "星期五", "星期六", "星期日"].getD row.val ""
    row
    child := (List.finRange 48).map (itemAt offset selected row) }

theorem weekTimeDataAt_eq (offset : Int) (selected : Fin 7 → Fin 48 → Bool) :
    weekTimeDataAt offset selected = (List.finRange 7).map (dayAt offset selected) := by
  rw [weekTimeDataAt, dataAt, List.map_map]
  refine List.map_congr_left fun row _ => ?_
  simp only [Function.comp_apply, dayAt, List.map_map, Day.mk.injEq, true_and]
  refine List.map_congr_left fun col _ => ?_
  simp [itemAt, split_formatWeekTimeAt]

theorem weekTimeDataAt_inj {offset : Int} {selected selected' : Fin 7 → Fin 48 → Bool}
    (h : weekTimeDataAt offset selected = weekTimeDataAt offset selected') : selected = selected' := by
  rw [weekTimeDataAt_eq, weekTimeDataAt_eq] at h
  funext row col
  have hday := List.map_inj_left.mp h row (List.mem_finRange row)
  have hitem := List.map_inj_left.mp (congrArg Day.child hday) col (List.mem_finRange col)
  exact congrArg Item.checked hitem

/-- The text of a row of a grid in a zone. -/
def rowValueAt (offset : Int) (selected : Fin 7 → Fin 48 → Bool) (row : Fin 7) : String :=
  Text.join "、" ((closeRuns (inRow selected row) 48).reverse.map
    (runText fun i => clock (boundary offset i)))

theorem dealTimePeriodAt_eq (offset : Int) (selected : Fin 7 → Fin 48 → Bool) :
    dealTimePeriod (weekTimeDataAt offset selected) =
      (List.finRange 7).map fun row => (rowKey row, rowValueAt offset selected row) := by
  rw [dealTimePeriod, weekTimeDataAt_eq, List.map_map]
  refine List.map_congr_left fun row _ => ?_
  have hlen : (dayAt offset selected row).child.length = 48 := by
    rw [dayAt, List.length_map, List.length_finRange]
  have hrow : IsRow (fun i => clock (boundary offset i)) (inRow selected row)
      (dayAt offset selected row).child := by
    intro i hi
    have hi48 : i < 48 := hlen ▸ hi
    simp only [dayAt, List.getElem_map, List.getElem_finRange, itemAt, Fin.val_cast, inRow,
      dif_pos hi48]
    trivial
  have htext := splicing_eq hrow
  rw [hlen] at htext
  exact Prod.ext (if_congr Fin.ext_iff rfl rfl) htext

/-! ## Reading a label -/

theorem number_hour : ∀ h : Fin 24,
    numberOf (if Text.hasPrefix (twoDigits h.val) "0" then
      String.ofList ((twoDigits h.val).toList.drop 1) else twoDigits h.val) = some h.val := by
  decide

theorem take_clock {m : Nat} (h : m < 1440) :
    String.ofList ((clock m).toList.take 2) = twoDigits (m / 60) := by
  have hhour := twoDigits_toList ⟨m / 60, by omega⟩
  simp only at hhour
  rw [clock_toList h, List.take_succ_cons, List.take_succ_cons, List.take_zero, ← hhour,
    String.ofList_toList]

/-- A label holds `30` exactly when that are its minutes. -/
theorem hasInfix_clock {m : Nat} (h : m < 1440) :
    Text.hasInfix (clock m) "30" = true ↔ m % 60 = 30 := by
  have hthree : ∀ d : Fin 10, '3' = digitChar d.val ↔ d.val = 3 := by decide
  have hzero : ∀ d : Fin 10, '0' = digitChar d.val ↔ d.val = 0 := by decide
  have hthree' : ∀ d, d < 10 → ('3' = digitChar d ↔ d = 3) := fun d hd => hthree ⟨d, hd⟩
  have hzero' : ∀ d, d < 10 → ('0' = digitChar d ↔ d = 0) := fun d hd => hzero ⟨d, hd⟩
  have htext : "30".toList = ['3', '0'] := by decide
  rw [Text.hasInfix_iff, clock_toList h, htext]
  simp only [List.infix_cons_iff, List.cons_prefix_cons, List.nil_prefix, and_true,
    List.infix_nil, List.prefix_nil]
  rw [hthree' _ (by omega), hthree' _ (by omega), hzero' _ (by omega), hthree' _ (by omega),
    hzero' _ (by omega), hthree' _ (by omega)]
  have hcolon : ¬ '0' = ':' := by decide
  have hcolon' : ¬ '3' = ':' := by decide
  simp only [hcolon, hcolon', and_false, false_or, false_and, List.cons_ne_nil, or_false]
  rw [hzero' _ (by omega)]
  omega

theorem countIndex_clock {m : Nat} (h : m < 1440) : countIndex (clock m) = some (readIndex m) := by
  have hhour := number_hour ⟨m / 60, by omega⟩
  simp only at hhour
  unfold countIndex
  simp only [take_clock h, hhour]
  by_cases hhalf : m % 60 = 30
  · simp [hasInfix_clock h, hhalf, readIndex]
  · simp [hasInfix_clock h, hhalf, readIndex]

/-! ## Rendering -/

/-- Slots of a row that are checked in addition. -/
def mark (selected : Fin 7 → Fin 48 → Bool) (row : Fin 7) (more : Nat → Bool) :
    Fin 7 → Fin 48 → Bool :=
  fun row' col => selected row' col || (decide (row' = row) && more col.val)

theorem endIndex_readIndex_le {m : Nat} (h : m < 1440) : endIndex (readIndex m) ≤ 48 := by
  unfold endIndex readIndex
  split <;> split <;> omega

theorem set_map_finRange {α : Type} {n : Nat} (f : Fin n → α) (i : Fin n) (a : α) :
    ((List.finRange n).map f).set i.val a = (List.finRange n).map (Function.update f i a) := by
  refine List.ext_getElem (by simp) fun j hj _ => ?_
  have hjn : j < n := by simpa using hj
  by_cases hij : i.val = j
  · have heq : i = ⟨j, hjn⟩ := Fin.ext hij
    simp [heq]
  · have hne : (⟨j, hjn⟩ : Fin n) ≠ i := fun heq => hij (congrArg Fin.val heq).symm
    rw [List.getElem_set_ne hij]
    simp [Function.update_of_ne hne]

theorem checkSlots_dayAt (offset : Int) (selected : Fin 7 → Fin 48 → Bool) (row : Fin 7)
    (startVal endVal : Nat) :
    checkSlots (dayAt offset selected row) startVal endVal =
      dayAt offset (mark selected row fun i => decide (startVal ≤ i ∧ i < endVal)) row := by
  unfold checkSlots dayAt
  simp only [Day.mk.injEq, true_and]
  refine List.ext_getElem (by simp) fun i hi _ => ?_
  simp only [List.getElem_mapIdx, List.getElem_map, List.getElem_finRange, itemAt, mark,
    decide_true, Bool.true_and, Fin.val_cast]
  by_cases hin : startVal ≤ i ∧ i < endVal
  · simp [hin]
  · simp [hin]

/-- Rendering a range checks the slots between the numbers that are read from its ends. -/
theorem renderTimePeriod_range (offset : Int) (selected : Fin 7 → Fin 48 → Bool) (row : Fin 7)
    (r : Nat × Nat) :
    renderTimePeriod (weekTimeDataAt offset selected) (rowKey row)
        (runText (fun i => clock (boundary offset i)) r) =
      some (weekTimeDataAt offset (mark selected row fun i =>
        decide (slotIndex offset r.1 ≤ i ∧ i < endIndex (slotIndex offset r.2)))) := by
  have hsplit : Text.split (runText (fun i => clock (boundary offset i)) r) '~' =
      [clock (boundary offset r.1), clock (boundary offset r.2)] := by
    have hnot : ∀ c, '~' ∉ (clock (boundary offset c)).toList :=
      not_mem_clock (by decide) (by decide) offset
    rw [runText, Text.split_append_sep (hnot _) (by decide), Text.split_of_not_mem (hnot _)]
  have hrow : (if rowKey row = 0 then 6 else rowKey row - 1 : Int) = row.val := by
    revert row
    decide
  have hle : endIndex (slotIndex offset r.2) ≤ 48 := endIndex_readIndex_le (boundary_lt _ _)
  unfold renderTimePeriod
  simp only [hsplit, countIndex_clock (boundary_lt offset _), hrow]
  change (if slotIndex offset r.1 < endIndex (slotIndex offset r.2) then _ else _) = _
  by_cases hlt : slotIndex offset r.1 < endIndex (slotIndex offset r.2)
  · rw [if_pos hlt, if_neg (by omega)]
    have hday : (weekTimeDataAt offset selected)[(row.val : Int).toNat]? =
        some (dayAt offset selected row) := by
      rw [weekTimeDataAt_eq, Int.toNat_natCast, List.getElem?_eq_some_iff]
      exact ⟨by simp, by simp⟩
    have hlen : (dayAt offset selected row).child.length = 48 := by
      rw [dayAt, List.length_map, List.length_finRange]
    rw [hday]
    change (if endIndex (slotIndex offset r.2) ≤ (dayAt offset selected row).child.length then
      _ else _) = _
    rw [hlen, if_pos hle, weekTimeDataAt_eq, weekTimeDataAt_eq, Int.toNat_natCast]
    refine congrArg some ((set_map_finRange _ row _).trans (List.map_congr_left fun row' _ => ?_))
    by_cases heq : row' = row
    · subst heq
      rw [Function.update_self]
      exact checkSlots_dayAt _ _ _ _ _
    · rw [Function.update_of_ne heq]
      simp [dayAt, itemAt, mark, heq]
  · rw [if_neg hlt]
    congr 2
    funext row' col
    have hnone : ¬ (slotIndex offset r.1 ≤ col.val ∧ col.val < endIndex (slotIndex offset r.2)) := by
      omega
    simp [mark, hnone]

/-- Checking twice is checking both. -/
theorem mark_mark (selected : Fin 7 → Fin 48 → Bool) (row : Fin 7) (more more' : Nat → Bool) :
    mark (mark selected row more) row more' = mark selected row fun i => more i || more' i := by
  funext row' col
  simp only [mark]
  cases selected row' col <;> cases decide (row' = row) <;> rfl

/-- Rendering the ranges of a row one after the other. -/
theorem foldlM_ranges (offset : Int) (row : Fin 7) (rs : List (Nat × Nat))
    (selected : Fin 7 → Fin 48 → Bool) :
    (rs.map (runText fun i => clock (boundary offset i))).foldlM
        (fun weekTimeData cv => renderTimePeriod weekTimeData (rowKey row) cv)
        (weekTimeDataAt offset selected) =
      some (weekTimeDataAt offset (mark selected row fun i => rs.any fun r =>
        decide (slotIndex offset r.1 ≤ i ∧ i < endIndex (slotIndex offset r.2)))) := by
  induction rs generalizing selected with
  | nil =>
    have hnone : (mark selected row fun _ => false) = selected := by
      funext row' col
      simp [mark]
    exact congrArg (fun s => some (weekTimeDataAt offset s)) hnone.symm
  | cons r rs ih =>
    rw [List.map_cons, List.foldlM_cons, renderTimePeriod_range]
    refine (ih _).trans ?_
    rw [mark_mark]
    rfl

/-- Rendering the value of a row that was saved for a selection. -/
theorem foldlM_rowValueAt (offset : Int) (saved selected : Fin 7 → Fin 48 → Bool) (row : Fin 7) :
    (if (rowValueAt offset saved row).isEmpty then some (weekTimeDataAt offset selected)
      else (Text.split (rowValueAt offset saved row) '、').foldlM
        (fun weekTimeData cv => renderTimePeriod weekTimeData (rowKey row) cv)
        (weekTimeDataAt offset selected)) =
      some (weekTimeDataAt offset
        (mark selected row (shown (slotIndex offset) (inRow saved row)))) := by
  have hloop := foldlM_ranges offset row (closeRuns (inRow saved row) 48).reverse selected
  simp only [List.any_reverse] at hloop
  have hpieces : ∀ t ∈ (closeRuns (inRow saved row) 48).reverse.map
      (runText fun i => clock (boundary offset i)), '、' ∉ t.toList ∧ t ≠ "" := by
    intro t ht
    obtain ⟨r, -, rfl⟩ := List.mem_map.mp ht
    have hnot : ∀ c, '、' ∉ (clock (boundary offset c)).toList :=
      not_mem_clock (by decide) (by decide) offset
    have htilde : '、' ∉ "~".toList := by decide
    refine ⟨?_, fun hempty => ?_⟩
    · simp only [runText, String.toList_append, List.mem_append, not_or]
      exact ⟨⟨hnot _, htilde⟩, hnot _⟩
    · have hmem : '~' ∈ (runText (fun i => clock (boundary offset i)) r).toList := by
        simp [runText]
      rw [hempty] at hmem
      exact absurd hmem (by decide)
  cases hruns : (closeRuns (inRow saved row) 48).reverse.map
      (runText fun i => clock (boundary offset i)) with
  | nil =>
    rw [hruns] at hloop
    rw [rowValueAt, hruns, if_pos (by decide)]
    exact hloop
  | cons t ts =>
    have hsplit : Text.split (rowValueAt offset saved row) '、' = t :: ts := by
      rw [rowValueAt, Text.split_join (by decide) (by rw [hruns]; exact List.cons_ne_nil _ _)
        fun t ht => (hpieces t ht).1, hruns]
    have hne : ¬ (rowValueAt offset saved row).isEmpty = true := by
      intro hempty
      rw [String.isEmpty_iff.mp hempty] at hsplit
      have hhead : t = "" := (List.cons.inj hsplit).1.symm
      exact (hpieces t (by rw [hruns]; exact List.mem_cons_self)).2 hhead
    rw [if_neg hne, hsplit, ← hruns]
    exact hloop

/-- Rendering the periods of rows. -/
theorem foldlM_periods (offset : Int) (saved : Fin 7 → Fin 48 → Bool) (rows : List (Fin 7))
    (selected : Fin 7 → Fin 48 → Bool) :
    (rows.map fun row => (rowKey row, rowValueAt offset saved row)).foldlM
        (fun weekTimeData period =>
          if period.2.isEmpty then some weekTimeData
          else (Text.split period.2 '、').foldlM (fun weekTimeData cv =>
            renderTimePeriod weekTimeData period.1 cv) weekTimeData)
        (weekTimeDataAt offset selected) =
      some (weekTimeDataAt offset fun row col => selected row col ||
        (decide (row ∈ rows) && shown (slotIndex offset) (inRow saved row) col.val)) := by
  induction rows generalizing selected with
  | nil => simp
  | cons row rows ih =>
    rw [List.map_cons, List.foldlM_cons, foldlM_rowValueAt]
    refine (ih _).trans (congrArg (fun s => some (weekTimeDataAt offset s)) ?_)
    funext row' col
    by_cases heq : row' = row
    · subst heq
      cases hshown : shown (slotIndex offset) (inRow saved row') col.val <;> simp [mark, hshown]
    · simp [mark, heq]

theorem handleClearWeekTime_eq (offset : Int) (selected : Fin 7 → Fin 48 → Bool) :
    handleClearWeekTime (weekTimeDataAt offset selected) =
      weekTimeDataAt offset fun _ _ => false := by
  rw [handleClearWeekTime, weekTimeDataAt_eq, weekTimeDataAt_eq, List.map_map]
  refine List.map_congr_left fun row _ => ?_
  simp [dayAt, itemAt]

/-- **Rendering what was saved** checks the slots that the labels are read as, whatever was selected
before. -/
theorem renderWeekTime_dealTimePeriod (offset : Int) (old selected : Fin 7 → Fin 48 → Bool) :
    renderWeekTime (weekTimeDataAt offset old) (dealTimePeriod (weekTimeDataAt offset selected)) =
      some (weekTimeDataAt offset fun row col =>
        shown (slotIndex offset) (inRow selected row) col.val) := by
  rw [renderWeekTime, handleClearWeekTime_eq, dealTimePeriodAt_eq, foldlM_periods]
  simp

/-! ## The condition -/

/-- A row that is shown again in a zone whose labels are read as full hours holds whole hours. -/
theorem hours_of_shownAgain {idx : Nat → Nat} {p : Nat → Bool} (heven : ∀ c, idx c % 2 = 0)
    (h : ShownAgain idx p) {i j : Nat} (hi : i < 48) (hj : j < 48) (hij : i / 2 = j / 2) :
    p i = p j := by
  rw [← h i hi, ← h j hj, Bool.eq_iff_iff, shown_iff, shown_iff]
  refine exists_congr fun r => and_congr_right fun _ => ?_
  have hbegin := heven r.1
  have hend : endIndex (idx r.2) % 2 = 0 := by
    have := heven r.2
    unfold endIndex
    split <;> omega
  omega

/-- The runs of a row of whole hours begin and end with an hour. -/
theorem even_of_isRun {p : Nat → Bool} {r : Nat × Nat} (hrun : IsRun p 48 r)
    (hours : ∀ i < 48, ∀ j < 48, i / 2 = j / 2 → p i = p j) : r.1 % 2 = 0 ∧ r.2 % 2 = 0 := by
  have hne := hrun.nonempty
  have hle := hrun.le
  constructor
  · by_contra hodd
    have hprev := hrun.left (r.1 - 1) (by omega)
    rw [hours _ (by omega) r.1 (by omega) (by omega), hrun.all r.1 le_rfl hne] at hprev
    exact Bool.false_ne_true hprev.symm
  · by_contra hodd
    have hnext := hrun.right (by omega)
    rw [hours _ (by omega) (r.2 - 1) (by omega) (by omega),
      hrun.all (r.2 - 1) (by omega) (by omega)] at hnext
    exact Bool.false_ne_true hnext.symm

theorem turn_lt (offset : Int) : turn offset < 48 := by
  have hfirst : firstSlot offset < 48 := by
    unfold firstSlot
    omega
  unfold turn
  split <;> omega

/-- The ends of the runs are turned, when the row holds whole hours or the zone begins with a half
hour. -/
theorem slotIndex_turned {offset : Int} {p : Nat → Bool}
    (hours : 30 ∣ offset ∨ ∀ i < 48, ∀ j < 48, i / 2 = j / 2 → p i = p j) :
    ∀ r ∈ closeRuns p 48, slotIndex offset r.1 = (turn offset + r.1) % 48 ∧
      slotIndex offset r.2 = (turn offset + r.2) % 48 := by
  intro r hr
  unfold turn
  by_cases hdvd : 30 ∣ offset
  · rw [if_pos hdvd]
    exact ⟨slotIndex_of_dvd hdvd _, slotIndex_of_dvd hdvd _⟩
  · obtain ⟨hbegin, hend⟩ := even_of_isRun ((runs_closeRuns p 48).isRun r hr)
      (hours.resolve_left hdvd)
    rw [if_neg hdvd, slotIndex_of_not_dvd hdvd, slotIndex_of_not_dvd hdvd]
    omega

theorem shownAgain_iff {offset : Int} {selected : Fin 7 → Fin 48 → Bool} {row : Fin 7} :
    ShownAgain (slotIndex offset) (inRow selected row) ↔ Redrawable offset (selected row) := by
  have hin : ∀ i : Fin 48, inRow selected row i.val = selected row i := fun i => dif_pos i.isLt
  have hin' : ∀ i (h : i < 48), inRow selected row i = selected row ⟨i, h⟩ := fun i h => dif_pos h
  constructor
  · intro h
    have hhours : 30 ∣ offset ∨ ∀ i < 48, ∀ j < 48, i / 2 = j / 2 →
        inRow selected row i = inRow selected row j := by
      by_cases hdvd : 30 ∣ offset
      · exact .inl hdvd
      · refine .inr fun i hi j hj hij => hours_of_shownAgain (fun c => ?_) h hi hj hij
        rw [slotIndex_of_not_dvd hdvd]
        omega
    have hturned := (shownAgain_iff_turned (turn_lt offset) (slotIndex_turned hhours)).mp h
    refine ⟨hhours.imp_right fun hhours i j hij => ?_, hturned.imp_right fun ⟨hsame, hnot⟩ => ?_⟩
    · rw [← hin i, ← hin j]
      exact hhours _ i.isLt _ j.isLt hij
    · refine ⟨fun i j hij => ?_, ?_⟩
      · rw [← hin i, ← hin j, hij]
        exact hsame _ i.isLt
      · rw [← hin 0, ← hin 47]
        exact hnot
  · rintro ⟨hours, turned⟩
    have hhours : 30 ∣ offset ∨ ∀ i < 48, ∀ j < 48, i / 2 = j / 2 →
        inRow selected row i = inRow selected row j := by
      refine hours.imp_right fun hours i hi j hj hij => ?_
      rw [hin' i hi, hin' j hj]
      exact hours _ _ hij
    refine (shownAgain_iff_turned (turn_lt offset) (slotIndex_turned hhours)).mpr ?_
    refine turned.imp_right fun ⟨hsame, hnot⟩ => ⟨fun i hi => ?_, ?_⟩
    · rw [hin' i hi, hin' _ (Nat.mod_lt _ (by decide))]
      exact hsame _ _ rfl
    · rw [hin' 0 (by decide), hin' 47 (by decide)]
      exact hnot

/-- **The grid shows what was saved** exactly when every row can be redrawn in the zone. -/
theorem renderWeekTime_iff (offset : Int) (old selected : Fin 7 → Fin 48 → Bool) :
    renderWeekTime (weekTimeDataAt offset old) (dealTimePeriod (weekTimeDataAt offset selected)) =
        some (weekTimeDataAt offset selected) ↔
      ∀ row, Redrawable offset (selected row) := by
  rw [renderWeekTime_dealTimePeriod, Option.some_inj]
  constructor
  · intro h row
    have hselected := weekTimeDataAt_inj h
    refine shownAgain_iff.mp fun i hi => ?_
    have hslot := congrFun (congrFun hselected row) ⟨i, hi⟩
    rw [inRow, dif_pos hi]
    exact hslot
  · intro h
    congr 1
    funext row col
    exact (shownAgain_iff.mpr (h row) col.val col.isLt).trans (dif_pos col.isLt)

/-- In UTC the first slot of Monday is saved as `16:00~16:30` and shown as another one. -/
theorem not_renderWeekTime_utc :
    ¬ ∀ (offset : Int) (old selected : Fin 7 → Fin 48 → Bool),
      renderWeekTime (weekTimeDataAt offset old)
          (dealTimePeriod (weekTimeDataAt offset selected)) =
        some (weekTimeDataAt offset selected) := by
  intro h
  have hgrid := h 0 (fun _ _ => false) fun row col => decide (row = 0 ∧ col = 0)
  rw [renderWeekTime_dealTimePeriod, Option.some_inj] at hgrid
  have hslot := congrFun (congrFun (weekTimeDataAt_inj hgrid) 0) 0
  revert hslot
  decide

end DragWeekTime

end NextDBM
