import NextDBM.Jobs.SystemLoad

/-!
# Proofs: the load of the server

Whether the processors have been counted is all that a turn needs to know of those before it.
-/

namespace NextDBM

namespace SystemLoad

variable {ε F : Type} {ops : Arithmetic F} {r : Readings ε F} {rs : List (Readings ε F)} {s : Load F}
  {m : Measured F} {counted : Bool}

/-! ## Series -/

/-- Entries are appended to the last thirty of a list. -/
theorem push_rtake {α : Type} (xs : List α) (x : α) : push (xs.rtake 30) x = (xs ++ [x]).rtake 30 := by
  have hlast : (xs ++ [x]).rtake 30 = xs.rtake 29 ++ [x] := List.rtake_concat_succ xs 29 x
  rw [hlast]
  unfold push
  rw [List.length_append, List.length_singleton]
  by_cases hlong : 30 ≤ xs.length
  · have hlength : (xs.rtake 30).length = 30 := by
      rw [List.rtake, List.length_drop]
      omega
    have hnonempty : 1 ≤ (xs.rtake 30).length := by omega
    rw [if_pos (by omega), List.drop_append_of_le_length hnonempty, List.rtake, List.rtake, List.drop_drop]
    congr 2
    omega
  · have hlength : (xs.rtake 30).length = xs.length := by
      rw [List.rtake, List.length_drop]
      omega
    rw [if_neg (by omega), List.rtake, List.rtake]
    congr 2
    omega

def pushed {α : Type} (series : List α) (entry : Option α) : List α := entry.elim series (push series)

theorem pushed_rtake {α : Type} (xs : List α) (entry : Option α) :
    pushed (xs.rtake 30) entry = (xs ++ entry.toList).rtake 30 := by
  cases entry with
  | none => simp [pushed]
  | some x => exact push_rtake xs x

theorem appended_concat {α : Type} (entry : Bool → Readings ε F → Option α) (r : Readings ε F) :
    appended entry counted (rs ++ [r]) =
      appended entry counted rs ++ (entry (counted || rs.any Readings.counted) r).toList := by
  induction rs generalizing counted with
  | nil => simp [appended]
  | cons q rs ih => simp [appended, ih, List.append_assoc, Bool.or_assoc]

theorem upToCount_concat (r : Readings ε F) :
    upToCount (rs ++ [r]) = upToCount rs ++ if rs.any Readings.counted then [] else [r] := by
  induction rs with
  | nil => simp [upToCount]
  | cons q rs ih =>
    cases hq : q.counted with
    | true => simp [upToCount, hq]
    | false => simp [upToCount, hq, ih]

/-! ## One turn -/

theorem counted_of_measure (hm : measure r = .ok m) :
    r.counted = true ↔ ∃ count, r.counts = .ok count ∧ count ≠ 0 := by
  unfold Readings.counted
  rw [hm]
  cases r.counts <;> simp

theorem counted_of_error {err : ε} (hm : measure r = .error err) : r.counted = false := by
  unfold Readings.counted
  rw [hm]

theorem described_of_error {err : ε} (hm : measure r = .error err) : r.described = none := by
  unfold Readings.described
  rw [hm]

theorem sampled_of_error {err : ε} (hm : measure r = .error err) : r.sampled counted = none := by
  unfold Readings.sampled
  rw [hm]
  split <;> rfl

theorem completed_of_error {err : ε} (hm : measure r = .error err) : r.completed counted = none := by
  unfold Readings.completed
  rw [sampled_of_error hm]
  rfl

/-- What a turn whose counters could be read makes of the processors. -/
structure Describes (r : Readings ε F) (counted : Bool) (cpu : Cpu F) (d : Cpu F × Bool) : Prop where
  goesOn : d.2 = true ↔ counted = true ∨ r.described.isSome = true
  count : d.1.count ≠ 0 ↔ counted = true ∨ r.counted = true
  info : d.1.info = cpu.info ++ if counted then [] else r.described.getD []

theorem describes (hm : measure r = .ok m) {cpu : Cpu F} (hcount : cpu.count ≠ 0 ↔ counted = true) :
    Describes r counted cpu (describe r cpu) := by
  by_cases hzero : cpu.count = 0
  · have hfalse : counted = false := by
      rw [← Bool.not_eq_true, ← hcount]
      exact fun h => h hzero
    subst hfalse
    unfold describe
    rw [if_pos hzero]
    cases hcounts : r.counts with
    | error err =>
      have hdescribed : r.described = none := by
        unfold Readings.described
        rw [hm, hcounts]
      exact ⟨by simp [hdescribed], by simp [counted_of_measure hm, hcounts, hzero], by simp [hdescribed]⟩
    | ok count =>
      have hcounted : r.counted = true ↔ count ≠ 0 := by
        rw [counted_of_measure hm, hcounts]
        simp
      cases hphy : r.phyCounts with
      | error err =>
        have hdescribed : r.described = none := by
          unfold Readings.described
          rw [hm, hcounts, hphy]
        exact ⟨by simp [hdescribed], by simp [hcounted], by simp [hdescribed]⟩
      | ok phyCount =>
        cases hinfo : r.info with
        | error err =>
          have hdescribed : r.described = none := by
            unfold Readings.described
            rw [hm, hcounts, hphy, hinfo]
          exact ⟨by simp [hdescribed], by simp [hcounted], by simp [hdescribed]⟩
        | ok info =>
          have hdescribed : r.described = some info := by
            unfold Readings.described
            rw [hm, hcounts, hphy, hinfo]
          exact ⟨by simp [hdescribed], by simp [hcounted], by simp [hdescribed]⟩
  · have htrue : counted = true := hcount.mp hzero
    subst htrue
    unfold describe
    rw [if_neg hzero]
    exact ⟨by simp, by simp [hzero], by simp⟩

/-- What a turn does. -/
structure Turns (ops : Arithmetic F) (r : Readings ε F) (counted : Bool) (s s' : Load F) : Prop where
  count : s'.cpu.count ≠ 0 ↔ counted = true ∨ r.counted = true
  info : s'.cpu.info = s.cpu.info ++ if counted then [] else r.described.getD []
  cpuStat : s'.cpuStat = pushed s.cpuStat ((r.sampled counted).map (cpuEntry ops r))
  memStat : s'.memStat = pushed s.memStat ((r.completed counted).map fun x => memEntry ops r x.2)
  diskIOStat : s'.diskIOStat = pushed s.diskIOStat ((r.completed counted).map fun x => x.1.disk)
  netIOStat : s'.netIOStat = pushed s.netIOStat ((r.completed counted).map fun x => x.1.net)

theorem sampled_of_goesOn (hm : measure r = .ok m) (h : counted = true ∨ r.described.isSome = true) :
    r.sampled counted = some m := by
  unfold Readings.sampled
  rw [if_pos h, hm]
  rfl

/-- A turn that does not go through leaves the series of the memory, the disks and the interfaces. -/
theorem turns_of_not_completed {s' : Load F} (hcompleted : r.completed counted = none)
    (hcount : s'.cpu.count ≠ 0 ↔ counted = true ∨ r.counted = true)
    (hinfo : s'.cpu.info = s.cpu.info ++ if counted then [] else r.described.getD [])
    (hcpuStat : s'.cpuStat = pushed s.cpuStat ((r.sampled counted).map (cpuEntry ops r)))
    (hmemStat : s'.memStat = s.memStat) (hdisk : s'.diskIOStat = s.diskIOStat)
    (hnet : s'.netIOStat = s.netIOStat) : Turns ops r counted s s' := by
  refine ⟨hcount, hinfo, hcpuStat, ?_, ?_, ?_⟩
  · rw [hmemStat, hcompleted]
    rfl
  · rw [hdisk, hcompleted]
    rfl
  · rw [hnet, hcompleted]
    rfl

theorem turns (ops : Arithmetic F) (r : Readings ε F) (hcount : s.cpu.count ≠ 0 ↔ counted = true) :
    Turns ops r counted s (systemLoad ops r s) := by
  unfold systemLoad
  cases hm : measure r with
  | error err =>
    have hcounted := counted_of_error hm
    have hdescribed := described_of_error hm
    refine turns_of_not_completed (completed_of_error hm) ?_ ?_ ?_ rfl rfl rfl
    · simp [hcount, hcounted]
    · simp [hdescribed]
    · rw [sampled_of_error hm]
      rfl
  | ok m =>
    have hd := describes hm hcount
    simp only [sampleDisk]
    cases hdescribe : describe r s.cpu with
    | mk cpu goesOn =>
      rw [hdescribe] at hd
      cases goesOn with
      | false =>
        -- The turn ends before the series.
        have hnot : ¬ (counted = true ∨ r.described.isSome = true) := fun h => by
          cases hd.goesOn.mpr h
        have hsampled : r.sampled counted = none := by
          unfold Readings.sampled
          rw [if_neg hnot]
        have hcompleted : r.completed counted = none := by
          unfold Readings.completed
          rw [hsampled]
          rfl
        refine turns_of_not_completed hcompleted hd.count hd.info ?_ rfl rfl rfl
        rw [hsampled]
        rfl
      | true =>
        have hsampled := sampled_of_goesOn hm (hd.goesOn.mp rfl)
        have hcpuStat : push s.cpuStat (cpuEntry ops r m) =
            pushed s.cpuStat ((r.sampled counted).map (cpuEntry ops r)) := by
          rw [hsampled]
          rfl
        cases havg : r.avg with
        | error err =>
          have hcompleted : r.completed counted = none := by
            unfold Readings.completed
            rw [hsampled, havg]
            rfl
          exact turns_of_not_completed hcompleted hd.count hd.info hcpuStat rfl rfl rfl
        | ok avg =>
          cases hmem : r.virtualMemory with
          | error err =>
            have hcompleted : r.completed counted = none := by
              unfold Readings.completed
              rw [hsampled, havg, hmem]
              rfl
            exact turns_of_not_completed hcompleted hd.count hd.info hcpuStat rfl rfl rfl
          | ok mem =>
            have hcompleted : r.completed counted = some (m, mem) := by
              unfold Readings.completed
              rw [hsampled, havg, hmem]
              rfl
            refine ⟨hd.count, hd.info, hcpuStat, ?_, ?_, ?_⟩
            · rw [hcompleted]
              rfl
            · rw [hcompleted]
              rfl
            · rw [hcompleted]
              rfl

/-! ## Runs -/

theorem run_concat (rs : List (Readings ε F)) (r : Readings ε F) :
    run ops (rs ++ [r]) = systemLoad ops r (run ops rs) := by
  rw [run, List.foldl_append]
  rfl

/-- A series that each turn appends to as it is expected to. -/
theorem series_concat {α : Type} {series series' : List α} {entry : Bool → Readings ε F → Option α}
    (h : series = (appended entry false rs).rtake 30)
    (hstep : series' = pushed series (entry (rs.any Readings.counted) r)) :
    series' = (appended entry false (rs ++ [r])).rtake 30 := by
  rw [hstep, h, pushed_rtake, appended_concat, Bool.false_or]

/-- **The overview**: after any number of turns, whichever of their readings failed, each series has the
last thirty entries of the turns that got as far as to append to it; that of the processors may so run ahead
of the other three, which go together. The processors are described by the turns up to the one that counts
them, and never again. -/
theorem shows_of_run (ops : Arithmetic F) (rs : List (Readings ε F)) : Shows ops rs (run ops rs) := by
  have hall : Shows ops rs (run ops rs) ∧
      ((run ops rs).cpu.count ≠ 0 ↔ rs.any Readings.counted = true) := by
    induction rs using List.reverseRecOn with
    | nil => exact ⟨⟨rfl, rfl, rfl, rfl, rfl⟩, by simp [run]⟩
    | append_singleton rs r ih =>
      obtain ⟨hshows, hcount⟩ := ih
      have hturns := turns ops r hcount
      rw [run_concat]
      refine ⟨⟨?_, ?_, ?_, ?_, ?_⟩, ?_⟩
      · exact series_concat hshows.cpuStat hturns.cpuStat
      · exact series_concat hshows.memStat hturns.memStat
      · exact series_concat hshows.diskIOStat hturns.diskIOStat
      · exact series_concat hshows.netIOStat hturns.netIOStat
      · rw [hturns.info, hshows.info, upToCount_concat, List.flatMap_append]
        split <;> simp
      · rw [hturns.count]
        simp
  exact hall.1

end SystemLoad

end NextDBM
