import Mathlib.Data.List.Perm.Basic
import NextDBM.Jobs.CheckStatus

/-!
# Proofs: runs of the status check

The assets are those of the goroutines before their update, those at a send and those whose line was taken,
and the job waits for as many lines as there are goroutines. So some step is always next until the job has
ended, and then every line was taken.
-/

namespace NextDBM

namespace CheckRun

open Relational Transition

variable {job : CheckJobCall} {calls : Asset → CheckCalls} {table : Table Asset Asset.id} {s t : State}
  {a : Action} {asset row : Asset}

/-! ## Steps -/

/-- What a step does. -/
theorem step_cases (h : step job calls s a = some t) :
    (∃ i ok asset, a = .finish i ok ∧ s.checking[i]? = some asset ∧
      t = { s with
        checking := s.checking.eraseIdx i
        sending := asset :: s.sending
        updated := if ok then asset.id :: s.updated else s.updated
        assets := if ok then
            s.assets.updateById asset.id (update (calls asset) asset) (update_id (calls asset) asset)
          else s.assets }) ∨
    (∃ i n asset, a = .receive i ∧ s.main = .receiving (n + 1) ∧ s.sending[i]? = some asset ∧
      t = { s with
        main := .receiving n
        sending := s.sending.eraseIdx i
        received := s.received ++ [lineOf (calls asset) asset] }) ∨
    (a = .record ∧ s.main = .receiving 0 ∧
      t = { s with
        main := .ended
        logs := if job.created = .ok () then
            { id := job.logId, jobId := job.id, message := ShellRun.joined s.received } :: s.logs
          else s.logs }) ∨
    ∃ assets, a = .others assets ∧ t = { s with assets } := by
  cases a with
  | finish i ok =>
    obtain ⟨asset, hasset, rfl⟩ := Option.map_eq_some_iff.mp h
    exact .inl ⟨i, ok, asset, rfl, hasset, rfl⟩
  | receive i =>
    have h : receive calls s i = some t := h
    unfold receive at h
    split at h
    · next n hmain =>
      obtain ⟨asset, hasset, rfl⟩ := Option.map_eq_some_iff.mp h
      exact .inr (.inl ⟨i, n, asset, rfl, hmain, hasset, rfl⟩)
    · cases h
  | record =>
    have h : record job s = some t := h
    unfold record at h
    split at h
    · next hmain hcreated =>
      obtain rfl := Option.some.inj h
      exact .inr (.inr (.inl ⟨rfl, hmain, by rw [if_pos hcreated]⟩))
    · next hmain hcreated =>
      obtain rfl := Option.some.inj h
      exact .inr (.inr (.inl ⟨rfl, hmain, by rw [if_neg (by simp [hcreated])]⟩))
    · cases h
  | others assets => exact .inr (.inr (.inr ⟨assets, rfl, (Option.some.inj h).symm⟩))

/-! ## What the goroutines keep -/

/-- The assets of the job, by where their goroutines are. -/
structure Underway (job : CheckJobCall) (calls : Asset → CheckCalls) (assets : List Asset) (s : State)
    (taken : List Asset) : Prop where
  received : s.received = taken.map fun asset => lineOf (calls asset) asset
  all : (s.checking ++ s.sending ++ taken).Perm assets
  main : (s.main = .receiving (s.checking.length + s.sending.length) ∧ s.logs = []) ∨
    (s.main = .ended ∧ s.checking = [] ∧ s.sending = [] ∧
      s.logs = if job.created = .ok () then
          [{ id := job.logId, jobId := job.id, message := ShellRun.joined s.received }]
        else [])

/-- The job had nothing to do. -/
structure Nothing (s : State) : Prop where
  main : s.main = .ended
  checking : s.checking = []
  sending : s.sending = []
  logs : s.logs = []

def Runs (job : CheckJobCall) (table : Table Asset Asset.id) : Prop :=
  job.id ≠ "" ∧ assetsOf job table ≠ []

/-- What every state of a run meets. -/
structure Sound (job : CheckJobCall) (calls : Asset → CheckCalls) (table : Table Asset Asset.id) (s : State) :
    Prop where
  flow : (¬ Runs job table ∧ Nothing s) ∨
    (Runs job table ∧ ∃ taken, Underway job calls (assetsOf job table) s taken)
  checked : ∀ asset ∈ assetsOf job table, asset.id ∈ s.updated →
    ∀ row ∈ s.assets, row.id = asset.id → Tells calls asset row
  kept : ∀ row ∈ s.assets, row.id ∉ s.updated → ∃ old ∈ table, old.id = row.id ∧
    row.active = old.active ∧ row.activeMessage = old.activeMessage

theorem start_cases (job : CheckJobCall) (table : Table Asset Asset.id) :
    (¬ Runs job table ∧ start job table = { main := .ended, assets := table }) ∨
    (Runs job table ∧ start job table =
      { main := .receiving (assetsOf job table).length, assets := table, checking := assetsOf job table }) := by
  unfold start Runs
  by_cases hid : job.id = ""
  · rw [if_pos hid]
    exact .inl ⟨fun h => h.1 hid, rfl⟩
  · rw [if_neg hid]
    cases hassets : assetsOf job table with
    | nil => exact .inl ⟨fun h => h.2 rfl, rfl⟩
    | cons asset assets => exact .inr ⟨⟨hid, List.cons_ne_nil _ _⟩, rfl⟩

theorem sound_start : Sound job calls table (start job table) := by
  rcases start_cases job table with ⟨hruns, heq⟩ | ⟨hruns, heq⟩
  · rw [heq]
    exact ⟨.inl ⟨hruns, rfl, rfl, rfl, rfl⟩, fun _ _ h => absurd h List.not_mem_nil,
      fun row hrow _ => ⟨row, hrow, rfl, rfl, rfl⟩⟩
  · rw [heq]
    refine ⟨.inr ⟨hruns, [], rfl, ?_, .inl ⟨?_, rfl⟩⟩, fun _ _ h => absurd h List.not_mem_nil,
      fun row hrow _ => ⟨row, hrow, rfl, rfl, rfl⟩⟩
    · simp
    · simp

theorem nodup_assetsOf (job : CheckJobCall) (table : Table Asset Asset.id) :
    ((assetsOf job table).map Asset.id).Nodup := by
  unfold assetsOf
  split
  · split
    · exact table.nodup
    · exact table.nodup.sublist (List.filter_sublist.map Asset.id)
  · exact List.nodup_nil

theorem tells_update (asset a : Asset) : Tells calls asset (update (calls asset) asset a) := by
  unfold update
  cases hcheck : checkStatus (calls asset) asset with
  | ok u => exact ⟨by rw [hcheck]; rfl, by rw [hcheck]; rfl⟩
  | error err => exact ⟨by rw [hcheck]; rfl, by rw [hcheck]; rfl⟩

/-- A goroutine stores its result. -/
theorem Sound.finish {i : Nat} {ok : Bool} (h : Sound job calls table s) (hasset : s.checking[i]? = some asset) :
    Sound job calls table { s with
      checking := s.checking.eraseIdx i
      sending := asset :: s.sending
      updated := if ok then asset.id :: s.updated else s.updated
      assets := if ok then
          s.assets.updateById asset.id (update (calls asset) asset) (update_id (calls asset) asset)
        else s.assets } := by
  obtain ⟨hi, hget⟩ := List.getElem?_eq_some_iff.mp hasset
  have hmoved := List.getElem_cons_eraseIdx_perm hi
  rw [hget] at hmoved
  have hmem : asset ∈ s.checking := List.mem_of_getElem? hasset
  rcases h.flow with ⟨-, hnothing⟩ | ⟨hruns, taken, hflow⟩
  · rw [hnothing.checking] at hmem
    exact absurd hmem List.not_mem_nil
  have hall : (s.checking.eraseIdx i ++ asset :: s.sending ++ taken).Perm (assetsOf job table) := by
    refine List.Perm.trans (List.Perm.append_right taken ?_) hflow.all
    exact List.perm_middle.trans (hmoved.append_right s.sending)
  refine ⟨.inr ⟨hruns, taken, hflow.received, hall, ?_⟩, ?_, ?_⟩
  · rcases hflow.main with ⟨hmain, hlogs⟩ | ⟨-, hchecking, -, -⟩
    · refine .inl ⟨hmain.trans (congrArg Main.receiving ?_), hlogs⟩
      have := List.length_eraseIdx_of_lt hi
      simp only [List.length_cons]
      omega
    · rw [hchecking] at hmem
      exact absurd hmem List.not_mem_nil
  · intro other hother hupdated row hrow hid
    cases ok with
    | false => exact h.checked other hother hupdated row hrow hid
    | true =>
      have hin : asset ∈ assetsOf job table :=
        hflow.all.subset (List.mem_append_left _ (List.mem_append_left _ hmem))
      by_cases heq : other.id = asset.id
      · obtain rfl : other = asset :=
          List.inj_on_of_nodup_map (nodup_assetsOf job table) hother hin heq
        obtain ⟨b, -, -, rfl⟩ := Table.exists_of_mem_updateById (update_id (calls other) other) hrow hid
        exact tells_update other b
      · rcases Table.mem_updateById (update_id (calls asset) asset) hrow with hold | ⟨b, -, hb, rfl⟩
        · exact h.checked other hother ((List.mem_cons.mp hupdated).resolve_left heq) row hold hid
        · rw [update_id] at hid
          exact absurd (hid.symm.trans hb) heq
  · intro row hrow hnot
    cases ok with
    | false => exact h.kept row hrow hnot
    | true =>
      rcases Table.mem_updateById (update_id (calls asset) asset) hrow with hold | ⟨b, -, hb, rfl⟩
      · exact h.kept row hold fun hmem => hnot (List.mem_cons_of_mem _ hmem)
      · refine absurd ?_ hnot
        rw [update_id, hb]
        exact List.mem_cons_self

/-- The job takes a line. -/
theorem Sound.receive {i n : Nat} (h : Sound job calls table s) (hmain : s.main = .receiving (n + 1))
    (hasset : s.sending[i]? = some asset) :
    Sound job calls table { s with
      main := .receiving n
      sending := s.sending.eraseIdx i
      received := s.received ++ [lineOf (calls asset) asset] } := by
  obtain ⟨hi, hget⟩ := List.getElem?_eq_some_iff.mp hasset
  have hmoved := List.getElem_cons_eraseIdx_perm hi
  rw [hget] at hmoved
  refine ⟨?_, h.checked, h.kept⟩
  rcases h.flow with ⟨-, hnothing⟩ | ⟨hruns, taken, hflow⟩
  · rw [hnothing.main] at hmain
    cases hmain
  · refine .inr ⟨hruns, taken ++ [asset], ?_, ?_, ?_⟩
    · simp only [hflow.received, List.map_append, List.map_cons, List.map_nil]
    · refine List.Perm.trans ?_ hflow.all
      rw [List.append_assoc, List.append_assoc]
      refine List.Perm.append_left s.checking ?_
      refine List.Perm.trans ?_ (hmoved.append_right taken)
      rw [← List.append_assoc]
      exact List.perm_append_comm
    · rcases hflow.main with ⟨hwaits, hlogs⟩ | ⟨hended, -, -, -⟩
      · refine .inl ⟨congrArg Main.receiving ?_, hlogs⟩
        have hn := Main.receiving.inj (hmain.symm.trans hwaits)
        have := List.length_eraseIdx_of_lt hi
        show n = s.checking.length + (s.sending.eraseIdx i).length
        omega
      · rw [hended] at hmain
        cases hmain

/-- The job stores its log. -/
theorem Sound.record (h : Sound job calls table s) (hmain : s.main = .receiving 0) :
    Sound job calls table { s with
      main := .ended
      logs := if job.created = .ok () then
          { id := job.logId, jobId := job.id, message := ShellRun.joined s.received } :: s.logs
        else s.logs } := by
  refine ⟨?_, h.checked, h.kept⟩
  rcases h.flow with ⟨-, hnothing⟩ | ⟨hruns, taken, hflow⟩
  · rw [hnothing.main] at hmain
    cases hmain
  · refine .inr ⟨hruns, taken, hflow.received, hflow.all, .inr ?_⟩
    rcases hflow.main with ⟨hwaits, hlogs⟩ | ⟨hended, -, -, -⟩
    · have hn := Main.receiving.inj (hmain.symm.trans hwaits)
      have hchecking : s.checking.length = 0 := by omega
      have hsending : s.sending.length = 0 := by omega
      refine ⟨rfl, List.length_eq_zero_iff.mp hchecking, List.length_eq_zero_iff.mp hsending, ?_⟩
      simp only [hlogs]
    · rw [hended] at hmain
      cases hmain

/-- Others change the assets. -/
theorem Sound.others {assets : Table Asset Asset.id} (h : Sound job calls table s)
    (hapart : Apart s (.others assets)) : Sound job calls table { s with assets } := by
  refine ⟨?_, fun other hother hupdated row hrow hid => ?_, fun row hrow hnot => ?_⟩
  · rcases h.flow with ⟨hruns, hnothing⟩ | ⟨hruns, taken, hflow⟩
    · exact .inl ⟨hruns, hnothing.main, hnothing.checking, hnothing.sending, hnothing.logs⟩
    · exact .inr ⟨hruns, taken, hflow.received, hflow.all, hflow.main⟩
  · obtain ⟨b, hb, hkey, hactive, hmessage⟩ := hapart row hrow
    obtain ⟨htells, htext⟩ := h.checked other hother hupdated b hb (hkey.symm.trans hid)
    exact ⟨hactive.trans htells, hmessage.trans htext⟩
  · obtain ⟨b, hb, hkey, hactive, hmessage⟩ := hapart row hrow
    obtain ⟨old, hold, hid, hactive', hmessage'⟩ := h.kept b hb (hkey ▸ hnot)
    exact ⟨old, hold, hid.trans hkey.symm, hactive.trans hactive', hmessage.trans hmessage'⟩

theorem Sound.step (h : Sound job calls table s) (hapart : Apart s a)
    (hstep : step job calls s a = some t) : Sound job calls table t := by
  rcases step_cases hstep with ⟨i, ok, asset, -, hasset, rfl⟩ | ⟨i, n, asset, -, hmain, hasset, rfl⟩ |
    ⟨-, hmain, rfl⟩ | ⟨assets, rfl, rfl⟩
  · exact h.finish hasset
  · exact h.receive hmain hasset
  · exact h.record hmain
  · exact h.others hapart

theorem sound_of_run (h : Reaches job calls (start job table) s) : Sound job calls table s :=
  h.invariant (fun _ _ _ hs hok hst => hs.step hok hst) sound_start

/-! ## The end -/

theorem Sound.done (h : Sound job calls table s) (hended : s.main = .ended) : Done job calls table s := by
  rcases h.flow with ⟨hruns, hnothing⟩ | ⟨hruns, taken, hflow⟩
  · refine ⟨⟨hnothing.checking, hnothing.sending⟩,
      ⟨_, List.Perm.refl _, hnothing.logs.trans (if_neg ?_).symm⟩, h.checked, h.kept⟩
    exact fun hall => hruns ⟨hall.1, hall.2.1⟩
  · rcases hflow.main with ⟨hmain, -⟩ | ⟨-, hchecking, hsending, hlogs⟩
    · rw [hended] at hmain
      cases hmain
    · have hall := hflow.all
      rw [hchecking, hsending] at hall
      refine ⟨⟨hchecking, hsending⟩, ⟨s.received, ?_, ?_⟩, h.checked, h.kept⟩
      · rw [hflow.received]
        exact hall.map _
      · rw [hlogs]
        by_cases hcreated : job.created = .ok ()
        · rw [if_pos hcreated, if_pos ⟨hruns.1, hruns.2, hcreated⟩]
        · rw [if_neg hcreated, if_neg fun hall => hcreated hall.2.2]

/-- A job that has all its messages ends, stored log or not. -/
theorem exists_record (job : CheckJobCall) (hmain : s.main = .receiving 0) :
    ∃ t, CheckRun.record job s = some t ∧ t.main = .ended := by
  rw [CheckRun.record, hmain]
  cases job.created with
  | ok u => exact ⟨_, rfl, rfl⟩
  | error err => exact ⟨_, rfl, rfl⟩

/-- Some goroutine or the job can always go on. -/
theorem Sound.exists_step (h : Sound job calls table s) (hmain : s.main ≠ .ended) :
    ∃ a t, Own s a ∧ Apart s a ∧ CheckRun.step job calls s a = some t ∧
      (t.main = .ended ∨ 2 * t.checking.length + t.sending.length < 2 * s.checking.length + s.sending.length) := by
  rcases h.flow with ⟨-, hnothing⟩ | ⟨-, taken, hflow⟩
  · exact absurd hnothing.main hmain
  rcases hflow.main with ⟨hwaits, -⟩ | ⟨hended, -, -, -⟩
  · cases hchecking : s.checking with
    | cons asset rest =>
      have hget : s.checking[0]? = some asset := by rw [hchecking]; rfl
      refine ⟨.finish 0 true, _, trivial, trivial, by rw [CheckRun.step, CheckRun.finish, hget]; rfl, .inr ?_⟩
      simp only [hchecking, List.eraseIdx_cons_zero, List.length_cons]
      omega
    | nil =>
      cases hsending : s.sending with
      | cons asset rest =>
        have hget : s.sending[0]? = some asset := by rw [hsending]; rfl
        have hn : s.main = .receiving (rest.length + 1) := by
          rw [hwaits, hchecking, hsending]
          simp
        refine ⟨.receive 0, _, trivial, trivial, by rw [CheckRun.step, CheckRun.receive, hn, hget]; rfl,
          .inr ?_⟩
        simp only [hchecking, hsending, List.eraseIdx_cons_zero, List.length_cons, List.length_nil]
        omega
      | nil =>
        have hn : s.main = .receiving 0 := by
          rw [hwaits, hchecking, hsending]
          rfl
        obtain ⟨t, hrecord, hended⟩ := exists_record job hn
        exact ⟨.record, t, trivial, trivial, hrecord, .inl hended⟩
  · exact absurd hended hmain

theorem Sound.exists_end (h : Sound job calls table s) :
    ∃ t, Transition.Reaches (CheckRun.step job calls) Own s t ∧ t.main = .ended := by
  induction hn : 2 * s.checking.length + s.sending.length using Nat.strongRecOn generalizing s with
  | _ n ih =>
    by_cases hended : s.main = .ended
    · exact ⟨s, Reaches.refl s, hended⟩
    · obtain ⟨a, t, hown, hapart, hstep, hend | hlt⟩ := h.exists_step hended
      · exact ⟨t, Reaches.head hown hstep (Reaches.refl t), hend⟩
      · obtain ⟨u, hreach, hu⟩ := ih _ (hn ▸ hlt) (h.step hapart hstep) rfl
        exact ⟨u, Reaches.head hown hstep hreach, hu⟩

end CheckRun

end NextDBM
