import Mathlib.Data.List.Perm.Basic
import NextDBM.Jobs.ShellRun

/-!
# Proofs: runs of a shell job

Every step decreases a measure, so each run comes to an end. When the lookups succeed, the messages of
the goroutines and those received are those of the assets started, and there are as many to receive as
to send; so the end is that of the main goroutine. A message of the main goroutine itself is never
received.
-/

namespace NextDBM

namespace ShellRun

variable {job : ShellJobCall} {assets : List ShellAsset} {s t : State} {a : Action}

/-- The command is executed with the parameters of the shell jobs. -/
theorem params_of_lookup {c : Cipher} {db : Database} {id : String} {x : ShellAsset} {asset : Asset}
    {target : ShellTarget} (hfound : x.found = AssetRepository.findByIdAndDecrypt c db id)
    (hcredential : x.credential = CredentialService.findByIdAndDecrypt c db asset.credentialId)
    (h : lookup x = .ok (asset, target)) :
    ShellJob.params c db id = .ok
      { username := target.username
        password := target.password
        accessGatewayId := target.accessGatewayId } := by
  unfold lookup at h
  unfold ShellJob.params
  rw [← hfound]
  cases hx : x.found with
  | error e =>
    rw [hx] at h
    cases h
  | ok found =>
    rw [hx] at h
    refine bind_eq_ok.mpr ⟨found, rfl, ?_⟩
    by_cases htype : found.accountType = "credential"
    · simp only [if_pos htype] at h ⊢
      cases hc : x.credential with
      | error e =>
        rw [hc] at h
        cases h
      | ok credential =>
        rw [hc] at h
        obtain ⟨rfl, rfl⟩ := Prod.mk.inj (Except.ok.inj h)
        refine bind_eq_ok.mpr ⟨credential, hcredential ▸ hc, ?_⟩
        unfold credentialTarget
        by_cases hcustom : credential.type = nd.custom
        · rw [if_pos hcustom, if_pos hcustom]
          rfl
        · rw [if_neg hcustom, if_neg hcustom]
          rfl
    · simp only [if_neg htype] at h ⊢
      obtain ⟨rfl, rfl⟩ := Prod.mk.inj (Except.ok.inj h)
      rfl

/-! ## Steps -/

/-- What a step does. -/
theorem step_cases (h : step job assets s a = some t) :
    (∃ x rest, a = .main ∧ s.main = .starting (x :: rest) ∧ t = startOne s x rest) ∨
    (a = .main ∧ s.main = .starting [] ∧ t = { s with main := .receiving assets.length }) ∨
    (a = .main ∧ s.main = .receiving 0 ∧ t = record job s) ∨
    (∃ i x asset target, a = .execute i ∧ s.executing[i]? = some (x, asset, target) ∧
      t = { s with
        executing := s.executing.eraseIdx i, sending := executed x asset target :: s.sending }) ∨
    (∃ i n msg, a = .receive i ∧ s.main = .receiving (n + 1) ∧ s.sending[i]? = some msg ∧
      t = { s with
        main := .receiving n
        sending := s.sending.eraseIdx i
        received := s.received ++ [msg] }) := by
  cases a with
  | main =>
    have h : mainStep job assets s = some t := h
    unfold mainStep at h
    split at h
    · next x rest hmain => exact .inl ⟨x, rest, rfl, hmain, (Option.some.inj h).symm⟩
    · next hmain => exact .inr (.inl ⟨rfl, hmain, (Option.some.inj h).symm⟩)
    · cases h
    · cases h
    · next hmain => exact .inr (.inr (.inl ⟨rfl, hmain, (Option.some.inj h).symm⟩))
    · cases h
  | execute i =>
    obtain ⟨⟨x, asset, target⟩, hx, rfl⟩ := Option.map_eq_some_iff.mp h
    exact .inr (.inr (.inr (.inl ⟨i, x, asset, target, rfl, hx, rfl⟩)))
  | receive i =>
    have h : receiveStep s i = some t := h
    unfold receiveStep at h
    split at h
    · next n hmain =>
      obtain ⟨msg, hmsg, rfl⟩ := Option.map_eq_some_iff.mp h
      exact .inr (.inr (.inr (.inr ⟨i, n, msg, rfl, hmain, hmsg, rfl⟩)))
    · cases h

/-- A turn of the loop whose lookups fail ends at a send, another one starts a goroutine. -/
theorem startOne_cases (s : State) (x : ShellAsset) (rest : List ShellAsset) :
    (∃ msg, lookup x = .error msg ∧ startOne s x rest = { s with main := .sending msg }) ∨
    (∃ asset target, lookup x = .ok (asset, target) ∧
      startOne s x rest =
        { s with main := .starting rest, executing := (x, asset, target) :: s.executing }) := by
  unfold startOne
  cases hlookup : lookup x with
  | error msg => exact .inl ⟨msg, rfl, rfl⟩
  | ok found =>
    obtain ⟨asset, target⟩ := found
    exact .inr ⟨asset, target, rfl, rfl⟩

/-! ## Termination -/

/-- What the main goroutine has still to do. -/
def Main.left (n : Nat) : Main → Nat
  | .starting rest => 3 * rest.length + n + 2
  | .sending _ => 0
  | .receiving k => k + 1
  | .ended => 0

def State.left (n : Nat) (s : State) : Nat :=
  s.main.left n + 2 * s.executing.length + s.sending.length

theorem left_lt (h : step job assets s a = some t) :
    t.left assets.length < s.left assets.length := by
  unfold State.left
  rcases step_cases h with ⟨x, rest, -, hmain, rfl⟩ | ⟨-, hmain, rfl⟩ | ⟨-, hmain, rfl⟩ |
    ⟨i, x, asset, target, -, hi, rfl⟩ | ⟨i, n, msg, -, hmain, hi, rfl⟩
  · rw [hmain]
    rcases startOne_cases s x rest with ⟨msg, -, heq⟩ | ⟨asset, target, -, heq⟩
    · rw [heq]
      simp only [Main.left, List.length_cons]
      omega
    · rw [heq]
      simp only [Main.left, List.length_cons]
      omega
  · rw [hmain]
    simp only [Main.left, List.length_nil]
    omega
  · rw [hmain]
    unfold record
    split
    · simp only [Main.left]
      omega
    · simp only [Main.left]
      omega
  · obtain ⟨hlt, -⟩ := List.getElem?_eq_some_iff.mp hi
    have hlength := List.length_eraseIdx_of_lt hlt
    simp only [List.length_cons, hlength]
    omega
  · obtain ⟨hlt, -⟩ := List.getElem?_eq_some_iff.mp hi
    have hlength := List.length_eraseIdx_of_lt hlt
    simp only [hmain, Main.left, hlength]
    omega

/-- A run can always be continued to a state without a step. -/
theorem exists_terminal (s : State) :
    ∃ t, Reaches job assets s t ∧ ∀ a, step job assets t a = none :=
  Transition.exists_terminal (State.left assets.length) (fun _ _ _ h => left_lt h) s

/-! ## Every run -/

/-- The assets that are started have been looked up, and a log is stored if it is inserted. -/
structure Sound (job : ShellJobCall) (assets : List ShellAsset) (s : State) : Prop where
  starting : ∀ rest, s.main = .starting rest →
    ∃ started, assets = started ++ rest ∧ ∀ x ∈ started, (lookup x).isOk = true
  receiving : ∀ n, s.main = .receiving n → ∀ x ∈ assets, (lookup x).isOk = true
  logs : s.logs ≠ [] → job.created = .ok () ∧ ∀ x ∈ assets, (lookup x).isOk = true

theorem Sound.step (h : Sound job assets s) (hstep : step job assets s a = some t) :
    Sound job assets t := by
  rcases step_cases hstep with ⟨x, rest, -, hmain, rfl⟩ | ⟨-, hmain, rfl⟩ | ⟨-, hmain, rfl⟩ |
    ⟨i, x, asset, target, -, -, rfl⟩ | ⟨i, n, msg, -, hmain, -, rfl⟩
  · rcases startOne_cases s x rest with ⟨msg, -, heq⟩ | ⟨asset, target, hlookup, heq⟩
    · rw [heq]
      exact
        { starting := fun _ h => by cases h
          receiving := fun _ h => by cases h
          logs := h.logs }
    · rw [heq]
      refine
        { starting := fun rest' hrest => ?_
          receiving := fun _ h => by cases h
          logs := h.logs }
      obtain rfl := Main.starting.inj hrest
      obtain ⟨started, hassets, hok⟩ := h.starting _ hmain
      refine ⟨started ++ [x], by rw [hassets, List.append_assoc]; rfl, fun y hy => ?_⟩
      rcases List.mem_append.mp hy with hy | hy
      · exact hok y hy
      · rw [List.mem_singleton.mp hy, hlookup]
        rfl
  · refine
      { starting := fun _ h => by cases h
        receiving := fun _ _ => ?_
        logs := h.logs }
    obtain ⟨started, hassets, hok⟩ := h.starting [] hmain
    rw [hassets, List.append_nil]
    exact hok
  · unfold record
    split
    · next hcreated =>
      exact
        { starting := fun _ h => by cases h
          receiving := fun _ h => by cases h
          logs := fun _ => ⟨hcreated, h.receiving 0 hmain⟩ }
    · exact
        { starting := fun _ h => by cases h
          receiving := fun _ h => by cases h
          logs := h.logs }
  · exact { h with }
  · exact
      { starting := fun _ h => by cases h
        receiving := fun _ _ => h.receiving (n + 1) hmain
        logs := h.logs }

/-- The start is that of the loop, or nothing happens. -/
theorem start_cases (job : ShellJobCall) (assets : List ShellAsset) :
    start job assets = { main := .ended } ∨
      (assets ≠ [] ∧ job.metadata = .ok () ∧ start job assets = { main := .starting assets }) := by
  unfold start
  by_cases hassets : assets = []
  · rw [if_pos hassets]
    exact .inl rfl
  · rw [if_neg hassets]
    cases hmetadata : job.metadata with
    | error e => exact .inl rfl
    | ok _ => exact .inr ⟨hassets, rfl, rfl⟩

theorem sound_start : Sound job assets (start job assets) := by
  rcases start_cases job assets with heq | ⟨-, -, heq⟩
  · rw [heq]
    exact
      { starting := fun _ h => by cases h
        receiving := fun _ h => by cases h
        logs := fun h => absurd rfl h }
  · rw [heq]
    refine
      { starting := fun rest hrest => ?_
        receiving := fun _ h => by cases h
        logs := fun h => absurd rfl h }
    obtain rfl := Main.starting.inj hrest
    exact ⟨[], rfl, fun _ hx => absurd hx List.not_mem_nil⟩

theorem sound_of_run (h : Reaches job assets (start job assets) s) : Sound job assets s :=
  h.invariant (fun _ _ _ hs _ hstep => hs.step hstep) sound_start

/-- A job that completes has met the condition. -/
theorem lookupsSucceed_of_completes (h : Completes job assets) : LookupsSucceed job assets := by
  -- some run comes to an end, and it is that of the main goroutine
  obtain ⟨t, hreach, hterminal⟩ : ∃ t, Reaches job assets (start job assets) t ∧
      ∀ a, step job assets t a = none := exists_terminal _
  have hended : t.main = .ended := by
    rcases h.progress t hreach with hended | ⟨a, u, hstep⟩
    · exact hended
    · rw [hterminal a] at hstep
      cases hstep
  obtain ⟨log, _, hlogs, -⟩ := h.recorded t hreach hended
  obtain ⟨hcreated, hlookup⟩ := (sound_of_run hreach).logs (by rw [hlogs]; exact List.cons_ne_nil _ _)
  rcases start_cases job assets with heq | ⟨hassets, hmetadata, -⟩
  · -- the start is the end, and it has no log
    have hnone := h.recorded (start job assets) (Transition.Reaches.refl _) (by rw [heq])
    rw [heq] at hnone
    obtain ⟨log, _, hlogs, -⟩ := hnone
    cases hlogs
  · exact ⟨hassets, hmetadata, hlookup, hcreated⟩

/-! ## When the lookups succeed -/

/-- The messages of the goroutines that execute. -/
def pending (s : State) : List String := s.executing.map fun (x, asset, target) => executed x asset target

/-- The messages of the assets that are started: those to come, those that wait and those received. -/
def messages (s : State) : List String := pending s ++ s.sending ++ s.received

/-- Where the main goroutine is, the messages are those of the assets that it has started. -/
def Accounted (job : ShellJobCall) (assets : List ShellAsset) (s : State) : Prop :=
  match s.main with
  | .starting rest => ∃ started, assets = started ++ rest ∧
    (messages s).Perm (started.map resultMessage) ∧ s.received = [] ∧ s.logs = []
  | .sending _ => False
  | .receiving n => (messages s).Perm (assets.map resultMessage) ∧
    s.received.length + n = assets.length ∧ s.logs = []
  | .ended => s.received.Perm (assets.map resultMessage) ∧
    s.logs = [{ id := job.logId, jobId := job.id, message := joined s.received }]

theorem accounted_start (h : LookupsSucceed job assets) :
    Accounted job assets (start job assets) := by
  unfold start
  rw [if_neg h.nonempty, h.unmarshalled]
  exact ⟨[], rfl, List.Perm.refl [], rfl, rfl⟩

/-- The loop starts one more goroutine. -/
theorem Accounted.startOne (h : LookupsSucceed job assets) (hs : Accounted job assets s)
    {x : ShellAsset} {rest : List ShellAsset} (hmain : s.main = .starting (x :: rest)) :
    Accounted job assets (startOne s x rest) := by
  unfold Accounted at hs
  rw [hmain] at hs
  obtain ⟨started, hassets, hperm, hreceived, hlogs⟩ := hs
  have hx : x ∈ assets := by
    rw [hassets]
    exact List.mem_append_right started List.mem_cons_self
  rcases startOne_cases s x rest with ⟨msg, herror, -⟩ | ⟨asset, target, hlookup, heq⟩
  · have hok := h.lookups x hx
    rw [herror] at hok
    exact absurd hok Bool.false_ne_true
  · rw [heq]
    refine ⟨started ++ [x], by rw [hassets, List.append_assoc]; rfl, ?_, hreceived, hlogs⟩
    have hmessage : resultMessage x = executed x asset target := by
      unfold resultMessage
      rw [hlookup]
    rw [List.map_append, List.map_singleton, hmessage]
    show (executed x asset target :: messages s).Perm _
    exact (hperm.cons _).trans (List.perm_append_singleton _ _).symm

theorem messages_execute {i : Nat} {x : ShellAsset} {asset : Asset} {target : ShellTarget}
    (hi : s.executing[i]? = some (x, asset, target)) :
    (messages { s with
      executing := s.executing.eraseIdx i
      sending := executed x asset target :: s.sending }).Perm (messages s) := by
  obtain ⟨hlt, heq⟩ := List.getElem?_eq_some_iff.mp hi
  have hperm := (List.getElem_cons_eraseIdx_perm hlt).map
    fun (p : ShellAsset × Asset × ShellTarget) => executed p.1 p.2.1 p.2.2
  rw [heq, List.map_cons] at hperm
  refine List.Perm.append_right s.received ?_
  exact List.perm_middle.trans (hperm.append_right s.sending)

theorem messages_receive {i : Nat} {msg : String} (hi : s.sending[i]? = some msg) (m : Main) :
    (messages { s with
      main := m
      sending := s.sending.eraseIdx i
      received := s.received ++ [msg] }).Perm (messages s) := by
  obtain ⟨hlt, heq⟩ := List.getElem?_eq_some_iff.mp hi
  have hperm := List.getElem_cons_eraseIdx_perm hlt
  rw [heq] at hperm
  unfold messages
  rw [← List.append_assoc _ s.received]
  refine (List.perm_append_singleton _ _).trans ?_
  rw [← List.cons_append]
  refine List.Perm.append_right s.received ?_
  exact List.perm_middle.symm.trans (hperm.append_left (pending s))

theorem Accounted.step (h : LookupsSucceed job assets) (hs : Accounted job assets s)
    (hstep : step job assets s a = some t) : Accounted job assets t := by
  rcases step_cases hstep with ⟨x, rest, -, hmain, rfl⟩ | ⟨-, hmain, rfl⟩ | ⟨-, hmain, rfl⟩ |
    ⟨i, x, asset, target, -, hi, rfl⟩ | ⟨i, n, msg, -, hmain, hi, rfl⟩
  · exact hs.startOne h hmain
  · unfold Accounted at hs
    rw [hmain] at hs
    obtain ⟨started, hassets, hperm, hreceived, hlogs⟩ := hs
    rw [List.append_nil] at hassets
    refine ⟨hassets ▸ hperm, ?_, hlogs⟩
    show s.received.length + assets.length = assets.length
    rw [hreceived, List.length_nil, Nat.zero_add]
  · unfold Accounted at hs
    rw [hmain] at hs
    obtain ⟨hperm, hlength, hlogs⟩ := hs
    unfold record
    rw [h.inserted]
    -- all messages are received, so no goroutine is left
    have hall := hperm.length_eq
    unfold messages at hall
    rw [List.length_append, List.length_map] at hall
    have hnone : pending s ++ s.sending = [] := List.eq_nil_of_length_eq_zero (by omega)
    unfold messages at hperm
    rw [hnone, List.nil_append] at hperm
    refine ⟨hperm, ?_⟩
    show _ :: s.logs = _
    rw [hlogs]
  · have hmessages := messages_execute hi
    unfold Accounted at hs ⊢
    cases hmain : s.main with
    | starting rest =>
      simp only [hmain] at hs ⊢
      obtain ⟨started, hassets, hperm, hrest⟩ := hs
      exact ⟨started, hassets, hmessages.trans hperm, hrest⟩
    | sending msg =>
      simp only [hmain] at hs
    | receiving n =>
      simp only [hmain] at hs ⊢
      exact ⟨hmessages.trans hs.1, hs.2⟩
    | ended =>
      simp only [hmain] at hs ⊢
      exact hs
  · unfold Accounted at hs
    rw [hmain] at hs
    obtain ⟨hperm, hlength, hlogs⟩ := hs
    refine ⟨(messages_receive hi (.receiving n)).trans hperm, ?_, hlogs⟩
    show (s.received ++ [msg]).length + n = assets.length
    rw [List.length_append, List.length_singleton]
    omega

/-- A state that is accounted for is the end, or has a step. -/
theorem Accounted.progress (hs : Accounted job assets s) :
    s.main = .ended ∨ ∃ a t, ShellRun.step job assets s a = some t := by
  unfold Accounted at hs
  cases hmain : s.main with
  | starting rest =>
    right
    refine ⟨.main, ?_⟩
    show ∃ t, mainStep job assets s = some t
    unfold mainStep
    rw [hmain]
    cases rest with
    | nil => exact ⟨_, rfl⟩
    | cons x rest => exact ⟨_, rfl⟩
  | sending msg =>
    rw [hmain] at hs
    exact hs.elim
  | receiving n =>
    right
    rw [hmain] at hs
    obtain ⟨hperm, hlength, -⟩ := hs
    cases n with
    | zero =>
      refine ⟨.main, record job s, ?_⟩
      show mainStep job assets s = some (record job s)
      unfold mainStep
      rw [hmain]
    | succ n =>
      -- a message is missing, so a goroutine executes or waits at its send
      have hall := hperm.length_eq
      unfold messages pending at hall
      rw [List.length_append, List.length_append, List.length_map, List.length_map] at hall
      by_cases hsending : s.sending = []
      · have hpos : 0 < s.executing.length := by
          rw [hsending, List.length_nil] at hall
          omega
        exact ⟨.execute 0, _,
          Option.map_eq_some_iff.mpr ⟨_, List.getElem?_eq_getElem hpos, rfl⟩⟩
      · have hpos : 0 < s.sending.length := List.length_pos_of_ne_nil hsending
        refine ⟨.receive 0, ?_⟩
        show ∃ t, receiveStep s 0 = some t
        unfold receiveStep
        rw [hmain]
        exact ⟨_, Option.map_eq_some_iff.mpr ⟨_, List.getElem?_eq_getElem hpos, rfl⟩⟩
  | ended => exact .inl rfl

theorem accounted_of_run (h : LookupsSucceed job assets)
    (hreach : Reaches job assets (start job assets) s) : Accounted job assets s :=
  hreach.invariant (fun _ _ _ hs _ hstep => hs.step h hstep) (accounted_start h)

/-- A run of the job completes exactly when there are assets and everything but the commands goes
through. -/
theorem completes_iff (job : ShellJobCall) (assets : List ShellAsset) :
    Completes job assets ↔ LookupsSucceed job assets := by
  refine ⟨lookupsSucceed_of_completes, fun h => ?_⟩
  refine
    { progress := fun s hreach => (accounted_of_run h hreach).progress
      recorded := fun s hreach hended => ?_ }
  have hs := accounted_of_run h hreach
  unfold Accounted at hs
  rw [hended] at hs
  exact ⟨_, s.received, hs.2, rfl, hs.1⟩

/-- A job whose metadata can be read and whose log can be inserted. -/
def nightly : ShellJobCall := { id := "j1", metadata := .ok (), logId := "l1", created := .ok () }

/-- An asset that is not found any more. -/
def deleted : ShellAsset :=
  { name := "web", found := .error .recordNotFound, credential := .error .recordNotFound
    execute := fun _ => .ok "", elapsed := "1s" }

/-- The main goroutine waits at its send for ever. -/
theorem not_completes_deleted : ¬ Completes nightly [deleted] := by
  intro h
  have hreach : Reaches nightly [deleted] (start nightly [deleted])
      (startOne (start nightly [deleted]) deleted []) :=
    Transition.Reaches.head (a := .main) trivial rfl (Transition.Reaches.refl _)
  rcases h.progress _ hreach with hended | ⟨a, t, hstep⟩
  · cases hended
  · cases a <;> cases hstep

end ShellRun

end NextDBM
