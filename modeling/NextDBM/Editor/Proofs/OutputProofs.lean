import NextDBM.Editor.Output
import NextDBM.Editor.Proofs.ResponsesProofs

/-!
# What of the output arrives

The messages of a run are those of the loop of `writeToWebsocket` over what its `select` has taken,
and what it has taken is a beginning of the stream. So nothing is duplicated or reordered; what may
still be missing at the end is the buffer and what was never taken, and what may be wrong is the
character that stands for an error.
-/

namespace NextDBM.DBMHandler.Output

open Transition

variable {s t u : Output} {a : OutputAction} {as : List OutputAction} {text : String}

/-! ## One step -/

/-- What an action can do, with the guards of the step. -/
inductive Move (s : Output) : OutputAction → Output → Prop
  | poll (hreader : s.reader = .polling) :
    Move s .poll { s with reader := if s.cancelled then .stopped else .reading }
  | eof (hreader : s.reader = .reading) (hunread : s.unread = []) :
    Move s .readRune { s with reader := .stopped }
  | rune {u : Placed} {unread : List Placed} (hreader : s.reader = .reading)
      (hunread : s.unread = u :: unread) :
    Move s .readRune { s with reader := .sending u, unread }
  | transfer {u : Placed} (hreader : s.reader = .sending u) (hwriting : s.writing = true) :
    Move s .transfer { s with reader := .polling, buf := s.buf ++ [written u] }
  | fire : Move s .fire { s with pendingTick := true }
  | idle (served : Bool) (hwriting : s.writing = true) (hbuf : s.buf = []) :
    Move s (.tick served) { s with pendingTick := false }
  | send (hwriting : s.writing = true) (hbuf : s.buf ≠ []) :
    Move s (.tick true) { s with pendingTick := false, sent := s.sent ++ [s.buf], buf := [] }
  | refused (hwriting : s.writing = true) (hbuf : s.buf ≠ []) :
    Move s (.tick false) { s with pendingTick := false, writing := false }
  | done (hwriting : s.writing = true) : Move s .done { s with writing := false }
  | stopTick : Move s .stopTick { s with ticking := false }
  | cancel : Move s .cancel { s with cancelled := true }

theorem move_of_step (h : step s a = some t) : Move s a t := by
  cases a with
  | poll =>
    rw [step] at h
    split at h
    · next hreader =>
      obtain rfl := Option.some.inj h
      exact .poll hreader
    · cases h
  | readRune =>
    rw [step] at h
    split at h
    · next hreader hunread =>
      obtain rfl := Option.some.inj h
      exact .eof hreader hunread
    · next u unread hreader hunread =>
      obtain rfl := Option.some.inj h
      exact .rune hreader hunread
    · cases h
  | transfer =>
    rw [step] at h
    split at h
    · next u hreader hwriting =>
      obtain rfl := Option.some.inj h
      exact .transfer hreader hwriting
    · cases h
  | fire =>
    rw [step] at h
    split at h
    · obtain rfl := Option.some.inj h
      exact .fire
    · cases h
  | tick served =>
    rw [step] at h
    split at h
    · next hguard =>
      obtain ⟨hwriting, -⟩ := Bool.and_eq_true_iff.mp hguard
      dsimp only at h
      split at h
      · next hbuf =>
        obtain rfl := Option.some.inj h
        exact .idle served hwriting hbuf
      · next hbuf =>
        cases served with
        | true =>
          obtain rfl := Option.some.inj h
          exact .send hwriting hbuf
        | false =>
          obtain rfl := Option.some.inj h
          exact .refused hwriting hbuf
    · cases h
  | done =>
    rw [step] at h
    split at h
    · next hguard =>
      obtain ⟨hwriting, -⟩ := Bool.and_eq_true_iff.mp hguard
      obtain rfl := Option.some.inj h
      exact .done hwriting
    · cases h
  | stopTick =>
    rw [step] at h
    split at h
    · obtain rfl := Option.some.inj h
      exact .stopTick
    · cases h
  | cancel =>
    rw [step] at h
    split at h
    · cases h
    · obtain rfl := Option.some.inj h
      exact .cancel

/-- A stretch of a run: the events that the `select` of the writer took and the messages it sent. -/
structure Stretch (s t : Output) (es : List Event) (new : List (List Placed)) : Prop where
  sent : t.sent = s.sent ++ new
  loop : ∀ fs, writeToWebsocket s.buf (es ++ fs) = new ++ writeToWebsocket t.buf fs
  remaining : remaining s = es.filterMap Event.unit? ++ remaining t

theorem Stretch.refl (s : Output) : Stretch s s [] [] where
  sent := (List.append_nil s.sent).symm
  loop _ := rfl
  remaining := rfl

/-- A step that leaves the buffer, the messages and what is on its way alone. -/
theorem Stretch.quiet (hsent : t.sent = s.sent) (hbuf : t.buf = s.buf)
    (hremaining : Output.remaining t = Output.remaining s) : Stretch s t [] [] where
  sent := by rw [hsent, List.append_nil]
  loop fs := by rw [hbuf, List.nil_append, List.nil_append]
  remaining := hremaining.symm

theorem Stretch.trans {es fs : List Event} {new new' : List (List Placed)} (h : Stretch s t es new)
    (h' : Stretch t u fs new') : Stretch s u (es ++ fs) (new ++ new') where
  sent := by rw [h'.sent, h.sent, List.append_assoc]
  loop gs := by rw [List.append_assoc, h.loop, h'.loop, List.append_assoc]
  remaining := by rw [h.remaining, h'.remaining, List.filterMap_append, List.append_assoc]

theorem Move.stretch (h : Move s a t) : ∃ es new, Stretch s t es new := by
  cases h with
  | poll hreader =>
    refine ⟨[], [], Stretch.quiet rfl rfl ?_⟩
    unfold Output.remaining
    rw [hreader]
    cases s.cancelled <;> rfl
  | eof hreader hunread =>
    refine ⟨[], [], Stretch.quiet rfl rfl ?_⟩
    simp [Output.remaining, hreader]
  | rune hreader hunread =>
    refine ⟨[], [], Stretch.quiet rfl rfl ?_⟩
    simp [Output.remaining, hreader, hunread]
  | @transfer u hreader hwriting =>
    refine ⟨[.data u], [], (List.append_nil s.sent).symm, fun fs => rfl, ?_⟩
    simp [Output.remaining, hreader, Event.unit?]
  | send hwriting hbuf =>
    refine ⟨[.tick], [s.buf], rfl, fun fs => ?_, rfl⟩
    show writeToWebsocket s.buf (.tick :: fs) = s.buf :: writeToWebsocket [] fs
    rw [writeToWebsocket, if_neg hbuf]
  | fire | idle | refused | done | stopTick | cancel =>
    exact ⟨[], [], Stretch.quiet rfl rfl rfl⟩

/-! ## A run -/

theorem stretch_of_exec (h : exec step s as = some t) : ∃ es new, Stretch s t es new := by
  induction as generalizing s with
  | nil =>
    obtain rfl := Option.some.inj h
    exact ⟨[], [], Stretch.refl s⟩
  | cons a as ih =>
    obtain ⟨s₁, hstep, hrest⟩ := Option.bind_eq_some_iff.mp h
    obtain ⟨es, new, hfirst⟩ := (move_of_step hstep).stretch
    obtain ⟨fs, new', hlater⟩ := ih hrest
    exact ⟨es ++ fs, new ++ new', hfirst.trans hlater⟩

/-- What the writer takes is a beginning of what is on its way, and it takes it as the buffer writes
it. -/
theorem taken_of_exec (h : exec step s as = some t) :
    ∃ us, remaining s = us ++ remaining t ∧ taken t = taken s ++ us.map written := by
  obtain ⟨es, new, hstretch⟩ := stretch_of_exec h
  refine ⟨es.filterMap Event.unit?, hstretch.remaining, ?_⟩
  -- A last tick sends the buffer, so the messages up to it are all that was taken.
  have hflush : (writeToWebsocket t.buf [.tick]).flatten = t.buf := by
    rw [writeToWebsocket]
    split
    next hbuf => rw [hbuf]; rfl
    next hbuf => simp [writeToWebsocket]
  obtain ⟨hflat, -⟩ := writeToWebsocket_flatten s.buf es
  rw [hstretch.loop, List.flatten_append, hflush] at hflat
  rw [taken, taken, hstretch.sent, List.flatten_append, List.append_assoc, hflat, List.append_assoc]

/-- The goroutines that have returned left nothing behind. -/
structure Tidy (s : Output) : Prop where
  writer : s.writing = false → s.buf = []
  reader : s.reader = .stopped → s.unread = []

/-- A goroutine that has returned with something left never comes back to it. -/
theorem Move.not_tidy (h : Move s a t) (hs : ¬ Tidy s) : ¬ Tidy t := by
  intro ht
  apply hs
  cases h with
  | poll hreader =>
    refine ⟨ht.writer, fun hstopped => ?_⟩
    rw [hreader] at hstopped
    cases hstopped
  | eof hreader hunread => exact ⟨ht.writer, fun _ => hunread⟩
  | rune hreader hunread =>
    refine ⟨ht.writer, fun hstopped => ?_⟩
    rw [hreader] at hstopped
    cases hstopped
  | transfer hreader hwriting =>
    refine ⟨fun hstopped => ?_, fun hstopped => ?_⟩
    · rw [hwriting] at hstopped
      cases hstopped
    · rw [hreader] at hstopped
      cases hstopped
  | idle served hwriting hbuf => exact ⟨fun _ => hbuf, ht.reader⟩
  | send hwriting hbuf =>
    refine ⟨fun hstopped => ?_, ht.reader⟩
    rw [hwriting] at hstopped
    cases hstopped
  | refused hwriting hbuf => exact absurd (ht.writer rfl) hbuf
  | done hwriting => exact ⟨fun _ => ht.writer rfl, ht.reader⟩
  | fire | stopTick | cancel => exact ⟨ht.writer, ht.reader⟩

theorem not_tidy_of_exec (h : exec step s as = some t) (hs : ¬ Tidy s) : ¬ Tidy t := by
  induction as generalizing s with
  | nil =>
    obtain rfl := Option.some.inj h
    exact hs
  | cons a as ih =>
    obtain ⟨s₁, hstep, hrest⟩ := Option.bind_eq_some_iff.mp h
    exact ih hrest ((move_of_step hstep).not_tidy hs)

/-- Out of a tidy state, an action is orderly exactly when it leaves a tidy one and takes its
character as it is. -/
theorem Move.orderly_iff (h : Move s a t) (hs : Tidy s) :
    Orderly s a ↔ Tidy t ∧ taken t ++ remaining t = taken s ++ remaining s := by
  cases h with
  | poll hreader =>
    have hsame : ∀ b : Bool, remaining { s with reader := if b then .stopped else .reading } =
        remaining s := by
      intro b
      cases b <;> simp [remaining, hreader]
    constructor
    · intro horderly
      refine ⟨⟨hs.writer, fun hstopped => ?_⟩, congrArg (taken s ++ ·) (hsame s.cancelled)⟩
      apply horderly
      by_contra hcancelled
      simp [hcancelled] at hstopped
    · rintro ⟨ht, -⟩ hcancelled
      apply ht.reader
      simp [hcancelled]
  | eof hreader hunread =>
    refine ⟨fun _ => ⟨⟨hs.writer, fun _ => hunread⟩, ?_⟩, fun _ => trivial⟩
    simp [taken, remaining, hreader]
  | rune hreader hunread =>
    refine ⟨fun _ => ⟨⟨hs.writer, fun hstopped => by cases hstopped⟩, ?_⟩, fun _ => trivial⟩
    simp [taken, remaining, hreader, hunread]
  | @transfer u hreader hwriting =>
    have hwritten : written u = u ↔ u.2 ≠ 0xFFFD := by
      unfold written
      split
      · next hcode =>
        refine ⟨fun heq => ?_, fun hne => absurd hcode hne⟩
        rw [← heq]
        show (64 : Nat) ≠ 0xFFFD
        omega
      · next hcode => exact ⟨fun _ => hcode, fun _ => rfl⟩
    have htidy : Tidy { s with reader := .polling, buf := s.buf ++ [written u] } := by
      refine ⟨fun hstopped => ?_, fun hstopped => by cases hstopped⟩
      rw [hwriting] at hstopped
      cases hstopped
    have horder : Orderly s .transfer ↔ u.2 ≠ 0xFFFD := by
      constructor
      · exact fun horderly => horderly u hreader
      · intro hne v hv
        rw [hreader] at hv
        cases hv
        exact hne
    rw [horder, ← hwritten]
    constructor
    · intro heq
      refine ⟨htidy, ?_⟩
      simp [taken, remaining, hreader, heq]
    · rintro ⟨-, heq⟩
      simpa [taken, remaining, hreader] using heq
  | idle served hwriting hbuf =>
    constructor
    · exact fun _ => ⟨⟨fun _ => hbuf, hs.reader⟩, rfl⟩
    · exact fun _ hne => absurd hbuf hne
  | send hwriting hbuf =>
    refine ⟨fun _ => ⟨⟨fun _ => rfl, hs.reader⟩, ?_⟩, fun _ _ => rfl⟩
    simp [taken, remaining]
  | refused hwriting hbuf =>
    constructor
    · intro horderly
      cases horderly hbuf
    · rintro ⟨ht, -⟩
      exact absurd (ht.writer rfl) hbuf
  | done hwriting =>
    constructor
    · exact fun hbuf => ⟨⟨fun _ => hbuf, hs.reader⟩, rfl⟩
    · exact fun ht => ht.1.writer rfl
  | fire | stopTick | cancel => exact ⟨fun _ => ⟨⟨hs.writer, hs.reader⟩, rfl⟩, fun _ => trivial⟩

/-- If all that was on its way has been sent, nothing is left at the end, and the first step has
changed no character. -/
theorem tidy_of_sent (hstep : step s a = some u) (hrest : exec step u as = some t)
    (hsent : t.sent.flatten = taken s ++ remaining s) :
    Tidy t ∧ taken u ++ remaining u = taken s ++ remaining s := by
  have hone : exec step s [a] = some u := by
    show (step s a).bind _ = some u
    rw [hstep]
    rfl
  obtain ⟨us, hus, htaken⟩ := taken_of_exec hone
  obtain ⟨vs, hvs, htaken'⟩ := taken_of_exec hrest
  have hall : us ++ (vs ++ (remaining t ++ t.buf)) = us.map written ++ vs.map written := by
    have htotal : taken t = (taken s ++ remaining s) ++ t.buf := by rw [taken, hsent]
    rw [htaken', htaken, hus, hvs] at htotal
    simpa [List.append_assoc] using htotal.symm
  obtain ⟨hfirst, hlater⟩ := List.append_inj hall (List.length_map written).symm
  have hnil : remaining t ++ t.buf = [] := by
    have hlength := congrArg List.length hlater
    rw [List.length_append, List.length_map] at hlength
    exact List.eq_nil_of_length_eq_zero (by omega)
  obtain ⟨hremaining, hbuf⟩ := List.append_eq_nil_iff.mp hnil
  constructor
  · refine ⟨fun _ => hbuf, fun hreader => ?_⟩
    simpa [remaining, hreader] using hremaining
  · rw [htaken, hus, ← hfirst, List.append_assoc]

/-- From a tidy state, a run to its end delivers what was on its way exactly when it is orderly. -/
theorem delivers_iff (h : exec step s as = some t) (hs : Tidy s) (ht : Stopped t) :
    t.sent.flatten = taken s ++ remaining s ↔ AllOk step Orderly s as := by
  induction as generalizing s with
  | nil =>
    obtain rfl := Option.some.inj h
    obtain ⟨hreader, hwriting⟩ := ht
    refine ⟨fun _ => trivial, fun _ => ?_⟩
    simp [taken, remaining, hreader, hs.writer hwriting, hs.reader hreader]
  | cons a as ih =>
    obtain ⟨s₁, hstep, hrest⟩ := Option.bind_eq_some_iff.mp h
    have horderly := (move_of_step hstep).orderly_iff hs
    rw [allOk_cons_iff hstep]
    constructor
    · intro hsent
      obtain ⟨htidy, hsame⟩ := tidy_of_sent hstep hrest hsent
      have hs₁ : Tidy s₁ := by
        by_contra hs₁
        exact not_tidy_of_exec hrest hs₁ htidy
      refine ⟨horderly.mpr ⟨hs₁, hsame⟩, (ih hrest hs₁).mp ?_⟩
      rw [hsent, hsame]
    · rintro ⟨ha, hall⟩
      obtain ⟨hs₁, hsame⟩ := horderly.mp ha
      rw [← hsame]
      exact (ih hrest hs₁).mpr hall

/-- In every run to the end of both goroutines the messages are the stream exactly when each step is
orderly. -/
theorem complete_iff (text : String) (as : List OutputAction) (t : Output)
    (h : exec step (start text) as = some t) (ht : Stopped t) :
    Complete text t ↔ AllOk step Orderly (start text) as := by
  have hstart : Tidy (start text) :=
    ⟨(fun hwriting => by cases hwriting), (fun hreader => by cases hreader)⟩
  exact delivers_iff h hstart ht

/-! ## Two runs -/

/-- The client says `ok` and ends. -/
def okRun (ending : List OutputAction) : List OutputAction :=
  [.poll, .readRune, .transfer, .poll, .readRune, .transfer, .poll, .readRune] ++ ending

/-- A tick, and then `Stop`: the writer returns with an empty buffer. -/
theorem complete_iff_okRun : ∃ t,
    exec step (start "ok") (okRun [.fire, .tick true, .stopTick, .cancel, .done]) = some t ∧
      Stopped t ∧ Complete "ok" t ∧
      AllOk step Orderly (start "ok") (okRun [.fire, .tick true, .stopTick, .cancel, .done]) :=
  ⟨_, rfl, ⟨rfl, rfl⟩, by decide, (complete_iff "ok" _ _ rfl ⟨rfl, rfl⟩).mp (by decide)⟩

/-- `Stop` before the next tick: what arrived after the last one is lost. -/
theorem not_complete_okRun : ∃ t,
    exec step (start "ok") (okRun [.stopTick, .cancel, .done]) = some t ∧ Stopped t ∧
      ¬ Complete "ok" t :=
  ⟨_, rfl, ⟨rfl, rfl⟩, by decide⟩

end NextDBM.DBMHandler.Output
