import NextDBM.Proxy.Handlers

/-!
# Proofs: handlers of the MariaDB proxy

A connection that `CloseConnection` has not taken out of the map stays there until its handler has
finished, so at a check the map counts the loop as far as it has not been closed. The wait group is
counted up when the accept loop takes a connection and down when its handler finishes, and in between
the connection is in one of the phases.
-/

namespace NextDBM

open Calls

namespace ProxyServer

variable {s t : ProxyServer} {id : String} {err : Option String}

/-- A step is one of a process that has not crashed. -/
theorem act_of_step {a : ProxyStep} (h : s.step a = some t) :
    s.crashed = false ∧ s.act a = some t := by
  unfold step at h
  by_cases hcrashed : s.crashed = true
  · rw [if_pos hcrashed] at h
    cases h
  · rw [if_neg hcrashed] at h
    exact ⟨Bool.eq_false_of_not_eq_true hcrashed, h⟩

/-! ## Every run -/

/-- The entries of running handlers are in the map, unless they were taken out from outside, and a handler
is in one phase. -/
structure Tracked (s : ProxyServer) : Prop where
  running : ∀ id ∈ s.connecting ∪ s.commands, id ∈ s.connections ∪ s.closed
  disjoint : Disjoint s.connecting s.commands
  failed : ∀ id ∈ s.failed, id ∉ s.connecting ∪ s.commands

namespace Tracked

theorem start : Tracked {} where
  running _ hid := hid
  disjoint := Finset.disjoint_empty_left _
  failed _ hid := absurd hid (Finset.notMem_empty _)

/-- A handler leaves its phase. -/
theorem erase (h : Tracked s) (id : String) :
    Tracked { s with connecting := s.connecting.erase id, commands := s.commands.erase id } where
  running j hj := h.running j <| Finset.union_subset_union
    (Finset.erase_subset id s.connecting) (Finset.erase_subset id s.commands) hj
  disjoint := Finset.disjoint_of_subset_left (Finset.erase_subset id s.connecting)
    (Finset.disjoint_of_subset_right (Finset.erase_subset id s.commands) h.disjoint)
  failed j hj hmem := h.failed j hj <| Finset.union_subset_union
    (Finset.erase_subset id s.connecting) (Finset.erase_subset id s.commands) hmem

/-- The entry of a handler that does not run leaves the map. -/
theorem eraseConnection (h : Tracked s) (hid : id ∉ s.connecting ∪ s.commands) :
    ∀ j ∈ s.connecting ∪ s.commands, j ∈ s.connections.erase id ∪ s.closed := by
  intro j hj
  rcases Finset.mem_union.mp (h.running j hj) with hmem | hmem
  · exact Finset.mem_union_left _ (Finset.mem_erase.mpr ⟨fun heq => hid (heq ▸ hj), hmem⟩)
  · exact Finset.mem_union_right _ hmem

/-- A handler that has left its phase finishes. -/
theorem finish (h : Tracked s) (hid : id ∉ s.connecting ∪ s.commands) :
    Tracked (s.finish id err) where
  running := h.eraseConnection hid
  disjoint := h.disjoint
  failed j hj := by
    have hj : j ∈ if err.isSome then insert id s.failed else s.failed := hj
    by_cases herr : err.isSome = true
    · rw [if_pos herr] at hj
      rcases Finset.mem_insert.mp hj with rfl | hj
      · exact hid
      · exact h.failed j hj
    · rw [if_neg herr] at hj
      exact h.failed j hj

theorem leave (h : Tracked s) (hid : id ∈ s.connecting) :
    Tracked (ProxyServer.finish { s with connecting := s.connecting.erase id } id err) := by
  have hcommands : s.commands.erase id = s.commands :=
    Finset.erase_eq_of_notMem (Finset.disjoint_left.mp h.disjoint hid)
  have hleft := h.erase id
  rw [hcommands] at hleft
  refine hleft.finish fun hmem => ?_
  rcases Finset.mem_union.mp hmem with hmem | hmem
  · exact Finset.notMem_erase id s.connecting hmem
  · exact Finset.disjoint_left.mp h.disjoint hid hmem

theorem endCommands (h : Tracked s) (hid : id ∈ s.commands) :
    Tracked (ProxyServer.finish { s with commands := s.commands.erase id } id err) := by
  have hconnecting : s.connecting.erase id = s.connecting :=
    Finset.erase_eq_of_notMem (Finset.disjoint_right.mp h.disjoint hid)
  have hleft := h.erase id
  rw [hconnecting] at hleft
  refine hleft.finish fun hmem => ?_
  rcases Finset.mem_union.mp hmem with hmem | hmem
  · exact Finset.disjoint_right.mp h.disjoint hid hmem
  · exact Finset.notMem_erase id s.commands hmem

theorem startHandler (h : Tracked s) {r : Outcome Unit}
    (hid : id ∉ s.connections ∪ s.connecting ∪ s.commands ∪ s.failed ∪ s.closed) :
    Tracked (s.startHandler id r) := by
  simp only [Finset.mem_union, not_or] at hid
  obtain ⟨⟨⟨-, hcommands⟩, hfailed⟩, -⟩ := hid
  cases r with
  | returned _ =>
    refine
      { running := ?_
        disjoint := Finset.disjoint_insert_left.mpr ⟨hcommands, h.disjoint⟩
        failed := ?_ }
    · intro j hj
      show j ∈ insert id s.connections ∪ s.closed
      have hj : j ∈ insert id s.connecting ∪ s.commands := hj
      rw [Finset.insert_union, Finset.mem_insert] at hj ⊢
      exact hj.imp_right (h.running j)
    · intro j hj hmem
      have hmem : j ∈ insert id s.connecting ∪ s.commands := hmem
      rw [Finset.insert_union, Finset.mem_insert] at hmem
      rcases hmem with rfl | hmem
      · exact hfailed hj
      · exact h.failed j hj hmem
  | failed _ => exact { h with }
  | panicked => exact { h with }

theorem checkLicense (h : Tracked s) (hid : id ∈ s.connecting) : Tracked (s.checkLicense id err) := by
  unfold ProxyServer.checkLicense
  by_cases hfull : 3 < s.connections.card
  · rw [if_pos hfull]
    exact h.leave hid
  · rw [if_neg hfull]
    have hsub : s.connecting.erase id ∪ insert id s.commands ⊆ s.connecting ∪ s.commands := by
      intro j hj
      rcases Finset.mem_union.mp hj with hj | hj
      · exact Finset.mem_union_left _ (Finset.mem_of_mem_erase hj)
      · rcases Finset.mem_insert.mp hj with rfl | hj
        · exact Finset.mem_union_left _ hid
        · exact Finset.mem_union_right _ hj
    refine
      { running := fun j hj => h.running j (hsub hj)
        disjoint := ?_
        failed := fun j hj hmem => h.failed j hj (hsub hmem) }
    refine Finset.disjoint_insert_right.mpr ⟨Finset.notMem_erase id s.connecting, ?_⟩
    exact Finset.disjoint_of_subset_left (Finset.erase_subset id s.connecting) h.disjoint

theorem record (h : Tracked s) {r : Outcome Unit} (hid : id ∈ s.failed) :
    Tracked (s.record id r) := by
  have hrest := h.eraseConnection (h.failed id hid)
  have hfailed : ∀ j ∈ s.failed.erase id, j ∉ s.connecting ∪ s.commands := fun j hj =>
    h.failed j (Finset.mem_of_mem_erase hj)
  cases r with
  | returned _ => exact { h with running := hrest, failed := hfailed }
  | failed _ => exact { h with running := hrest, failed := hfailed }
  | panicked => exact { h with }

theorem closeConnection (h : Tracked s) : Tracked (s.closeConnection id) := by
  unfold ProxyServer.closeConnection
  by_cases hid : id ∈ s.connections
  · rw [if_pos hid]
    refine { h with running := fun j hj => ?_ }
    by_cases heq : j = id
    · exact Finset.mem_union_right _ (heq ▸ Finset.mem_insert_self id s.closed)
    · rcases Finset.mem_union.mp (h.running j hj) with hmem | hmem
      · exact Finset.mem_union_left _ (Finset.mem_erase.mpr ⟨heq, hmem⟩)
      · exact Finset.mem_union_right _ (Finset.mem_insert_of_mem hmem)
  · rw [if_neg hid]
    exact h

end Tracked

/-- `Accept` changes the phase of the loop alone, and ends it for a reason. -/
theorem acceptConnection_cases {r : Outcome Unit} (h : s.acceptConnection r = some t) :
    t = s ∨ t = { s with accept := .accepted } ∨
      (t = { s with accept := .ended } ∧
        (s.listener = .gone ∨ r = .panicked ∨ s.cancelled = true)) := by
  unfold acceptConnection at h
  split at h
  · next hgone => exact .inr (.inr ⟨(Option.some.inj h).symm, .inl hgone⟩)
  · exact .inr (.inr ⟨(Option.some.inj h).symm, .inr (.inl rfl)⟩)
  · by_cases hcancelled : s.cancelled = true
    · rw [if_pos hcancelled] at h
      exact .inr (.inr ⟨(Option.some.inj h).symm, .inr (.inr hcancelled)⟩)
    · rw [if_neg hcancelled] at h
      exact .inl (Option.some.inj h).symm
  · exact .inr (.inl (Option.some.inj h).symm)
  · cases h

/-- Every step keeps track of the handlers. -/
theorem Tracked.act (h : Tracked s) {a : ProxyStep} (hact : s.act a = some t) : Tracked t := by
  unfold ProxyServer.act at hact
  cases a with
  | accept r =>
    obtain ⟨-, hact⟩ := Option.ite_none_right_eq_some.mp hact
    rcases acceptConnection_cases hact with rfl | rfl | ⟨rfl, -⟩
    · exact h
    · exact { h with }
    · exact { h with }
  | allowIP r =>
    obtain ⟨-, hact⟩ := Option.ite_none_right_eq_some.mp hact
    obtain rfl := Option.some.inj hact
    unfold checkIP
    split <;> exact { h with }
  | createSession id r =>
    obtain ⟨⟨-, hid⟩, hact⟩ := Option.ite_none_right_eq_some.mp hact
    obtain rfl := Option.some.inj hact
    exact h.startHandler hid
  | leave id err =>
    obtain ⟨hid, hact⟩ := Option.ite_none_right_eq_some.mp hact
    obtain rfl := Option.some.inj hact
    exact h.leave hid
  | checkLicense id err =>
    obtain ⟨hid, hact⟩ := Option.ite_none_right_eq_some.mp hact
    obtain rfl := Option.some.inj hact
    exact h.checkLicense hid
  | processCommand id err =>
    obtain ⟨hid, hact⟩ := Option.ite_none_right_eq_some.mp hact
    obtain rfl := Option.some.inj hact
    by_cases herr : err.isSome = true
    · rw [if_pos herr]
      exact h.endCommands hid
    · rw [if_neg herr]
      exact h
  | record id r =>
    obtain ⟨hid, hact⟩ := Option.ite_none_right_eq_some.mp hact
    obtain rfl := Option.some.inj hact
    exact h.record hid
  | closeConnection id =>
    obtain rfl := Option.some.inj hact
    exact h.closeConnection
  | stopClose r =>
    obtain ⟨-, hact⟩ := Option.ite_none_right_eq_some.mp hact
    obtain rfl := Option.some.inj hact
    exact { h with }
  | stopListener =>
    obtain ⟨-, hact⟩ := Option.ite_none_right_eq_some.mp hact
    obtain rfl := Option.some.inj hact
    exact { h with }
  | stopCancel =>
    obtain ⟨-, hact⟩ := Option.ite_none_right_eq_some.mp hact
    obtain rfl := Option.some.inj hact
    exact { h with }

/-! ## The cap -/

/-- A handler enters the loop through the check alone. -/
theorem commands_of_act {a : ProxyStep} (hact : s.act a = some t) :
    t.commands ⊆ s.commands ∨ ∃ id err, a = .checkLicense id err ∧ id ∈ s.connecting ∧
      s.connections.card ≤ 3 ∧ t.commands = insert id s.commands := by
  unfold ProxyServer.act at hact
  cases a with
  | accept r =>
    obtain ⟨-, hact⟩ := Option.ite_none_right_eq_some.mp hact
    left
    rcases acceptConnection_cases hact with rfl | rfl | ⟨rfl, -⟩ <;> exact fun _ hj => hj
  | allowIP r =>
    obtain ⟨-, hact⟩ := Option.ite_none_right_eq_some.mp hact
    obtain rfl := Option.some.inj hact
    left
    unfold checkIP
    split <;> exact fun _ hj => hj
  | createSession id r =>
    obtain ⟨-, hact⟩ := Option.ite_none_right_eq_some.mp hact
    obtain rfl := Option.some.inj hact
    left
    cases r <;> exact fun _ hj => hj
  | leave id err =>
    obtain ⟨-, hact⟩ := Option.ite_none_right_eq_some.mp hact
    obtain rfl := Option.some.inj hact
    exact .inl fun _ hj => hj
  | checkLicense id err =>
    obtain ⟨hid, hact⟩ := Option.ite_none_right_eq_some.mp hact
    obtain rfl := Option.some.inj hact
    unfold ProxyServer.checkLicense
    by_cases hfull : 3 < s.connections.card
    · rw [if_pos hfull]
      exact .inl fun _ hj => hj
    · rw [if_neg hfull]
      exact .inr ⟨id, err, rfl, hid, Nat.le_of_not_lt hfull, rfl⟩
  | processCommand id err =>
    obtain ⟨-, hact⟩ := Option.ite_none_right_eq_some.mp hact
    obtain rfl := Option.some.inj hact
    left
    by_cases herr : err.isSome = true
    · rw [if_pos herr]
      exact Finset.erase_subset id s.commands
    · rw [if_neg herr]
  | record id r =>
    obtain ⟨-, hact⟩ := Option.ite_none_right_eq_some.mp hact
    obtain rfl := Option.some.inj hact
    left
    cases r <;> exact fun _ hj => hj
  | closeConnection id =>
    obtain rfl := Option.some.inj hact
    left
    unfold ProxyServer.closeConnection
    split <;> exact fun _ hj => hj
  | stopClose r =>
    obtain ⟨-, hact⟩ := Option.ite_none_right_eq_some.mp hact
    obtain rfl := Option.some.inj hact
    exact .inl fun _ hj => hj
  | stopListener =>
    obtain ⟨-, hact⟩ := Option.ite_none_right_eq_some.mp hact
    obtain rfl := Option.some.inj hact
    exact .inl fun _ hj => hj
  | stopCancel =>
    obtain ⟨-, hact⟩ := Option.ite_none_right_eq_some.mp hact
    obtain rfl := Option.some.inj hact
    exact .inl fun _ hj => hj

/-- A connection that passes the check is one of the three that the map counts. -/
theorem commands_card_act (h : Tracked s) (hcard : s.commands.card ≤ 3) {a : ProxyStep}
    (hok : s.ClosedHaveLeft a) (hact : s.act a = some t) : t.commands.card ≤ 3 := by
  rcases commands_of_act hact with hsub | ⟨id, err, rfl, hid, hroom, hcommands⟩
  · exact Nat.le_trans (Finset.card_le_card hsub) hcard
  · have hin : insert id s.commands ⊆ s.connections := by
      intro j hj
      have hrunning : j ∈ s.connecting ∪ s.commands := by
        rcases Finset.mem_insert.mp hj with rfl | hmem
        · exact Finset.mem_union_left _ hid
        · exact Finset.mem_union_right _ hmem
      rcases Finset.mem_union.mp (h.running j hrunning) with hmem | hclosed
      · exact hmem
      · exact absurd hclosed (hok hroom j hj)
    rw [hcommands]
    exact Nat.le_trans (Finset.card_le_card hin) hroom

/-- In every interleaving in which no connection passes the check while a handler whose connection was
closed from outside is still there, at most three handlers are in the loop. -/
theorem commands_card_of_reaches (h : Transition.Reaches step ClosedHaveLeft {} s) :
    s.commands.card ≤ 3 := by
  refine (h.invariant (I := fun s => Tracked s ∧ s.commands.card ≤ 3)
    (fun s a t hs hok hstep => ?_) ⟨.start, Nat.zero_le 3⟩).2
  obtain ⟨-, hact⟩ := act_of_step hstep
  exact ⟨hs.1.act hact, commands_card_act hs.1 hs.2 hok hact⟩

/-- The accept loop takes a connection. -/
def connect (id : String) : List ProxyStep :=
  [.accept (.returned ()), .allowIP (.returned true), .createSession id (.returned ())]

/-- A fourth connection is refused, and one may follow when another has left after it was closed. -/
def closedLeaves : List ProxyStep :=
  connect "a" ++ connect "b" ++ connect "c" ++ [.checkLicense "a" none, .checkLicense "b" none,
    .checkLicense "c" none] ++ connect "d" ++ [.checkLicense "d" (some "max 3"),
    .closeConnection "a", .processCommand "a" (some "closed")] ++ connect "e" ++
    [.checkLicense "e" none]

theorem commands_card_closedLeaves : ∃ s, Transition.exec step {} closedLeaves = some s ∧
    s.commands = {"b", "c", "e"} ∧ s.commands.card ≤ 3 := by
  obtain ⟨s, hrun, hcommands⟩ : ∃ s, Transition.exec step {} closedLeaves = some s ∧
      s.commands = {"b", "c", "e"} := ⟨_, rfl, by decide⟩
  exact ⟨s, hrun, hcommands,
    commands_card_of_reaches (Transition.reaches_of_exec hrun (by decide))⟩

/-- A connection is closed from outside while its handler executes a statement, and another one comes. -/
def closedStays : List ProxyStep :=
  connect "a" ++ connect "b" ++ connect "c" ++ [.checkLicense "a" none, .checkLicense "b" none,
    .checkLicense "c" none, .closeConnection "a"] ++ connect "d" ++ [.checkLicense "d" none]

theorem four_commands_closedStays : ∃ s,
    Transition.Reaches step Transition.Any {} s ∧ ¬ s.commands.card ≤ 3 := by
  obtain ⟨s, hrun, hcard⟩ : ∃ s, Transition.exec step {} closedStays = some s ∧
      ¬ s.commands.card ≤ 3 := ⟨_, rfl, by decide⟩
  exact ⟨s, Transition.reaches_of_exec hrun (Transition.allOk_any _ _), hcard⟩

/-! ## The accounting -/

/-- What the accept loop and the wait group depend on. -/
structure Balanced (s : ProxyServer) : Prop where
  accounted : s.Accounted
  listener : s.listener ≠ .listening → s.stopCalled = true
  cancelled : s.cancelled = true → s.stopCalled = true

namespace Balanced

theorem start : Balanced {} where
  accounted :=
    { loop := fun h => by rcases h with h | h <;> cases h
      connManager := rfl }
  listener h := absurd rfl h
  cancelled h := absurd h Bool.false_ne_true

/-- A step that leaves `Stop` and the accept loop alone. -/
theorem of_handler (h : Balanced s) (hlistener : t.listener = s.listener)
    (hcancelled : t.cancelled = s.cancelled) (hstop : t.stopCalled = s.stopCalled)
    (haccept : t.accept = s.accept) (hcrashed : t.crashed = s.crashed)
    (hcount : t.connManager + (s.connecting.card + s.commands.card : Nat) =
      s.connManager + (t.connecting.card + t.commands.card : Nat)) : Balanced t where
  accounted :=
    { loop := by rw [haccept, hcrashed, hstop]; exact h.accounted.loop
      connManager := by
        have hs := h.accounted.connManager
        unfold unfinished at hs ⊢
        rw [haccept]
        omega }
  listener := by rw [hlistener, hstop]; exact h.listener
  cancelled := by rw [hcancelled, hstop]; exact h.cancelled

theorem accept (h : Balanced s) (hs : s.accept = .accepting) {r : Outcome Unit}
    (hok : s.Answered (.accept r)) (hact : s.acceptConnection r = some t) : Balanced t := by
  have hcount := h.accounted.connManager
  unfold unfinished at hcount
  rw [hs] at hcount
  rcases acceptConnection_cases hact with rfl | rfl | ⟨rfl, hreason⟩
  · exact h
  · exact { h with accounted :=
      { loop := fun hend => hend.elim (fun h => by cases h) fun hcrashed =>
          h.accounted.loop (.inr hcrashed)
        connManager := hcount } }
  · refine { h with accounted := { loop := fun _ => ?_, connManager := hcount } }
    rcases hreason with hgone | hpanic | hcancelled
    · exact h.listener (by rw [hgone]; decide)
    · exact hok hpanic
    · exact h.cancelled hcancelled

theorem checkIP (h : Balanced s) (hs : s.accept = .accepted) {r : Outcome Bool}
    (hok : s.Answered (.allowIP r)) : Balanced (s.checkIP r) := by
  have hcount := h.accounted.connManager
  unfold unfinished at hcount
  rw [hs] at hcount
  have hcrash : s.crashed = true → s.stopCalled = true := fun hc => h.accounted.loop (.inr hc)
  unfold ProxyServer.checkIP
  split
  · refine { h with accounted :=
      { loop := fun hend => hend.elim (fun h => by cases h) hcrash, connManager := ?_ } }
    show s.connManager + 1 = ((s.connecting.card + s.commands.card + 1 : Nat) : Int)
    rw [if_neg (by decide)] at hcount
    omega
  · exact { h with accounted :=
      { loop := fun hend => hend.elim (fun h => by cases h) hcrash, connManager := hcount } }
  · exact { h with accounted :=
      { loop := fun hend => hend.elim (fun h => by cases h) hcrash, connManager := hcount } }
  · exact { h with accounted := { loop := fun _ => hok rfl, connManager := hcount } }

theorem startHandler (h : Balanced s) (hs : s.accept = .creating) (hid : id ∉ s.connecting) :
    Balanced (s.startHandler id (.returned ())) := by
  have hcount := h.accounted.connManager
  unfold unfinished at hcount
  rw [hs, if_pos rfl] at hcount
  refine { h with accounted :=
    { loop := fun hend => hend.elim (fun h => by cases h) fun hc => h.accounted.loop (.inr hc)
      connManager := ?_ } }
  show s.connManager = (((insert id s.connecting).card + s.commands.card + 0 : Nat) : Int)
  rw [Finset.card_insert_of_notMem hid]
  omega

theorem leave (h : Balanced s) (hid : id ∈ s.connecting) :
    Balanced (finish { s with connecting := s.connecting.erase id } id err) := by
  refine h.of_handler rfl rfl rfl rfl rfl ?_
  show s.connManager - 1 + ((s.connecting.card + s.commands.card : Nat) : Int) =
    s.connManager + (((s.connecting.erase id).card + s.commands.card : Nat) : Int)
  have := Finset.card_erase_add_one hid
  omega

theorem endCommands (h : Balanced s) (hid : id ∈ s.commands) :
    Balanced (finish { s with commands := s.commands.erase id } id err) := by
  refine h.of_handler rfl rfl rfl rfl rfl ?_
  show s.connManager - 1 + ((s.connecting.card + s.commands.card : Nat) : Int) =
    s.connManager + ((s.connecting.card + (s.commands.erase id).card : Nat) : Int)
  have := Finset.card_erase_add_one hid
  omega

theorem checkLicense (h : Balanced s) (htracked : Tracked s) (hid : id ∈ s.connecting) :
    Balanced (s.checkLicense id err) := by
  unfold ProxyServer.checkLicense
  by_cases hfull : 3 < s.connections.card
  · rw [if_pos hfull]
    exact h.leave hid
  · rw [if_neg hfull]
    refine h.of_handler rfl rfl rfl rfl rfl ?_
    show s.connManager + ((s.connecting.card + s.commands.card : Nat) : Int) =
      s.connManager + (((s.connecting.erase id).card + (insert id s.commands).card : Nat) : Int)
    have hcommands : id ∉ s.commands := Finset.disjoint_left.mp htracked.disjoint hid
    have := Finset.card_erase_add_one hid
    rw [Finset.card_insert_of_notMem hcommands]
    omega

theorem record (h : Balanced s) {r : Outcome Unit} (hok : s.Answered (.record id r)) :
    Balanced (s.record id r) := by
  cases r with
  | returned _ => exact h.of_handler rfl rfl rfl rfl rfl rfl
  | failed _ => exact h.of_handler rfl rfl rfl rfl rfl rfl
  | panicked =>
    exact { h with accounted := { loop := fun _ => hok rfl, connManager := h.accounted.connManager } }

theorem act (h : Balanced s) (htracked : Tracked s) {a : ProxyStep} (hok : s.Answered a)
    (hact : s.act a = some t) : Balanced t := by
  unfold ProxyServer.act at hact
  cases a with
  | accept r =>
    obtain ⟨hs, hact⟩ := Option.ite_none_right_eq_some.mp hact
    exact h.accept hs hok hact
  | allowIP r =>
    obtain ⟨hs, hact⟩ := Option.ite_none_right_eq_some.mp hact
    obtain rfl := Option.some.inj hact
    exact h.checkIP hs hok
  | createSession id r =>
    obtain ⟨⟨hs, hid⟩, hact⟩ := Option.ite_none_right_eq_some.mp hact
    obtain rfl := Option.some.inj hact
    obtain rfl : r = .returned () := hok
    simp only [Finset.mem_union, not_or] at hid
    exact h.startHandler hs hid.1.1.1.2
  | leave id err =>
    obtain ⟨hid, hact⟩ := Option.ite_none_right_eq_some.mp hact
    obtain rfl := Option.some.inj hact
    exact h.leave hid
  | checkLicense id err =>
    obtain ⟨hid, hact⟩ := Option.ite_none_right_eq_some.mp hact
    obtain rfl := Option.some.inj hact
    exact h.checkLicense htracked hid
  | processCommand id err =>
    obtain ⟨hid, hact⟩ := Option.ite_none_right_eq_some.mp hact
    obtain rfl := Option.some.inj hact
    by_cases herr : err.isSome = true
    · rw [if_pos herr]
      exact h.endCommands hid
    · rw [if_neg herr]
      exact h
  | record id r =>
    obtain ⟨-, hact⟩ := Option.ite_none_right_eq_some.mp hact
    obtain rfl := Option.some.inj hact
    exact h.record hok
  | closeConnection id =>
    obtain rfl := Option.some.inj hact
    unfold ProxyServer.closeConnection
    split
    · exact h.of_handler rfl rfl rfl rfl rfl rfl
    · exact h
  | stopClose r =>
    obtain ⟨-, hact⟩ := Option.ite_none_right_eq_some.mp hact
    obtain rfl := Option.some.inj hact
    exact
      { accounted := { loop := fun _ => rfl, connManager := h.accounted.connManager }
        listener := fun _ => rfl
        cancelled := fun _ => rfl }
  | stopListener =>
    obtain ⟨hclosed, hact⟩ := Option.ite_none_right_eq_some.mp hact
    obtain rfl := Option.some.inj hact
    have hstop : s.stopCalled = true := h.listener (by rw [hclosed]; decide)
    exact
      { accounted := { loop := fun _ => hstop, connManager := h.accounted.connManager }
        listener := fun _ => hstop
        cancelled := fun _ => hstop }
  | stopCancel =>
    obtain ⟨hgone, hact⟩ := Option.ite_none_right_eq_some.mp hact
    obtain rfl := Option.some.inj hact
    have hstop : s.stopCalled = true := h.listener (by rw [hgone]; decide)
    exact
      { accounted := { loop := fun _ => hstop, connManager := h.accounted.connManager }
        listener := fun _ => hstop
        cancelled := fun _ => hstop }

end Balanced

/-- In every run in which the sessions are inserted and the calls outside the handlers do not panic before
`Stop`, the accept loop runs until `Stop` and the wait group counts the unfinished connections. -/
theorem accounted_of_reaches (h : Transition.Reaches step Answered {} s) : s.Accounted := by
  refine (h.invariant (I := fun s => Tracked s ∧ Balanced s)
    (fun s a t hs hok hstep => ?_) ⟨.start, .start⟩).2.accounted
  obtain ⟨-, hact⟩ := act_of_step hstep
  exact ⟨hs.1.act hact, hs.2.act hs.1 hok hact⟩

/-- Two connections, one of which fails and one of which panics, and a `Stop`. -/
def twoFailures : List ProxyStep :=
  [.accept (.failed "too many open files")] ++ connect "a" ++ connect "b" ++
    [.leave "a" (some "refused"), .leave "b" none, .record "a" (.failed "locked"),
      .stopClose (.returned ()), .stopListener, .accept (.failed "closed")]

theorem accounted_twoFailures : ∃ s, Transition.exec step {} twoFailures = some s ∧
    s.accept = .ended ∧ s.connManager = 0 ∧ s.Accounted := by
  obtain ⟨s, hrun, haccept, hcount⟩ : ∃ s, Transition.exec step {} twoFailures = some s ∧
      s.accept = .ended ∧ s.connManager = 0 := ⟨_, rfl, by decide, by decide⟩
  exact ⟨s, hrun, haccept, hcount,
    accounted_of_reaches (Transition.reaches_of_exec hrun (by decide))⟩

/-- The session of the first connection is not inserted. -/
def notInserted : List ProxyStep :=
  [.accept (.returned ()), .allowIP (.returned true), .createSession "a" (.failed "locked")]

theorem not_accounted_notInserted : ∃ s,
    Transition.Reaches step Transition.Any {} s ∧ s.connManager = 1 ∧ ¬ s.Accounted := by
  obtain ⟨s, hrun, haccept, hstop, hcount⟩ : ∃ s, Transition.exec step {} notInserted = some s ∧
      s.accept = .ended ∧ s.stopCalled = false ∧ s.connManager = 1 :=
    ⟨_, rfl, by decide, by decide, by decide⟩
  refine ⟨s, Transition.reaches_of_exec hrun (Transition.allOk_any _ _), hcount, fun h => ?_⟩
  have := h.loop (.inl haccept)
  rw [hstop] at this
  exact Bool.false_ne_true this

end ProxyServer

end NextDBM
