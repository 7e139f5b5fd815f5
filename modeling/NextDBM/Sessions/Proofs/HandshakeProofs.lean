import NextDBM.Sessions.Handshake
import NextDBM.Sessions.Proofs.InstructionsProofs

/-!
# Proofs: the connection to guacd

Instructions that are sent one after the other are one write of all their bytes, so that a handshake has
three moments at which it can stop: a write that runs out of room, and the two answers of guacd.
-/

namespace NextDBM

open Calls Transaction

namespace Guacamole

/-! ## Work on a connection -/

section Run

variable {α β : Type} {x : OnConn α} {f : α → OnConn β} {c c' : Conn} {a : α} {e : Stop}

theorem run_bind_ok (h : x.run.run c = (.ok a, c')) : (x >>= f).run.run c = (f a).run.run c' := by
  rw [ExceptT.run_bind, StateT.run_bind, h]
  rfl

theorem run_bind_error (h : x.run.run c = (.error e, c')) :
    (x >>= f).run.run c = (.error e, c') := by
  rw [ExceptT.run_bind, StateT.run_bind, h]
  rfl

theorem closing_run (x : OnConn α) (c : Conn) :
    (closing x).run.run c = closeOnError (x.run.run c) := rfl

theorem closing_ok (h : x.run.run c = (.ok a, c')) : (closing x).run.run c = (.ok a, c') := by
  rw [closing_run, h]
  rfl

theorem closing_failed {text : List UInt8} (h : x.run.run c = (.error (.failed text), c')) :
    (closing x).run.run c = (.error (.failed text), { c' with isClosed := true }) := by
  rw [closing_run, h]
  rfl

theorem closing_panicked (h : x.run.run c = (.error .panicked, c')) :
    (closing x).run.run c = (.error .panicked, c') := by
  rw [closing_run, h]
  rfl

end Run

/-! ## Sending -/

/-- The connection when `p` has been sent. -/
def Conn.send (c : Conn) (p : List UInt8) : Conn :=
  { c with sent := c.sent ++ p, room := spend p.length c.room }

/-- The connection when the room has run out in `p`, and it is closed. -/
def Conn.cut (c : Conn) (p : List UInt8) : Conn :=
  { c with sent := c.sent ++ p.take (c.room.getD 0), room := some 0, isClosed := true }

/-- The connection when an answer has been read. -/
def Conn.heard (c : Conn) (reader : Reader) : Conn := { c with reader }

section Send

variable {c : Conn} {p q : List UInt8}

theorem send_send (c : Conn) (p q : List UInt8) : (c.send p).send q = c.send (p ++ q) := by
  unfold Conn.send
  simp only [List.append_assoc, spend_spend, List.length_append]

theorem send_nil (c : Conn) : c.send [] = c := by
  obtain ⟨reader, sent, room, writeErr, isClosed⟩ := c
  unfold Conn.send
  cases room with
  | none => simp
  | some n => simp [spend]

/-- What is left of the room after `p` is where a second text is cut. -/
theorem cut_send (hp : Serves c.room p.length) (hq : ¬ Serves (c.send p).room q.length) :
    (c.send p).cut q = c.cut (p ++ q) := by
  unfold Conn.cut Conn.send
  cases hroom : c.room with
  | none =>
    refine absurd ?_ hq
    unfold Conn.send
    rw [hroom]
    exact serves_none q.length
  | some n =>
    have hle : p.length ≤ n := hp n (by rw [hroom]; rfl)
    simp only [spend, Option.map_some, Option.getD_some, List.append_assoc, List.take_append]
    rw [List.take_of_length_le hle]

theorem cut_append (hp : ¬ Serves c.room p.length) : c.cut p = c.cut (p ++ q) := by
  unfold Conn.cut
  cases hroom : c.room with
  | none =>
    rw [hroom] at hp
    exact absurd (serves_none p.length) hp
  | some n =>
    have hlt : n < p.length := by
      by_contra hle
      refine hp fun m hm => ?_
      rw [hroom] at hm
      obtain rfl := Option.some.inj hm
      exact Nat.not_lt.mp hle
    simp only [Option.getD_some]
    rw [List.take_append_of_le_length (Nat.le_of_lt hlt)]

theorem closing_write (i : Instruction) (c : Conn) :
    (closing (writeInstructionAndFlush i)).run.run c =
      if Serves c.room i.string.1.length then (.ok (), c.send i.string.1)
      else (.error (.failed (bytesOf c.writeErr)), c.cut i.string.1) := by
  by_cases hserves : Serves c.room i.string.1.length
  · rw [if_pos hserves]
    exact closing_ok (if_pos hserves)
  · rw [if_neg hserves]
    have hrun : (writeInstructionAndFlush i).run.run c = (.error (.failed (bytesOf c.writeErr)),
        { c with sent := c.sent ++ i.string.1.take (c.room.getD 0), room := some 0 }) :=
      if_neg hserves
    exact closing_failed hrun

/-- One write after the other, with the connection closed at the first one that fails. -/
def sendAll : List Instruction → OnConn Unit
  | [] => pure ()
  | i :: is => do
    closing (writeInstructionAndFlush i)
    sendAll is

theorem sendAll_run (is : List Instruction) (c : Conn) : (sendAll is).run.run c =
    if Serves c.room (wire is).length then (.ok (), c.send (wire is))
    else (.error (.failed (bytesOf c.writeErr)), c.cut (wire is)) := by
  induction is generalizing c with
  | nil =>
    have hserves : Serves c.room (wire []).length := serves_zero c.room
    rw [if_pos hserves]
    show (Except.ok (), c) = (Except.ok (), c.send [])
    rw [send_nil]
  | cons i is ih =>
    have hwire : wire (i :: is) = i.string.1 ++ wire is := List.flatMap_cons
    have hsplit : Serves c.room (wire (i :: is)).length ↔
        Serves c.room i.string.1.length ∧ Serves (c.send i.string.1).room (wire is).length := by
      rw [hwire, List.length_append]
      exact serves_add
    have hfirst := closing_write i c
    by_cases hone : Serves c.room i.string.1.length
    · rw [if_pos hone] at hfirst
      rw [sendAll, run_bind_ok hfirst, ih]
      by_cases hrest : Serves (c.send i.string.1).room (wire is).length
      · rw [if_pos hrest, if_pos (hsplit.mpr ⟨hone, hrest⟩), send_send, hwire]
      · rw [if_neg hrest, if_neg fun h => hrest (hsplit.mp h).2, cut_send hone hrest, hwire]
        rfl
    · rw [if_neg hone] at hfirst
      rw [sendAll, run_bind_error hfirst, if_neg fun h => hone (hsplit.mp h).1, hwire,
        ← cut_append hone]

end Send

/-! ## The answers of guacd -/

section Expect

variable {c : Conn} {opcode : List UInt8} {reader : Reader} {i : Instruction} {text : String}

theorem expect_ok (h : c.reader.readInstruction = .returned (i, reader)) (hopcode : i.opcode = opcode) :
    (expect opcode).run.run c = (.ok i, c.heard reader) := by
  unfold expect ExceptT.run ExceptT.mk StateT.run
  simp only [h]
  rw [if_neg fun hne => hne hopcode.symm]
  rfl

theorem expect_unexpected (h : c.reader.readInstruction = .returned (i, reader))
    (hopcode : i.opcode ≠ opcode) :
    ∃ message, (expect opcode).run.run c = (.error (.failed message), c.heard reader) := by
  unfold expect ExceptT.run ExceptT.mk StateT.run
  simp only [h]
  rw [if_pos hopcode.symm]
  exact ⟨_, rfl⟩

theorem expect_failed (h : c.reader.readInstruction = .failed text) :
    (expect opcode).run.run c = (.error (.failed (bytesOf text)), c) := by
  unfold expect ExceptT.run ExceptT.mk StateT.run
  simp only [h]

theorem expect_panicked (h : c.reader.readInstruction = .panicked) :
    (expect opcode).run.run c = (.error .panicked, c) := by
  unfold expect ExceptT.run ExceptT.mk StateT.run
  simp only [h]

/-- What is read has no text yet. -/
theorem eq_instruction_of_read (h : c.reader.readInstruction = .returned (i, reader)) :
    i = newInstruction i.opcode i.args := by
  obtain ⟨-, hparse, -⟩ := readInstruction_eq_returned h
  obtain ⟨opcode, args, rfl, -⟩ := parse_eq_returned.mp hparse
  rfl

end Expect

/-! ## The handshake -/

theorem newTunnel_eq (config : Configuration) : newTunnel config = (do
    sendAll [greeting config]
    let args ← closing (expect (bytesOf "args"))
    sendAll (answer config args.args)
    let ready ← expect (bytesOf "ready")
    tunnelOf config ready) := by
  unfold newTunnel
  simp only [sendAll, answer, bind_assoc, pure_bind]
  rfl

/-- The ways in which a handshake ends, with what is left of the connection. -/
inductive HandshakeEnds (config : Configuration) (c : Conn) : Except Stop Tunnel → Conn → Prop
  | unsent {text c'} (hroom : ¬ Serves c.room (wire [greeting config]).length)
      (hsent : ∃ n, c'.sent = c.sent ++ (wire [greeting config]).take n)
      (hclosed : c'.isClosed = true) : HandshakeEnds config c (.error (.failed text)) c'
  | unasked {text c'} (hasks : ∀ names reader, ¬ Asks c names reader)
      (hread : c.reader.readInstruction ≠ .panicked)
      (hsent : c'.sent = c.sent ++ wire [greeting config])
      (hclosed : c'.isClosed = true) : HandshakeEnds config c (.error (.failed text)) c'
  | garbled {c'} (hroom : Serves c.room (wire [greeting config]).length)
      (hread : c.reader.readInstruction = .panicked)
      (hsent : c'.sent = c.sent ++ wire [greeting config])
      (hopen : c'.isClosed = c.isClosed) : HandshakeEnds config c (.error .panicked) c'
  | cut {names reader text c'} (hasks : Asks c names reader)
      (hroom : ¬ Serves c.room (dialogue config names).length)
      (hsent : ∃ n, c'.sent = c.sent ++ (dialogue config names).take n)
      (hclosed : c'.isClosed = true) : HandshakeEnds config c (.error (.failed text)) c'
  | refused {names reader text c'} (hwaits : Waits config c names reader)
      (hread : (∃ text, reader.readInstruction = .failed text) ∨
        ∃ i reader', reader.readInstruction = .returned (i, reader') ∧ i.opcode ≠ bytesOf "ready")
      (hsent : c'.sent = c.sent ++ dialogue config names)
      (hopen : c'.isClosed = c.isClosed) : HandshakeEnds config c (.error (.failed text)) c'
  | garbledReady {names reader c'} (hwaits : Waits config c names reader)
      (hread : reader.readInstruction = .panicked)
      (hsent : c'.sent = c.sent ++ dialogue config names)
      (hopen : c'.isClosed = c.isClosed) : HandshakeEnds config c (.error .panicked) c'
  | nameless {names reader reader' text c'} (hwaits : Waits config c names reader)
      (hread : reader.readInstruction = .returned (instructionOf "ready" [], reader'))
      (hsent : c'.sent = c.sent ++ dialogue config names)
      (hclosed : c'.isClosed = true) : HandshakeEnds config c (.error (.failed text)) c'
  | connected {t c'} (h : Connects config c t c') : HandshakeEnds config c (.ok t) c'

theorem wire_cons (i : Instruction) (is : List Instruction) :
    wire (i :: is) = wire [i] ++ wire is := by
  unfold wire
  rw [List.flatMap_cons, List.flatMap_singleton]

theorem dialogue_eq (config : Configuration) (names : List (List UInt8)) :
    dialogue config names = wire [greeting config] ++ wire (answer config names) := wire_cons _ _

section Handshake

variable {config : Configuration} {c : Conn}

/-- The last answer of guacd, when all has been sent. -/
theorem ready_ends {names : List (List UInt8)} {reader : Reader} {r : Except Stop Tunnel} {c' : Conn}
    (hwaits : Waits config c names reader)
    (h : (expect (bytesOf "ready") >>= tunnelOf config).run.run
      ((c.send (dialogue config names)).heard reader) = (r, c')) : HandshakeEnds config c r c' := by
  generalize hc₂ : (c.send (dialogue config names)).heard reader = c₂ at h
  have hreader : c₂.reader = reader := by
    rw [← hc₂]
    rfl
  have hsent : c₂.sent = c.sent ++ dialogue config names := by
    rw [← hc₂]
    rfl
  have hopen : c₂.isClosed = c.isClosed := by
    rw [← hc₂]
    rfl
  cases hread : reader.readInstruction with
  | failed text =>
    rw [run_bind_error (expect_failed (hreader ▸ hread))] at h
    cases h
    exact .refused hwaits (.inl ⟨text, hread⟩) hsent hopen
  | panicked =>
    rw [run_bind_error (expect_panicked (hreader ▸ hread))] at h
    cases h
    exact .garbledReady hwaits hread hsent hopen
  | returned p =>
    obtain ⟨i, reader'⟩ := p
    have hread₂ : c₂.reader.readInstruction = .returned (i, reader') := hreader ▸ hread
    by_cases hopcode : i.opcode = bytesOf "ready"
    · rw [run_bind_ok (expect_ok hread₂ hopcode)] at h
      have hi := eq_instruction_of_read hread₂
      rw [hopcode] at hi
      unfold tunnelOf at h
      cases hargs : i.args with
      | nil =>
        rw [hargs] at h hi
        cases h
        exact .nameless hwaits (by rw [hread, hi]; rfl) hsent rfl
      | cons uuid more =>
        rw [hargs] at h hi
        cases h
        refine .connected ⟨names, reader, uuid, more, reader', hwaits, by rw [hread, hi]; rfl, rfl, ?_⟩
        rw [← hc₂]
        rfl
    · obtain ⟨message, hrun⟩ := expect_unexpected hread₂ hopcode
      rw [run_bind_error hrun] at h
      cases h
      exact .refused hwaits (.inr ⟨i, reader', hread, hopcode⟩) hsent hopen

theorem newTunnel_ends {r : Except Stop Tunnel} {c' : Conn}
    (h : (newTunnel config).run.run c = (r, c')) : HandshakeEnds config c r c' := by
  rw [newTunnel_eq] at h
  have hgreeting := sendAll_run [greeting config] c
  by_cases hroom : Serves c.room (wire [greeting config]).length
  · rw [if_pos hroom] at hgreeting
    rw [run_bind_ok hgreeting] at h
    have hreader : (c.send (wire [greeting config])).reader = c.reader := rfl
    cases hread : c.reader.readInstruction with
    | failed text =>
      rw [run_bind_error (closing_failed (expect_failed (hreader ▸ hread)))] at h
      cases h
      refine .unasked (fun names reader hasks => ?_) ?_ rfl rfl
      · rw [Asks, hread] at hasks
        cases hasks
      · rw [hread]
        exact nofun
    | panicked =>
      rw [run_bind_error (closing_panicked (expect_panicked (hreader ▸ hread)))] at h
      cases h
      exact .garbled hroom hread rfl rfl
    | returned p =>
      obtain ⟨i, reader⟩ := p
      have hread₁ : (c.send (wire [greeting config])).reader.readInstruction =
        .returned (i, reader) := hread
      by_cases hopcode : i.opcode = bytesOf "args"
      · rw [run_bind_ok (closing_ok (expect_ok hread₁ hopcode))] at h
        have hi := eq_instruction_of_read hread₁
        rw [hopcode] at hi
        have hasks : Asks c i.args reader := by
          rw [Asks, hread, hi]
          rfl
        have hanswer := sendAll_run (answer config i.args)
          ((c.send (wire [greeting config])).heard reader)
        have hdialogue := dialogue_eq config i.args
        have hsplit : Serves c.room (dialogue config i.args).length ↔
            Serves (spend (wire [greeting config]).length c.room)
              (wire (answer config i.args)).length := by
          rw [hdialogue, List.length_append, serves_add]
          exact and_iff_right hroom
        by_cases hrest : Serves ((c.send (wire [greeting config])).heard reader).room
            (wire (answer config i.args)).length
        · rw [if_pos hrest] at hanswer
          rw [run_bind_ok hanswer] at h
          refine ready_ends ⟨hasks, hsplit.mpr hrest⟩ ?_
          rw [hdialogue, ← send_send]
          exact h
        · rw [if_neg hrest] at hanswer
          rw [run_bind_error hanswer] at h
          cases h
          refine .cut hasks (fun hall => hrest (hsplit.mp hall)) ⟨c.room.getD 0, ?_⟩ rfl
          have hcut := congrArg Conn.sent (cut_send hroom hrest)
          rw [hdialogue]
          exact hcut
      · obtain ⟨message, hrun⟩ := expect_unexpected hread₁ hopcode
        rw [run_bind_error (closing_failed hrun)] at h
        cases h
        refine .unasked (fun names reader hasks => ?_) ?_ rfl rfl
        · rw [Asks, hread] at hasks
          cases hasks
          exact hopcode rfl
        · rw [hread]
          exact nofun
  · rw [if_neg hroom] at hgreeting
    rw [run_bind_error hgreeting] at h
    cases h
    exact .unsent hroom ⟨c.room.getD 0, rfl⟩ rfl

theorem asks_unique {names names' : List (List UInt8)} {reader reader' : Reader}
    (h : Asks c names reader) (h' : Asks c names' reader') : names' = names ∧ reader' = reader := by
  rw [Asks, h] at h'
  cases h'
  exact ⟨rfl, rfl⟩

theorem serves_greeting {names : List (List UInt8)}
    (h : Serves c.room (dialogue config names).length) :
    Serves c.room (wire [greeting config]).length := by
  refine h.mono ?_
  rw [dialogue_eq, List.length_append]
  exact Nat.le_add_right _ _

/-- Once all has been sent, the second answer of guacd decides. -/
theorem ends_of_waits {r : Except Stop Tunnel} {c' : Conn} {names : List (List UInt8)}
    {reader : Reader} (h : HandshakeEnds config c r c') (hwaits : Waits config c names reader) :
    (∃ text, r = .error (.failed text) ∧ c'.isClosed = c.isClosed ∧
      ∀ args reader', reader.readInstruction ≠ .returned (instructionOf "ready" args, reader') ∧
        reader.readInstruction ≠ .panicked) ∨
    (r = .error .panicked ∧ reader.readInstruction = .panicked) ∨
    (∃ reader', reader.readInstruction = .returned (instructionOf "ready" [], reader')) ∨
    ∃ uuid more reader', reader.readInstruction =
        .returned (instructionOf "ready" (uuid :: more), reader') ∧
      r = .ok { uuid, config, isOpen := true } ∧
      c' = { c with
        reader := reader'
        sent := c.sent ++ dialogue config names
        room := spend (dialogue config names).length c.room } := by
  obtain ⟨hasks, hroom⟩ := hwaits
  cases h with
  | unsent hshort => exact absurd (serves_greeting hroom) hshort
  | unasked hnone => exact absurd hasks (hnone names reader)
  | garbled _ hread =>
    rw [Asks, hread] at hasks
    cases hasks
  | cut hasks' hshort =>
    obtain ⟨rfl, -⟩ := asks_unique hasks hasks'
    exact absurd hroom hshort
  | @refused _ _ text _ hwaits hread _ hopen =>
    obtain ⟨-, rfl⟩ := asks_unique hasks hwaits.1
    refine .inl ⟨text, rfl, hopen, fun args reader' => ?_⟩
    rcases hread with ⟨text, hread⟩ | ⟨i, reader₂, hread, hopcode⟩
    · rw [hread]
      exact ⟨nofun, nofun⟩
    · rw [hread]
      refine ⟨fun heq => ?_, nofun⟩
      cases heq
      exact hopcode rfl
  | garbledReady hwaits hread =>
    obtain ⟨-, rfl⟩ := asks_unique hasks hwaits.1
    exact .inr (.inl ⟨rfl, hread⟩)
  | @nameless _ _ reader' _ _ hwaits hread =>
    obtain ⟨-, rfl⟩ := asks_unique hasks hwaits.1
    exact .inr (.inr (.inl ⟨reader', hread⟩))
  | connected h =>
    obtain ⟨names', reader₁, uuid, more, reader₂, ⟨hasks', -⟩, hready, rfl, rfl⟩ := h
    obtain ⟨rfl, rfl⟩ := asks_unique hasks hasks'
    exact .inr (.inr (.inr ⟨uuid, more, reader₂, hready, rfl, rfl⟩))

theorem connects_of_ends {r : Except Stop Tunnel} {c' c'' : Conn} {t : Tunnel}
    (h : HandshakeEnds config c r c') (hconnects : Connects config c t c'') :
    r = .ok t ∧ c' = c'' := by
  obtain ⟨names, reader, uuid, more, reader', hwaits, hready, rfl, rfl⟩ := hconnects
  rcases ends_of_waits h hwaits with ⟨text, -, -, hnot⟩ | ⟨-, hread⟩ | ⟨reader₁, hread⟩ |
    ⟨uuid', more', reader₁, hread, rfl, rfl⟩
  · exact absurd hready (hnot _ _).1
  · rw [hready] at hread
    cases hread
  · rw [hready] at hread
    cases hread
  · rw [hready] at hread
    cases hread
    exact ⟨rfl, rfl⟩

theorem refused_of_ends {r : Except Stop Tunnel} {c' : Conn} (h : HandshakeEnds config c r c')
    (hrefuses : Refuses config c) : (∃ text, r = .error (.failed text)) ∧ c'.isClosed = c.isClosed := by
  obtain ⟨names, reader, hwaits, hready⟩ := hrefuses
  have hnot : reader.readInstruction ≠ .panicked ∧ ∀ args reader',
      reader.readInstruction ≠ .returned (instructionOf "ready" args, reader') := by
    rcases hready with ⟨text, hready⟩ | ⟨i, reader₂, hready, hopcode⟩
    · rw [hready]
      exact ⟨nofun, fun _ _ => nofun⟩
    · rw [hready]
      refine ⟨nofun, fun args reader' heq => ?_⟩
      cases heq
      exact hopcode rfl
  rcases ends_of_waits h hwaits with ⟨text, hr, hopen, -⟩ | ⟨-, hread⟩ | ⟨reader₁, hread⟩ |
    ⟨uuid, more, reader₁, hread, -⟩
  · exact ⟨⟨text, hr⟩, hopen⟩
  · exact absurd hread hnot.1
  · exact absurd hread (hnot.2 _ _)
  · exact absurd hread (hnot.2 _ _)

theorem panicked_of_ends {r : Except Stop Tunnel} {c' : Conn} (h : HandshakeEnds config c r c')
    (hgarbles : Garbles config c) : r = .error .panicked := by
  rcases hgarbles with ⟨hroom, hgarbled⟩ | ⟨names, reader, hwaits, hready⟩
  · have hnever : ∀ names reader, ¬ Asks c names reader := fun names reader hasks => by
      rw [Asks, hgarbled] at hasks
      cases hasks
    cases h with
    | unsent hshort => exact absurd hroom hshort
    | unasked _ hread => exact absurd hgarbled hread
    | garbled _ _ => rfl
    | cut hasks => exact absurd hasks (hnever _ _)
    | refused hwaits => exact absurd hwaits.1 (hnever _ _)
    | garbledReady _ _ => rfl
    | nameless hwaits => exact absurd hwaits.1 (hnever _ _)
    | connected h =>
      obtain ⟨names', reader₁, -, -, -, hwaits, -⟩ := h
      exact absurd hwaits.1 (hnever _ _)
  · rcases ends_of_waits h hwaits with ⟨text, -, -, hnot⟩ | ⟨hr, -⟩ | ⟨reader₁, hread⟩ |
      ⟨uuid, more, reader₁, hread, -⟩
    · exact absurd hready (hnot [] reader).2
    · exact hr
    · rw [hready] at hread
      cases hread
    · rw [hready] at hread
      cases hread

/-- What is sent is a part of the dialogue from its beginning. -/
theorem sent_of_ends {r : Except Stop Tunnel} {c' : Conn} (h : HandshakeEnds config c r c') :
    ∃ names n, c'.sent = c.sent ++ (dialogue config names).take n := by
  have hgreeting : ∀ n, ∃ k, (wire [greeting config]).take n = (dialogue config []).take k := by
    intro n
    refine ⟨min n (wire [greeting config]).length, ?_⟩
    rw [dialogue_eq, List.take_append_of_le_length (Nat.min_le_right _ _), List.take_eq_take_iff]
    omega
  have hwhole : ∀ names, ∃ k, dialogue config names = (dialogue config names).take k :=
    fun names => ⟨_, List.take_length.symm⟩
  cases h with
  | unsent _ hsent =>
    obtain ⟨n, hsent⟩ := hsent
    obtain ⟨k, hk⟩ := hgreeting n
    exact ⟨[], k, hk ▸ hsent⟩
  | unasked _ _ hsent =>
    obtain ⟨k, hk⟩ := hgreeting (wire [greeting config]).length
    rw [List.take_length] at hk
    exact ⟨[], k, hk ▸ hsent⟩
  | garbled _ _ hsent =>
    obtain ⟨k, hk⟩ := hgreeting (wire [greeting config]).length
    rw [List.take_length] at hk
    exact ⟨[], k, hk ▸ hsent⟩
  | @cut names _ _ _ _ _ hsent => exact ⟨names, hsent⟩
  | @refused names _ _ _ _ _ hsent =>
    obtain ⟨k, hk⟩ := hwhole names
    exact ⟨names, k, hk ▸ hsent⟩
  | @garbledReady names _ _ _ _ hsent =>
    obtain ⟨k, hk⟩ := hwhole names
    exact ⟨names, k, hk ▸ hsent⟩
  | @nameless names _ _ _ _ _ _ hsent =>
    obtain ⟨k, hk⟩ := hwhole names
    exact ⟨names, k, hk ▸ hsent⟩
  | connected h =>
    obtain ⟨names, -, -, -, -, -, -, -, rfl⟩ := h
    obtain ⟨k, hk⟩ := hwhole names
    exact ⟨names, k, by rw [← hk]⟩

end Handshake

/-! ## The way to the browser -/

section Relay

variable {u body rest tail : List UInt8} {us : List (List UInt8)}

/-- A line takes one round of the loop. -/
theorem relay_line (h : delimiter ∉ body) (rest : List UInt8) (err : String) :
    relay { unread := body ++ delimiter :: rest, err } =
      (if (handedOn (body ++ [delimiter])).length = 0 then relay { unread := rest, err }
      else handedOn (body ++ [delimiter]) :: relay { unread := rest, err }) := by
  obtain ⟨hline, hafter⟩ := @line_append body rest h
  have hcount : (body ++ delimiter :: rest).count delimiter = rest.count delimiter + 1 := by
    rw [List.count_append, List.count_eq_zero.mpr h, List.count_cons_self, Nat.zero_add]
  have hread : Reader.read { unread := body ++ delimiter :: rest, err } =
      .returned (handedOn (body ++ [delimiter]), { unread := rest, err }) := by
    have hmem : delimiter ∈ (⟨body ++ delimiter :: rest, err⟩ : Reader).unread :=
      List.mem_append_right _ List.mem_cons_self
    rw [read_line hmem, Reader.afterLine, hline, hafter]
  unfold relay
  rw [hcount, relayRounds, hread]

theorem relay_end (h : delimiter ∉ tail) (err : String) :
    relay { unread := tail, err } = disconnect tunnelClosed "远程连接已关闭" := by
  have hread : Reader.read { unread := tail, err } = .failed err := by
    rw [Reader.read, Reader.readBytes, if_neg h]
    rfl
  unfold relay
  rw [relayRounds, hread]

theorem relay_isLine (h : IsLine u) (rest : List UInt8) (err : String) :
    relay { unread := u ++ rest, err } = u :: relay { unread := rest, err } := by
  obtain ⟨body, hbody, rfl, hspecial⟩ := h
  rw [List.append_assoc, List.singleton_append, relay_line hbody, handedOn_of_not_mem hspecial,
    if_neg (by simp)]

/-- The two lines of an audio stream are one message, always with the higher rate. -/
theorem relay_audioAt {rate : List UInt8} (h : rate = rate44100 ∨ rate = rate22050)
    (rest : List UInt8) (err : String) : relay { unread := audioAt rate ++ rest, err } =
      audioAt rate44100 :: relay { unread := rest, err } := by
  obtain ⟨first, hfirst, haudio⟩ : ∃ first, delimiter ∉ first ∧ audioL16 = first ++ [delimiter] :=
    ⟨bytesOf "5.audio,1.1,31.audio/L16", by decide, by decide⟩
  obtain ⟨second, hsecond, hrate⟩ : ∃ second, delimiter ∉ second ∧ rate = second ++ [delimiter] := by
    rcases h with rfl | rfl
    · exact ⟨bytesOf "rate=44100,channels=2", by decide, by decide⟩
    · exact ⟨bytesOf "rate=22050,channels=2", by decide, by decide⟩
  have hsplit : audioAt rate ++ rest = first ++ delimiter :: (second ++ delimiter :: rest) := by
    rw [audioAt, haudio, hrate]
    simp
  have hopens : handedOn (first ++ [delimiter]) = audioAt rate44100 := by
    rw [← haudio, handedOn, if_neg special_ne.2.1, if_neg special_ne.2.2.1, if_pos rfl, audioAt]
  have hdropped : handedOn (second ++ [delimiter]) = [] := by
    rw [← hrate]
    rcases h with rfl | rfl
    · rw [handedOn, if_pos rfl]
    · rw [handedOn, if_neg special_ne.1, if_pos rfl]
  rw [hsplit, relay_line hfirst, hopens, if_neg (by simp [audioAt, audioL16, bytesOf]), relay_line hsecond,
    hdropped, List.length_nil, if_pos rfl]

end Relay

/-! ## The messages at the end -/

section Disconnect

theorem plain_digit {n : Nat} (h : n < 64) : (Base64.digit n).toNat < 128 ∧
    Base64.digit n ≠ ',' ∧ Base64.digit n ≠ '.' ∧ Base64.digit n ≠ ';' := by
  have hall : ∀ n : Fin 64, (Base64.digit n).toNat < 128 ∧
      Base64.digit n ≠ ',' ∧ Base64.digit n ≠ '.' ∧ Base64.digit n ≠ ';' := by decide
  exact hall ⟨n, h⟩

theorem plain_encode (bytes : List UInt8) : Plain (String.ofList (Base64.encode bytes)) := by
  unfold Plain
  rw [String.toList_ofList]
  have hpad : ('='.toNat < 128 ∧ '=' ≠ ',' ∧ '=' ≠ '.' ∧ '=' ≠ ';') := by decide
  induction bytes using Base64.encode.induct with
  | case1 => exact fun c hc => absurd hc List.not_mem_nil
  | case2 a =>
    have ha := a.toNat_lt
    have hx := @plain_digit (a.toNat / 4) (by omega)
    have hy := @plain_digit (a.toNat % 4 * 16) (by omega)
    simp only [Base64.encode, List.forall_mem_cons, List.not_mem_nil, false_implies, implies_true]
    exact ⟨hx, hy, hpad, hpad, trivial⟩
  | case3 a b =>
    have ha := a.toNat_lt
    have hb := b.toNat_lt
    have hx := @plain_digit (a.toNat / 4) (by omega)
    have hy := @plain_digit (a.toNat % 4 * 16 + b.toNat / 16) (by omega)
    have hz := @plain_digit (b.toNat % 16 * 4) (by omega)
    simp only [Base64.encode, List.forall_mem_cons, List.not_mem_nil, false_implies, implies_true]
    exact ⟨hx, hy, hz, hpad, trivial⟩
  | case4 a b c rest ih =>
    have ha := a.toNat_lt
    have hb := b.toNat_lt
    have hc := c.toNat_lt
    have hx := @plain_digit (a.toNat / 4) (by omega)
    have hy := @plain_digit (a.toNat % 4 * 16 + b.toNat / 16) (by omega)
    have hz := @plain_digit (b.toNat % 16 * 4 + c.toNat / 64) (by omega)
    have hw := @plain_digit (c.toNat % 64) (by omega)
    rw [Base64.encode]
    simp only [List.forall_mem_cons]
    exact ⟨hx, hy, hz, hw, ih⟩

theorem plain_of_isDigit {c : Char} (h : c.isDigit = true) :
    c.toNat < 128 ∧ c ≠ ',' ∧ c ≠ '.' ∧ c ≠ ';' := by
  have hle : c.toNat ≤ 57 := by
    unfold Char.isDigit at h
    rw [Bool.and_eq_true, decide_eq_true_eq, decide_eq_true_eq] at h
    exact h.2
  refine ⟨by omega, ?_, ?_, ?_⟩
  · rintro rfl
    exact absurd h (by decide)
  · rintro rfl
    exact absurd h (by decide)
  · rintro rfl
    exact absurd h (by decide)

theorem plain_nat (n : Nat) : ∀ c ∈ n.repr.toList, c.toNat < 128 ∧ c ≠ ',' ∧ c ≠ '.' ∧ c ≠ ';' := by
  intro c hc
  rw [Nat.toList_repr] at hc
  exact plain_of_isDigit (Nat.isDigit_of_mem_toDigits (by omega) (by omega) hc)

theorem plain_int (code : Int) : Plain (toString code) := by
  cases code with
  | ofNat n => exact plain_nat n
  | negSucc n =>
    have htext : (toString (Int.negSucc n)).toList = '-' :: (n + 1).repr.toList := by
      show ("-" ++ (n + 1).repr).toList = _
      rw [String.toList_append]
      rfl
    unfold Plain
    rw [htext, List.forall_mem_cons]
    exact ⟨by decide, plain_nat (n + 1)⟩

/-- Commands of plain texts make their round trip. -/
theorem roundTrips_of_plain {cs : List Command} (h : ∀ c ∈ cs, ∀ e ∈ c.elements, Plain e)
    (err : String) : RoundTrips cs err := by
  refine ⟨fun c hc => ?_, fun c hc => ?_, readInstructions_strings h⟩
  · exact (string_eq_protocolText fun e he => (plain_iff.mp (h c hc e he)).2.2.1).mpr fun e he =>
      (plain_iff.mp (h c hc e he)).1
  · exact (parse_instruction fun e he => (plain_iff.mp (h c hc e he)).2.1).mpr fun e he =>
      (plain_iff.mp (h c hc e he)).2.2

/-- The commands that end a session in the browser. -/
def endingCommands (reason : String) (code : Int) : List Command :=
  [⟨"error", [reason, toString code]⟩, ⟨"disconnect", []⟩]

/-- **Last messages**: whatever the reason, what the browser is told last is well formed and is read back,
with the reason as Base64. -/
theorem disconnect_spec (code : Int) (reason err : String) : ∃ encoded : String,
    Base64.decode encoded.toList = some (bytesOf reason) ∧
    disconnect code reason =
      (endingCommands encoded code).map (fun c => c.instruction.string.1) ∧
    closeMessages code = (endingCommands "" code).map (fun c => c.instruction.string.1) ∧
    RoundTrips (endingCommands encoded code) err ∧ RoundTrips (endingCommands "" code) err := by
  have hplain : ∀ text, Plain text → ∀ c ∈ endingCommands text code, ∀ e ∈ c.elements, Plain e := by
    intro text htext c hc
    have herror : Plain "error" := by
      unfold Plain
      simp
    have hdisconnect : Plain "disconnect" := by
      unfold Plain
      simp
    rcases List.mem_cons.mp hc with rfl | hc
    · exact List.forall_mem_cons.mpr ⟨herror, List.forall_mem_cons.mpr ⟨htext,
        List.forall_mem_singleton.mpr (plain_int code)⟩⟩
    · obtain rfl := List.mem_singleton.mp hc
      exact List.forall_mem_singleton.mpr hdisconnect
  have hempty : Plain "" := fun c hc => absurd hc List.not_mem_nil
  refine ⟨String.ofList (Base64.encode (bytesOf reason)), ?_, rfl, rfl,
    roundTrips_of_plain (hplain _ (plain_encode _)) err, roundTrips_of_plain (hplain _ hempty) err⟩
  rw [String.toList_ofList, Base64.decode_encode]

end Disconnect

end Guacamole

end NextDBM
