import NextDBM.Proxy.Commands

/-!
# The audit of a proxied connection

A turn executes at most one statement. It executes none and writes no row; or it executes a marked
statement and writes no row; or it executes a plain statement and comes to the insert of its row,
unless the execution or the answer to the client panics before.
-/

namespace NextDBM.MariaDBProxy

open Calls

/-! ## Calls that the audit does not see -/

/-- A call that neither executes a statement nor inserts a row. -/
def Silent : Call → Prop
  | .execute _ => False
  | .createSqlLog _ => False
  | _ => True

/-- A call that inserts no row. -/
def Unlogged : Call → Prop
  | .createSqlLog _ => False
  | _ => True

theorem executions_append (es es' : Turn) :
    executions (es ++ es') = executions es ++ executions es' := List.filterMap_append

theorem rows_append (es es' : Turn) : rows (es ++ es') = rows es ++ rows es' :=
  List.filterMap_append

theorem executions_silent {e : Event Response} (h : Silent e.1) (es : Turn) :
    executions (e :: es) = executions es := by
  obtain ⟨c, r⟩ := e
  cases c with
  | execute sql => exact h.elim
  | createSqlLog row => exact h.elim
  | _ => rfl

theorem rows_silent {e : Event Response} (h : Silent e.1) (es : Turn) :
    rows (e :: es) = rows es := by
  obtain ⟨c, r⟩ := e
  cases c with
  | execute sql => exact h.elim
  | createSqlLog row => exact h.elim
  | _ => rfl

theorem rows_unlogged {es : Turn} (h : ∀ e ∈ es, Unlogged e.1) : rows es = [] := by
  refine List.filterMap_eq_nil_iff.mpr fun ⟨c, r⟩ he => ?_
  cases c with
  | createSqlLog row => exact (h _ he).elim
  | _ => rfl

/-- The statements of a turn are those of its calls of `Execute`. -/
theorem executes_of_executions {es : Turn} (h : executions es ≠ []) :
    ∃ sql r, ⟨.execute sql, r⟩ ∈ es := by
  obtain ⟨x, hx⟩ := List.exists_mem_of_ne_nil _ h
  obtain ⟨⟨c, r⟩, he, hsome⟩ := List.mem_filterMap.mp hx
  cases c with
  | execute sql => exact ⟨sql, r, he⟩
  | _ => cases hsome

/-- A stretch of silent calls shows neither statements nor rows. -/
theorem quiet {es : Turn} (h : ∀ e ∈ es, Silent e.1) : executions es = [] ∧ rows es = [] := by
  induction es with
  | nil => exact ⟨rfl, rfl⟩
  | cons e es ih =>
    have he : Silent e.1 := h e List.mem_cons_self
    obtain ⟨hexec, hrows⟩ := ih fun e' he' => h e' (List.mem_cons_of_mem e he')
    exact ⟨(executions_silent he es).trans hexec, (rows_silent he es).trans hrows⟩

/-! ## What each branch does -/

section Branches
variable {c : Call} {es : Turn}

theorem runs_check_bind {β : Type} {k : Except String (Answer c) → Program β} {o : Except Exit β} :
    Runs (check c >>= k) es o ↔
      (∃ a es', es = ⟨c, .returned a⟩ :: es' ∧ Runs (k (.ok a)) es' o) ∨
      (∃ e es', es = ⟨c, .failed e⟩ :: es' ∧ Runs (k (.error e)) es' o) ∨
      es = [⟨c, .panicked⟩] ∧ o = .error .panic := runs_attempt_bind

theorem runs_orReturn_bind {β : Type} {k : Answer c → Program β} {o : Except Exit β} :
    Runs (orReturn c >>= k) es o ↔
      (∃ a es', es = ⟨c, .returned a⟩ :: es' ∧ Runs (k a) es' o) ∨
      (∃ e, es = [⟨c, .failed e⟩] ∧ o = .error (.returned e)) ∨
      es = [⟨c, .panicked⟩] ∧ o = .error .panic := runs_obtained_bind

/-- A last call whose error is the result. -/
theorem trace_of_errorOf {o : Except Exit (Option String)} (h : Runs (errorOf <$> check c) es o) :
    ∃ r, es = [⟨c, r⟩] := by
  rcases runs_check_bind.mp h with ⟨a, es', rfl, hk⟩ | ⟨e, es', rfl, hk⟩ | ⟨rfl, -⟩
  · obtain ⟨rfl, -⟩ := runs_pure.mp hk
    exact ⟨_, rfl⟩
  · obtain ⟨rfl, -⟩ := runs_pure.mp hk
    exact ⟨_, rfl⟩
  · exact ⟨_, rfl⟩

theorem only_check {P : Call → Prop} (h : P c) : (check c).Only P := by
  refine ⟨h, fun r => ?_⟩
  cases r <;> trivial

theorem only_orReturn {P : Call → Prop} (h : P c) : (orReturn c).Only P := by
  refine ⟨h, fun r => ?_⟩
  cases r <;> trivial

theorem only_useDatabase (cmdData : String) : (useDatabase cmdData).Only Silent := by
  refine only_bind (only_check trivial) fun r => ?_
  cases r with
  | error err => exact only_bind (only_check trivial) fun _ => trivial
  | ok a => exact only_bind (only_check trivial) fun _ => trivial

/-- A marked statement inserts no row. -/
theorem only_callAI (cmdData : String) : (callAI cmdData).Only Unlogged := by
  refine only_bind (only_orReturn trivial) fun key => ?_
  refine only_bind (only_orReturn trivial) fun tokens => ?_
  refine only_bind (only_orReturn trivial) fun model => ?_
  refine only_bind (only_orReturn trivial) fun resp => ?_
  refine only_bind (only_orReturn trivial) fun v => ?_
  exact only_bind (only_check trivial) fun _ => trivial

/-- An answer to the client and the insert of a row that says how the statement ended. -/
theorem logged_trace {v : WireValue} {row : SqlLog} {o : Except Exit (Option String)}
    (h : Runs (do let _ ← check (.writeValue v); errorOf <$> check (.createSqlLog row)) es o) :
    es = [⟨.writeValue v, .panicked⟩] ∨
    ∃ w u, w ≠ .panicked ∧ es = [⟨.writeValue v, w⟩, ⟨.createSqlLog row, u⟩] := by
  rcases runs_check_bind.mp h with ⟨a, es', rfl, hk⟩ | ⟨e, es', rfl, hk⟩ | ⟨rfl, -⟩
  · obtain ⟨u, rfl⟩ := trace_of_errorOf hk
    exact .inr ⟨.returned a, u, Outcome.returned_ne_panicked, rfl⟩
  · obtain ⟨u, rfl⟩ := trace_of_errorOf hk
    exact .inr ⟨.failed e, u, Outcome.failed_ne_panicked, rfl⟩
  · exact .inl rfl

/-- A plain statement is executed. Its row, which says how it ended, comes last; a panic of the
execution or of the answer keeps the turn from it. -/
theorem executePlain_trace {sqlLogObj : SqlLog} {cmdType : UInt8} {o : Except Exit (Option String)}
    (h : Runs (executePlain sqlLogObj cmdType) es o) :
    es = [⟨.execute sqlLogObj.sqlCommand, .panicked⟩] ∨
    ∃ r v, r ≠ .panicked ∧
      (es = [⟨.execute sqlLogObj.sqlCommand, r⟩, ⟨.writeValue v, .panicked⟩] ∨
      ∃ w row u, w ≠ .panicked ∧ row.entry = (sqlLogObj.sqlCommand, SqlLog.stateOf r) ∧
        es = [⟨.execute sqlLogObj.sqlCommand, r⟩, ⟨.writeValue v, w⟩, ⟨.createSqlLog row, u⟩]) := by
  rcases runs_check_bind.mp h with ⟨v, es', rfl, hk⟩ | ⟨sqlErr, es', rfl, hk⟩ | ⟨rfl, -⟩
  · refine .inr ⟨.returned v, .result v, Outcome.returned_ne_panicked, ?_⟩
    rcases logged_trace hk with rfl | ⟨w, u, hw, rfl⟩
    · exact .inl rfl
    · exact .inr ⟨w, _, u, hw, rfl, rfl⟩
  · refine .inr ⟨.failed sqlErr, .error sqlErr, Outcome.failed_ne_panicked, ?_⟩
    rcases logged_trace hk with rfl | ⟨w, u, hw, rfl⟩
    · exact .inl rfl
    · exact .inr ⟨w, _, u, hw, rfl, rfl⟩
  · exact .inl rfl

end Branches

/-! ## One turn -/

/-- A turn that executes a statement meets what its row needs. -/
def Covered (es : Turn) : Prop := ∀ sql r, ⟨.execute sql, r⟩ ∈ es → Recordable es

/-- What the audit finds of a turn: its rows are among its statements, and they are all of them when
the turn is covered. -/
structure Accounted (es : Turn) : Prop where
  sub : (rows es).Sublist (executions es)
  iff : rows es = executions es ↔ Covered es

theorem mem_executions_iff {es : Turn} :
    executions es ≠ [] ↔ ∃ sql r, ⟨.execute sql, r⟩ ∈ es := by
  constructor
  · intro h
    obtain ⟨x, hx⟩ := List.exists_mem_of_ne_nil _ h
    obtain ⟨⟨c, r⟩, he, hsome⟩ := List.mem_filterMap.mp hx
    cases c with
    | execute sql => exact ⟨sql, r, he⟩
    | _ => cases hsome
  · rintro ⟨sql, r, he⟩
    exact List.ne_nil_of_mem (List.mem_filterMap.mpr ⟨_, he, rfl⟩)

/-- A turn that executes nothing and inserts no row. -/
theorem accounted_of_quiet {es : Turn} (h : ∀ e ∈ es, Silent e.1) : Accounted es := by
  obtain ⟨hexec, hrows⟩ := quiet h
  refine ⟨by rw [hrows, hexec], ⟨fun _ sql r he => ?_, fun _ => hrows.trans hexec.symm⟩⟩
  exact (h _ he).elim

/-- A turn that lacks something of what its row needs, and has no row. -/
theorem accounted_of_unlogged {es : Turn} (hrows : rows es = []) (hrec : ¬ Recordable es) :
    Accounted es := by
  refine ⟨hrows ▸ List.nil_sublist _, ?_⟩
  rw [hrows]
  constructor
  · intro hexec sql r he
    exact absurd hexec.symm (mem_executions_iff.mpr ⟨sql, r, he⟩)
  · intro hcov
    by_contra hne
    obtain ⟨sql, r, he⟩ := mem_executions_iff.mp (Ne.symm hne)
    exact hrec (hcov sql r he)

/-- A plain statement: the row is missing when the execution or the answer to the client panics, or
when its insert fails. -/
theorem accounted_of_plain {sqlLogObj : SqlLog} {cmdType first : UInt8} {data : List UInt8}
    {es : Turn} {o : Except Exit (Option String)}
    (hunmarked : aiMarked (hackString data) = false)
    (h : Runs (executePlain sqlLogObj cmdType) es o) :
    Accounted (⟨.readPacket, .returned (first :: data)⟩ :: ⟨.ping, .returned ()⟩ :: es) := by
  rcases executePlain_trace h with rfl | ⟨r, v, hr, rfl | ⟨w, row, u, hw, hrow, rfl⟩⟩
  · -- the execution panics: one statement and no row
    refine accounted_of_unlogged rfl fun hrec => ?_
    exact hrec.noPanic sqlLogObj.sqlCommand .panicked (by simp) rfl
  · refine accounted_of_unlogged rfl fun hrec => ?_
    exact hrec.written v .panicked (by simp) rfl
  · cases u with
    | returned u =>
      have hrows : rows [⟨.readPacket, .returned (first :: data)⟩, ⟨.ping, .returned ()⟩,
          ⟨.execute sqlLogObj.sqlCommand, r⟩, ⟨.writeValue v, w⟩,
          ⟨.createSqlLog row, .returned u⟩] = [row.entry] := rfl
      have hexec : executions [⟨.readPacket, .returned (first :: data)⟩, ⟨.ping, .returned ()⟩,
          ⟨.execute sqlLogObj.sqlCommand, r⟩, ⟨.writeValue v, w⟩,
          ⟨.createSqlLog row, .returned u⟩] = [(sqlLogObj.sqlCommand, SqlLog.stateOf r)] := rfl
      refine ⟨by rw [hrows, hexec, hrow], ⟨fun _ _ _ _ => ?_, fun _ => by rw [hrows, hexec, hrow]⟩⟩
      refine ⟨?_, ?_, ?_, ?_⟩
      · simpa using hunmarked
      · simpa using hr
      · simpa using hw
      · simp
    | failed e =>
      refine accounted_of_unlogged rfl fun hrec => ?_
      have hins := hrec.inserted row (.failed e) (by simp)
      cases hins
    | panicked =>
      refine accounted_of_unlogged rfl fun hrec => ?_
      have hins := hrec.inserted row .panicked (by simp)
      cases hins

theorem only_errorOf {P : Call → Prop} {c : Call} (h : P c) : (errorOf <$> check c).Only P :=
  only_bind (only_check h) fun _ => trivial

/-- The `switch` of a turn that read a packet, by the type of the command. -/
theorem accounted_of_dispatch {sqlLogObj : SqlLog} {cmdType : UInt8} {data : List UInt8}
    {es : Turn} {o : Except Exit (Option String)} (hdata : sqlLogObj.sqlCommand = hackString data)
    (h : Runs (dispatch sqlLogObj cmdType) es o) :
    Accounted (⟨.readPacket, .returned (cmdType :: data)⟩ :: es) := by
  have hsilent : ∀ {p : Program (Option String)}, p.Only Silent → Runs p es o →
      Accounted (⟨.readPacket, .returned (cmdType :: data)⟩ :: es) := by
    intro p hp hrun
    refine accounted_of_quiet fun e he => ?_
    rcases List.mem_cons.mp he with rfl | he
    · trivial
    · exact hrun.only hp e he
  unfold dispatch at h
  split_ifs at h with h2 h14 h1 hmarked
  · exact hsilent (only_useDatabase _) h
  · exact hsilent (only_errorOf (c := .writeValue .nilResult) trivial) h
  · refine hsilent (only_bind (only_check (c := .writeValue .nilResult) trivial) fun err => ?_) h
    exact only_bind (only_check (c := .clientClose) trivial) fun _ => trivial
  · -- a marked statement, after the ping
    rcases runs_orReturn_bind.mp h with ⟨a, es', rfl, hk⟩ | ⟨e, rfl, -⟩ | ⟨rfl, -⟩
    · refine accounted_of_unlogged (rows_unlogged fun e he => ?_) fun hrec => ?_
      · rcases List.mem_cons.mp he with rfl | he
        · trivial
        · rcases List.mem_cons.mp he with rfl | he
          · trivial
          · exact hk.only (only_callAI _) e he
      · have hfalse := hrec.unmarked cmdType data List.mem_cons_self
        rw [hdata, hfalse] at hmarked
        cases hmarked
    · exact accounted_of_quiet (by simp [Silent])
    · exact accounted_of_quiet (by simp [Silent])
  · rcases runs_orReturn_bind.mp h with ⟨a, es', rfl, hk⟩ | ⟨e, rfl, -⟩ | ⟨rfl, -⟩
    · rw [hdata] at hmarked
      exact accounted_of_plain (by simpa using hmarked) hk
    · exact accounted_of_quiet (by simp [Silent])
    · exact accounted_of_quiet (by simp [Silent])

/-- The calls of a turn on an open connection. -/
theorem accounted_of_serveCommand {session : Session} {id : String} {es : Turn}
    {o : Except Exit (Option String × Bool)} (h : Runs (serveCommand session id) es o) :
    Accounted es := by
  rcases runs_check_bind.mp h with ⟨packet, es', rfl, hk⟩ | ⟨e, es', rfl, hk⟩ | ⟨rfl, -⟩
  · cases packet with
    | nil =>
      obtain ⟨rfl, -⟩ := runs_stop.mp hk
      exact accounted_of_quiet (by simp [Silent])
    | cons cmdType data =>
      rcases runs_bind.mp hk with ⟨x, hx, -⟩ | ⟨err, es₁, es₂, rfl, h₁, h₂⟩
      · exact accounted_of_dispatch rfl hx
      · obtain ⟨rfl, -⟩ := runs_pure.mp h₂
        rw [List.append_nil]
        exact accounted_of_dispatch rfl h₁
  · obtain ⟨rfl, -⟩ := runs_pure.mp hk
    exact accounted_of_quiet (by simp [Silent])
  · exact accounted_of_quiet (by simp [Silent])

/-- **Step lemma**: every turn is accounted for, however it ends. -/
theorem accounted_of_processCommand {session : Session} {id : String} {isOpen : Bool} {es : Turn}
    {o : Except Empty (Option String × Bool)}
    (h : Runs (processCommand session id isOpen) es o) : Accounted es := by
  unfold processCommand at h
  split_ifs at h with hopen
  · rcases runs_handle.mp h with ⟨a, ha, -⟩ | ⟨x, es₁, es₂, rfl, h₁, h₂⟩
    · exact accounted_of_serveCommand ha
    · have hnil : es₂ = [] := by
        cases x with
        | returned err => exact (runs_pure.mp h₂).1
        | panic => exact (runs_pure.mp h₂).1
      rw [hnil, List.append_nil]
      exact accounted_of_serveCommand h₁
  · obtain ⟨rfl, -⟩ := runs_pure.mp h
    exact accounted_of_quiet fun e he => absurd he List.not_mem_nil

/-! ## A connection -/

/-- The turns of a connection are accounted for one by one. -/
theorem Serves.accounted {session : Session} {isOpen : Bool} {turns : List Turn}
    (h : Serves session isOpen turns) : ∀ es ∈ turns, Accounted es := by
  induction h with
  | start isOpen => exact fun es hes => absurd hes List.not_mem_nil
  | next id hturn hrest ih =>
    intro es hes
    rcases List.mem_cons.mp hes with rfl | hes
    · exact accounted_of_processCommand hturn
    · exact ih es hes
  | last id hturn =>
    intro es hes
    rw [List.mem_singleton.mp hes]
    exact accounted_of_processCommand hturn

/-- Rows that are among the statements turn by turn are all of them when they are so in each turn. -/
theorem audited_iff_forall {turns : List Turn} (h : ∀ es ∈ turns, Accounted es) :
    (rows turns.flatten).Sublist (executions turns.flatten) ∧
      (Audited turns ↔ ∀ es ∈ turns, Covered es) := by
  induction turns with
  | nil => exact ⟨List.Sublist.refl _, by simp [Audited, rows, executions]⟩
  | cons es turns ih =>
    have hes := h es List.mem_cons_self
    obtain ⟨hsub, hiff⟩ := ih fun es' hes' => h es' (List.mem_cons_of_mem es hes')
    unfold Audited at hiff ⊢
    rw [List.flatten_cons, rows_append, executions_append, List.forall_mem_cons, ← hes.iff, ← hiff]
    refine ⟨hes.sub.append hsub, fun heq => ?_, fun ⟨hfirst, hrest⟩ => by rw [hfirst, hrest]⟩
    -- neither part is longer than its statements, so neither is shorter
    have hlen : (rows es).length = (executions es).length := by
      have hsum := congrArg List.length heq
      rw [List.length_append, List.length_append] at hsum
      have hle := hes.sub.length_le
      have hle' := hsub.length_le
      omega
    have hfirst : rows es = executions es := hes.sub.eq_of_length hlen
    rw [hfirst] at heq
    exact ⟨hfirst, List.append_cancel_left heq⟩

/-- The rows of a connection are those of its statements, in their order, exactly when each turn that
executes a statement carries no marker, sees no panic of the execution or of the answer to the
client, and has its row inserted. -/
theorem commands_audited_iff {session : Session} {turns : List Turn} (h : Serves session true turns) :
    Audited turns ↔ ∀ es ∈ turns, ∀ sql r, ⟨.execute sql, r⟩ ∈ es → Recordable es :=
  (audited_iff_forall h.accounted).2

/-- An environment in which every call succeeds and the client sends one packet. -/
def obliging (packet : List UInt8) : (c : Call) → Response c
  | .readPacket => .returned packet
  | .findByName _ => .returned ""
  | .callDeepSeekAPI .. => .returned "42"
  | .execute _ => .returned ""
  | .writeValue _ => .returned ()
  | .useDB _ => .returned ()
  | .clientClose => .returned ()
  | .ping => .returned ()
  | .createSqlLog _ => .returned ()

/-- The packet `-- ai#`, command type 3. -/
def markedPacket : List UInt8 := [3, 45, 45, 32, 97, 105, 35]

/-- The packet `select 1`, command type 3. -/
def plainPacket : List UInt8 := [3, 115, 101, 108, 101, 99, 116, 32, 49]

/-- The turn of a packet in that environment. -/
def turnOf (packet : List UInt8) : Turn :=
  ((processCommand {} "id" true).exec (obliging packet)).1

/-- A plain statement is recorded: its turn has all that a row needs. -/
theorem plain_recordable : Recordable (turnOf plainPacket) := by
  have hend : ((processCommand {} "id" true).exec (obliging plainPacket)).2 = .ok (none, true) := by
    decide
  have hrun := runs_exec (obliging plainPacket) (processCommand {} "id" true)
  rw [hend] at hrun
  have hne : executions (turnOf plainPacket) ≠ [] := by decide
  obtain ⟨sql, r, hexecuted⟩ := executes_of_executions hne
  exact (commands_audited_iff (.next "id" hrun (.start true))).mp (by decide)
    (turnOf plainPacket) List.mem_cons_self sql r hexecuted

/-- A statement that carries the marker is executed and leaves no row. -/
theorem marked_not_audited :
    ¬ ∀ (session : Session) (turns : List Turn), Serves session true turns → Audited turns := by
  intro h
  have hend : ((processCommand {} "id" true).exec (obliging markedPacket)).2 = .ok (none, true) := by
    decide
  have hrun := runs_exec (obliging markedPacket) (processCommand {} "id" true)
  rw [hend] at hrun
  have haudited := h {} [turnOf markedPacket] (.next "id" hrun (.start true))
  revert haudited
  decide

end NextDBM.MariaDBProxy
