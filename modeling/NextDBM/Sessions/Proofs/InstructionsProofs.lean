import NextDBM.Library.Text
import NextDBM.Library.Utf8
import NextDBM.Sessions.Instructions

/-!
# Proofs about Guacamole instructions

A text is parsed by its commas and dots and read up to its first semicolon, whatever the lengths say: an
instruction comes back exactly when none of these stands in its elements. The lengths that are written
count bytes, which are the characters of ASCII texts only.
-/

namespace NextDBM

open Calls Text

namespace Guacamole

variable {content : List UInt8} {opt : Instruction} {reader : Reader} {cs : List Command}
  {value : List UInt8} {es : List (List UInt8)} {err : String} {s : String}

/-! ## Parsing -/

theorem second_eq_returned {message arg : List UInt8} :
    second message = .returned arg ↔ (message.splitOn dot)[1]? = some arg := by
  unfold second
  cases (message.splitOn dot)[1]? with
  | none => simp
  | some a => simp

theorem second_not_failed (message : List UInt8) : ¬ (second message).Failed := by
  unfold second
  rintro ⟨text, h⟩
  split at h
  · cases h
  · cases h

/-- The elements of what is parsed are the second pieces of the messages. -/
theorem parse_eq_returned : parse content = .returned opt ↔ ∃ opcode args,
    opt = newInstruction opcode args ∧
      List.Forall₂ (fun message arg => second message = .returned arg)
        ((trimmed content).splitOn comma) (opcode :: args) := by
  unfold parse
  constructor
  · intro h
    cases hargs : ((trimmed content).splitOn comma).foldlM (fun args message => do
        let arg ← second message
        pure (args ++ [arg])) [] with
    | failed text => rw [hargs] at h; cases h
    | panicked => rw [hargs] at h; cases h
    | returned args =>
      rw [hargs] at h
      obtain ⟨added, rfl, hadded⟩ := Outcome.foldlM_append_eq.mp hargs
      cases args with
      | nil => cases h
      | cons opcode args =>
        cases h
        exact ⟨opcode, args, rfl, hadded⟩
  · rintro ⟨opcode, args, rfl, h⟩
    rw [Outcome.foldlM_append_eq.mpr ⟨opcode :: args, rfl, h⟩]
    rfl

theorem parse_not_failed : ¬ (parse content).Failed := by
  unfold parse
  rw [Outcome.failed_bind]
  rintro (h | ⟨args, -, h⟩)
  · refine Outcome.not_failed_foldlM (fun args message => ?_) _ _ h
    rw [Outcome.failed_bind]
    rintro (h | ⟨arg, -, h⟩)
    · exact second_not_failed message h
    · exact Outcome.not_failed_returned h
  · cases args with
    | nil => obtain ⟨text, h⟩ := h; cases h
    | cons opcode args => exact Outcome.not_failed_returned h

theorem exists_forall₂_iff {α β : Type} {R : α → β → Prop} {as : List α} :
    (∃ bs, List.Forall₂ R as bs) ↔ ∀ a ∈ as, ∃ b, R a b := by
  induction as with
  | nil => exact ⟨fun _ a ha => absurd ha List.not_mem_nil, fun _ => ⟨[], .nil⟩⟩
  | cons a as ih =>
    rw [List.forall_mem_cons, ← ih]
    constructor
    · rintro ⟨bs, h⟩
      cases h with
      | cons hab hrest => exact ⟨⟨_, hab⟩, _, hrest⟩
    · rintro ⟨⟨b, hab⟩, bs, hrest⟩
      exact ⟨b :: bs, .cons hab hrest⟩

theorem exists_second {message : List UInt8} :
    (∃ arg, second message = .returned arg) ↔ dot ∈ message := by
  rw [← isSome_getElem?_splitOn, Option.isSome_iff_exists]
  exact exists_congr fun arg => second_eq_returned

theorem parse_ne_panicked : parse content ≠ .panicked ↔ Dotted content := by
  have hall : (∃ args, List.Forall₂ (fun message arg => second message = .returned arg)
      ((trimmed content).splitOn comma) args) ↔ Dotted content := by
    rw [exists_forall₂_iff]
    exact forall₂_congr fun message _ => exists_second
  rw [← hall]
  constructor
  · intro h
    cases hparse : parse content with
    | failed text => exact absurd ⟨text, hparse⟩ parse_not_failed
    | panicked => exact absurd hparse h
    | returned opt =>
      obtain ⟨opcode, args, -, hargs⟩ := parse_eq_returned.mp hparse
      exact ⟨opcode :: args, hargs⟩
  · rintro ⟨args, hargs⟩
    cases args with
    | nil =>
      rw [List.forall₂_nil_right_iff] at hargs
      exact absurd hargs (List.splitOn_ne_nil _ _)
    | cons opcode args =>
      rw [parse_eq_returned.mpr ⟨opcode, args, rfl, hargs⟩]
      exact Outcome.returned_ne_panicked

/-! ## Lines -/

theorem line_append {body rest : List UInt8} (h : delimiter ∉ body) :
    line (body ++ delimiter :: rest) = body ++ [delimiter] ∧
      ((body ++ delimiter :: rest).dropWhile (· != delimiter)).tail = rest := by
  have hall : ∀ x ∈ body, (x != delimiter) = true := by
    intro x hx
    rw [bne_iff_ne]
    rintro rfl
    exact h hx
  have hstop : (delimiter != delimiter) = false := by decide
  constructor
  · rw [line, List.takeWhile_append_of_pos hall, List.takeWhile_cons, hstop, if_neg Bool.false_ne_true,
      List.append_nil]
  · rw [List.dropWhile_append_of_pos hall, List.dropWhile_cons, hstop, if_neg Bool.false_ne_true,
      List.tail_cons]

theorem trimmed_line {body : List UInt8} (h : delimiter ∉ body) (hne : body ≠ []) :
    trimmed (body ++ [delimiter]) = body := by
  have hmem : delimiter ∈ (body ++ [delimiter]).tail := by
    rw [List.tail_append_of_ne_nil hne]
    exact List.mem_append_right _ (List.mem_singleton_self _)
  have hlast : body.rdropWhile (· == delimiter) = body := by
    rw [List.rdropWhile_eq_self_iff]
    intro _ hx
    exact h (beq_iff_eq.mp hx ▸ List.getLast_mem hne)
  rw [trimmed, if_pos hmem, List.rdropWhile_concat_pos _ _ _ (by decide), hlast]

theorem delimiter_not_mem_takeWhile (bytes : List UInt8) :
    delimiter ∉ bytes.takeWhile (· != delimiter) := by
  intro h
  exact absurd (List.mem_takeWhile_imp h) (by decide)

/-- What is parsed of a line has no semicolon left. -/
theorem delimiter_not_mem_of_parse_line {bytes : List UInt8} (h : parse (line bytes) = .returned opt) :
    ∀ e ∈ opt.opcode :: opt.args, delimiter ∉ e := by
  obtain ⟨opcode, args, rfl, hall⟩ := parse_eq_returned.mp h
  have hbody := delimiter_not_mem_takeWhile bytes
  have hnot : delimiter ∉ trimmed (line bytes) := by
    by_cases hne : bytes.takeWhile (· != delimiter) = []
    · -- A semicolon alone is not cut off, and has no dot.
      have hdotted : Dotted (line bytes) := by
        rw [← parse_ne_panicked, h]
        exact Outcome.returned_ne_panicked
      rw [line, hne] at hdotted
      exact absurd (hdotted _ List.mem_cons_self) (by decide)
    · rw [line, trimmed_line hbody hne]
      exact hbody
  intro e he hmem
  have hlift (messages args' : List (List UInt8)) (he : e ∈ args')
      (hall : List.Forall₂ (fun message arg => second message = .returned arg) messages args') :
      ∃ message ∈ messages, second message = .returned e := by
    induction hall with
    | nil => exact absurd he List.not_mem_nil
    | @cons message arg messages args' hsecond _ ih =>
      rcases List.mem_cons.mp he with rfl | he
      · exact ⟨message, List.mem_cons_self, hsecond⟩
      · obtain ⟨message', hmessage, hsecond⟩ := ih he
        exact ⟨message', List.mem_cons_of_mem message hmessage, hsecond⟩
  obtain ⟨message, hmessage, hsecond⟩ := hlift _ _ he hall
  have hpiece := List.mem_of_getElem? (second_eq_returned.mp hsecond)
  exact hnot (mem_of_mem_splitOn hmessage (mem_of_mem_splitOn hpiece hmem))

/-! ## The text of an instruction -/

theorem not_mem_digits {c : Char} {x : UInt8} (hx : x.toNat < 128) (hc : c.toNat = x.toNat)
    (hdigit : c.isDigit = false) (n : Nat) : x ∉ bytesOf (toString n) := by
  intro h
  have hmem := (Utf8.mem_toByteArray hx hc).mp h
  rw [Nat.toString_eq_repr, Nat.toList_repr] at hmem
  rw [Nat.isDigit_of_mem_toDigits (by omega) (by omega) hmem] at hdigit
  cases hdigit

theorem delimiter_not_mem_digits (n : Nat) : delimiter ∉ bytesOf (toString n) :=
  @not_mem_digits ';' delimiter (by decide) rfl rfl n

theorem comma_not_mem_digits (n : Nat) : comma ∉ bytesOf (toString n) :=
  @not_mem_digits ',' comma (by decide) rfl rfl n

theorem dot_not_mem_digits (n : Nat) : dot ∉ bytesOf (toString n) :=
  @not_mem_digits '.' dot (by decide) rfl rfl n

theorem digits_injective {m n : Nat} (h : bytesOf (toString m) = bytesOf (toString n)) : m = n := by
  have hstring : toString m = toString n := by
    have hsome := stringOf_bytesOf (toString m)
    rw [h, stringOf_bytesOf] at hsome
    exact (Option.some.inj hsome).symm
  have hdigits := congrArg String.toList hstring
  rw [Nat.toString_eq_repr, Nat.toString_eq_repr, Nat.toList_repr, Nat.toList_repr] at hdigits
  rw [← @Nat.ofDigitChars_toDigits 10 m (by omega) (by omega), hdigits,
    Nat.ofDigitChars_toDigits (by omega) (by omega)]

theorem delimiter_mem_element : delimiter ∈ element value ↔ delimiter ∈ value := by
  have hdigits := delimiter_not_mem_digits value.length
  have hdot : delimiter ≠ dot := by decide
  rw [element, List.mem_append, List.mem_cons]
  tauto

theorem comma_mem_element : comma ∈ element value ↔ comma ∈ value := by
  have hdigits := comma_not_mem_digits value.length
  have hdot : comma ≠ dot := by decide
  rw [element, List.mem_append, List.mem_cons]
  tauto

/-- The second piece of an element is its value when no dot stands there. -/
theorem second_element : second (element value) = .returned value ↔ dot ∉ value := by
  rw [second_eq_returned, element,
    List.splitOn_append_cons_self_of_not_mem (dot_not_mem_digits value.length)]
  constructor
  · intro h
    exact not_mem_of_mem_splitOn (List.mem_of_getElem? h)
  · intro h
    rw [List.splitOn_eq_singleton h]
    rfl

theorem foldl_element (args : List (List UInt8)) (before first : List UInt8) :
    args.foldl (fun form value => form ++ comma :: element value) (before ++ first) =
      before ++ [comma].intercalate (first :: args.map element) := by
  induction args generalizing before first with
  | nil => rw [List.foldl_nil, List.map_nil, List.intercalate_singleton]
  | cons value args ih =>
    have hstep : before ++ first ++ comma :: element value =
        (before ++ first ++ [comma]) ++ element value := by
      rw [List.append_assoc _ [comma], List.singleton_append]
    rw [List.foldl_cons, hstep, ih, List.map_cons, List.intercalate_cons_cons]
    simp only [List.append_assoc]

/-- The elements of an instruction. -/
def Instruction.elements (opt : Instruction) : List (List UInt8) := opt.opcode :: opt.args

/-- What stands before the semicolon. -/
def body (es : List (List UInt8)) : List UInt8 := [comma].intercalate (es.map element)

theorem string_newInstruction (opcode : List UInt8) (args : List (List UInt8)) :
    (newInstruction opcode args).string.1 = body (opcode :: args) ++ [delimiter] := by
  have hfold := foldl_element args [] (element opcode)
  rw [List.nil_append, List.nil_append] at hfold
  show _ ++ [delimiter] = _
  rw [newInstruction, hfold]
  rfl

theorem body_ne_nil (opcode : List UInt8) (args : List (List UInt8)) : body (opcode :: args) ≠ [] := by
  have hmem : dot ∈ body (opcode :: args) := by
    rw [← List.count_pos_iff, body, List.map_cons, count_intercalate_cons, List.map_cons, List.sum_cons]
    have hdot : dot ∈ element opcode := List.mem_append_right _ List.mem_cons_self
    have := List.count_pos_iff.mpr hdot
    omega
  exact List.ne_nil_of_mem hmem

theorem sum_count_element (x : UInt8) :
    ((es.map element).map (List.count x)).sum = 0 ↔ ∀ e ∈ es, x ∉ element e := by
  rw [List.sum_eq_zero_iff_forall_eq_nat, List.forall_mem_map, List.forall_mem_map]
  exact forall₂_congr fun e _ => List.count_eq_zero

theorem delimiter_not_mem_body {opcode : List UInt8} {args : List (List UInt8)} :
    delimiter ∉ body (opcode :: args) ↔ ∀ e ∈ opcode :: args, delimiter ∉ e := by
  have hcomma : [comma].count delimiter = 0 := by decide
  rw [← List.count_eq_zero, body, List.map_cons, count_intercalate_cons, ← List.map_cons, hcomma,
    Nat.mul_zero, Nat.add_zero, sum_count_element]
  exact forall₂_congr fun e _ => not_congr delimiter_mem_element

/-- The text is cut at the commas between the elements, and at those inside them. -/
theorem length_splitOn_body (opcode : List UInt8) (args : List (List UInt8)) :
    ((body (opcode :: args)).splitOn comma).length = (opcode :: args).length ↔
      ∀ e ∈ opcode :: args, comma ∉ e := by
  have hcomma : [comma].count comma = 1 := by decide
  have hsum : (∀ e ∈ opcode :: args, comma ∉ e) ↔ ∀ e ∈ opcode :: args, comma ∉ element e :=
    forall₂_congr fun e _ => not_congr comma_mem_element.symm
  rw [hsum, ← sum_count_element, length_splitOn, body, List.map_cons, count_intercalate_cons,
    ← List.map_cons, hcomma, List.length_map, List.length_cons]
  omega

theorem splitOn_body {opcode : List UInt8} {args : List (List UInt8)}
    (h : ∀ e ∈ opcode :: args, comma ∉ e) :
    (body (opcode :: args)).splitOn comma = (opcode :: args).map element := by
  refine List.splitOn_intercalate comma ?_ (List.cons_ne_nil _ _)
  intro l hl
  obtain ⟨e, he, rfl⟩ := List.mem_map.mp hl
  exact fun hmem => h e he (comma_mem_element.mp hmem)

/-- Without semicolons in its elements, an instruction is parsed back exactly when there are no commas
and no dots there either. -/
theorem parse_string {opcode : List UInt8} {args : List (List UInt8)}
    (hdelimiter : ∀ e ∈ opcode :: args, delimiter ∉ e) :
    parse (newInstruction opcode args).string.1 = .returned (newInstruction opcode args) ↔
      ∀ e ∈ opcode :: args, comma ∉ e ∧ dot ∉ e := by
  rw [string_newInstruction, parse_eq_returned,
    trimmed_line (delimiter_not_mem_body.mpr hdelimiter) (body_ne_nil opcode args)]
  have hall (hcomma : ∀ e ∈ opcode :: args, comma ∉ e) :
      List.Forall₂ (fun message arg => second message = .returned arg)
        ((body (opcode :: args)).splitOn comma) (opcode :: args) ↔ ∀ e ∈ opcode :: args, dot ∉ e := by
    rw [splitOn_body hcomma, List.forall₂_map_left_iff, List.forall₂_same]
    exact forall₂_congr fun e _ => second_element
  constructor
  · rintro ⟨opcode', args', heq, h⟩
    cases heq
    have hcomma := (length_splitOn_body opcode args).mp h.length_eq
    have hdot := (hall hcomma).mp h
    exact fun e he => ⟨hcomma e he, hdot e he⟩
  · intro h
    exact ⟨opcode, args, rfl, (hall fun e he => (h e he).1).mpr fun e he => (h e he).2⟩

/-! ## Reading -/

/-- The reader after the next line. -/
def Reader.afterLine (reader : Reader) : Reader :=
  { reader with unread := (reader.unread.dropWhile (· != delimiter)).tail }

theorem parse_nil : parse [] = .panicked := by decide

/-- Of the special lines only that of the audio stream is parsed. -/
theorem parse_special : parse rate44100 = .panicked ∧ parse rate22050 = .panicked ∧
    parse (audioL16 ++ rate44100) = .panicked ∧
    parse audioL16 =
      .returned (newInstruction (bytesOf "audio") [bytesOf "1", bytesOf "audio/L16"]) := by
  decide

theorem special_ne : rate22050 ≠ rate44100 ∧ audioL16 ≠ rate44100 ∧ audioL16 ≠ rate22050 ∧
    (newInstruction (bytesOf "audio") [bytesOf "1", bytesOf "audio/L16"]).string.1 ≠ audioL16 := by
  decide

/-- What `Read` hands on for a line. -/
def handedOn (data : List UInt8) : List UInt8 :=
  if data = rate44100 then []
  else if data = rate22050 then []
  else if data = audioL16 then data ++ rate44100
  else data

theorem read_line (h : delimiter ∈ reader.unread) :
    reader.read = .returned (handedOn (line reader.unread), reader.afterLine) := by
  rw [Reader.read, Reader.readBytes, if_pos h]
  unfold handedOn
  show (if line reader.unread = rate44100 then _ else _ : Outcome (List UInt8 × Reader)) = _
  split_ifs with h1 h2 h3
  all_goals rfl

/-- Of a special line nothing can be parsed. -/
theorem parse_handedOn_special {data : List UInt8} (h : data ∈ specialLines) :
    parse (handedOn data) = .panicked := by
  rcases List.mem_cons.mp h with rfl | h
  · rw [handedOn, if_pos rfl, parse_nil]
  · rcases List.mem_cons.mp h with rfl | h
    · rw [handedOn, if_neg special_ne.1, if_pos rfl, parse_nil]
    · rw [List.mem_singleton.mp h, handedOn, if_neg special_ne.2.1, if_neg special_ne.2.2.1,
        if_pos rfl, parse_special.2.2.1]

theorem handedOn_of_not_mem {data : List UInt8} (h : data ∉ specialLines) : handedOn data = data := by
  simp only [specialLines, List.mem_cons, List.not_mem_nil, or_false, not_or] at h
  rw [handedOn, if_neg h.1, if_neg h.2.1, if_neg h.2.2]

theorem readInstruction_end (h : delimiter ∉ reader.unread) :
    reader.readInstruction = .failed reader.err := by
  rw [Reader.readInstruction, Reader.read, Reader.readBytes, if_neg h]
  rfl

theorem readInstruction_line (h : delimiter ∈ reader.unread) : reader.readInstruction =
    (parse (handedOn (line reader.unread)) >>= fun opt => pure (opt, reader.afterLine)) := by
  rw [Reader.readInstruction, read_line h]
  rfl

/-- An instruction that is read is the one of the next line. -/
theorem readInstruction_eq_returned {reader' : Reader}
    (h : reader.readInstruction = .returned (opt, reader')) :
    delimiter ∈ reader.unread ∧ parse (line reader.unread) = .returned opt ∧
      reader' = reader.afterLine := by
  by_cases hmem : delimiter ∈ reader.unread
  · rw [readInstruction_line hmem] at h
    by_cases hspecial : line reader.unread ∈ specialLines
    · rw [parse_handedOn_special hspecial] at h
      cases h
    · rw [handedOn_of_not_mem hspecial] at h
      cases hparse : parse (line reader.unread) with
      | returned opt' => rw [hparse] at h; cases h; exact ⟨hmem, rfl, rfl⟩
      | failed text => rw [hparse] at h; cases h
      | panicked => rw [hparse] at h; cases h
  · rw [readInstruction_end hmem] at h
    cases h

/-! ## The claim on parsing -/

/-- **Safety of the parser**: a text is parsed and read without an index out of range exactly when every
element between commas has a dot and, where a line can be read, the line is none of the special ones and
its elements have dots as well. -/
theorem safe_iff : Safe content err ↔ Dotted content ∧
    (delimiter ∈ content → line content ∉ specialLines ∧ Dotted (line content)) := by
  have hread : Reader.readInstruction { unread := content, err } ≠ .panicked ↔
      (delimiter ∈ content → line content ∉ specialLines ∧ Dotted (line content)) := by
    by_cases hmem : delimiter ∈ content
    · rw [@readInstruction_line { unread := content, err } hmem]
      rw [ne_eq, Outcome.bind_pure_eq_panicked]
      by_cases hspecial : line content ∈ specialLines
      · rw [parse_handedOn_special hspecial]
        exact iff_of_false (fun h => h rfl) fun h => (h hmem).1 hspecial
      · rw [handedOn_of_not_mem hspecial, ← ne_eq, parse_ne_panicked]
        exact ⟨fun h _ => ⟨hspecial, h⟩, fun h => (h hmem).2⟩
    · rw [@readInstruction_end { unread := content, err } hmem]
      exact iff_of_true Outcome.failed_ne_panicked fun h => absurd h hmem
  exact ⟨fun h => ⟨parse_ne_panicked.mp h.parse, hread.mp h.read⟩,
    fun h => ⟨parse_ne_panicked.mpr h.1, hread.mpr h.2⟩⟩

/-- A line that `Read` empties is parsed all the same. -/
theorem not_safe_rate44100 : ¬ ∀ (content : List UInt8) (err : String), Safe content err := by
  intro h
  exact (h rate44100 "EOF").parse parse_special.1

/-! ## The claim on the round trip -/

theorem not_mem_bytesOf {c : Char} {x : UInt8} (hx : x.toNat < 128) (hc : c.toNat = x.toNat) :
    x ∉ bytesOf s ↔ ∀ d ∈ s.toList, d ≠ c := by
  rw [bytesOf, Utf8.mem_toByteArray hx hc]
  exact ⟨fun h d hd hdc => h (hdc ▸ hd), fun h hc => h c hc rfl⟩

theorem plain_iff : Plain s ↔ (bytesOf s).length = s.length ∧ delimiter ∉ bytesOf s ∧
    comma ∉ bytesOf s ∧ dot ∉ bytesOf s := by
  rw [@not_mem_bytesOf s ';' delimiter (by decide) rfl, @not_mem_bytesOf s ',' comma (by decide) rfl,
    @not_mem_bytesOf s '.' dot (by decide) rfl, bytesOf, Utf8.length_toByteArray_eq]
  constructor
  · intro h
    exact ⟨fun c hc => (h c hc).1, fun c hc => (h c hc).2.2.2, fun c hc => (h c hc).2.1,
      fun c hc => (h c hc).2.2.1⟩
  · rintro ⟨hascii, hdelimiter, hcomma, hdot⟩ c hc
    exact ⟨hascii c hc, hcomma c hc, hdot c hc, hdelimiter c hc⟩

theorem element_eq_iff : element (bytesOf s) = protocolElement s ↔ (bytesOf s).length = s.length := by
  constructor
  · intro h
    exact digits_injective (List.append_cancel_right h)
  · intro h
    rw [element, protocolElement, h]

theorem string_instruction (c : Command) :
    c.instruction.string.1 = body (c.elements.map bytesOf) ++ [delimiter] :=
  string_newInstruction _ _

theorem comma_mem_protocolElement : comma ∈ protocolElement s ↔ comma ∈ bytesOf s := by
  have hdigits := comma_not_mem_digits s.length
  have hdot : comma ≠ dot := by decide
  rw [protocolElement, List.mem_append, List.mem_cons]
  tauto

/-- Without commas in its elements, the text is the one of the protocol exactly when the elements have as
many bytes as characters. -/
theorem string_eq_protocolText {c : Command} (h : ∀ e ∈ c.elements, comma ∉ bytesOf e) :
    c.instruction.string.1 = c.protocolText ↔ ∀ e ∈ c.elements, (bytesOf e).length = e.length := by
  have hne {f : String → List UInt8} : c.elements.map f ≠ [] := by
    rw [Command.elements, List.map_cons]
    exact List.cons_ne_nil _ _
  have hbody : (body (c.elements.map bytesOf)).splitOn comma =
      c.elements.map fun e => element (bytesOf e) := by
    rw [body, List.map_map]
    refine List.splitOn_intercalate comma (List.forall_mem_map.mpr fun e he => ?_) hne
    exact fun hmem => h e he (comma_mem_element.mp hmem)
  have hprotocol : ([comma].intercalate (c.elements.map protocolElement)).splitOn comma =
      c.elements.map protocolElement := by
    refine List.splitOn_intercalate comma (List.forall_mem_map.mpr fun e he => ?_) hne
    exact fun hmem => h e he (comma_mem_protocolElement.mp hmem)
  rw [string_instruction, Command.protocolText, List.append_left_inj]
  constructor
  · intro heq e he
    rw [heq, hprotocol, List.map_inj_left] at hbody
    exact element_eq_iff.mp (hbody e he).symm
  · intro hlength
    rw [body, List.map_map]
    congr 1
    exact List.map_inj_left.mpr fun e he => element_eq_iff.mpr (hlength e he)

/-- A text that has an instruction without semicolons first is read as the text of that one. -/
theorem line_string {c : Command} (h : ∀ e ∈ c.elements.map bytesOf, delimiter ∉ e)
    (rest : List UInt8) : line (c.instruction.string.1 ++ rest) = c.instruction.string.1 ∧
      Reader.afterLine { unread := c.instruction.string.1 ++ rest, err } = { unread := rest, err } := by
  have hbody := delimiter_not_mem_body.mpr h
  have happend : c.instruction.string.1 ++ rest =
      body (c.elements.map bytesOf) ++ delimiter :: rest := by
    rw [string_instruction, List.append_assoc, List.singleton_append]
  obtain ⟨hline, hafter⟩ := @line_append _ rest hbody
  rw [happend, Reader.afterLine, string_instruction]
  exact ⟨hline, congrArg (fun unread => ({ unread, err } : Reader)) hafter⟩

/-- The text of an instruction is none of the special lines: of these only one is parsed at all, to an
instruction with another text. -/
theorem string_not_special {c : Command} (h : parse c.instruction.string.1 = .returned c.instruction) :
    c.instruction.string.1 ∉ specialLines := by
  intro hmem
  rcases List.mem_cons.mp hmem with heq | hmem
  · rw [heq, parse_special.1] at h
    cases h
  · rcases List.mem_cons.mp hmem with heq | hmem
    · rw [heq, parse_special.2.1] at h
      cases h
    · have heq := List.mem_singleton.mp hmem
      rw [heq, parse_special.2.2.2] at h
      have hinstruction := Outcome.returned.inj h
      rw [← hinstruction] at heq
      exact special_ne.2.2.2 heq

theorem parse_instruction {c : Command} (h : ∀ e ∈ c.elements, delimiter ∉ bytesOf e) :
    parse c.instruction.string.1 = .returned c.instruction ↔
      ∀ e ∈ c.elements, comma ∉ bytesOf e ∧ dot ∉ bytesOf e := by
  have hdelimiter : ∀ e ∈ c.elements.map bytesOf, delimiter ∉ e := List.forall_mem_map.mpr h
  rw [Command.instruction, parse_string hdelimiter]
  exact @List.forall_mem_map _ _ bytesOf c.elements (fun e => comma ∉ e ∧ dot ∉ e)

theorem readInstruction_string {c : Command} (h : ∀ e ∈ c.elements, Plain e) (rest : List UInt8) :
    Reader.readInstruction { unread := c.instruction.string.1 ++ rest, err } =
      .returned (c.instruction, { unread := rest, err }) := by
  have hdelimiter : ∀ e ∈ c.elements, delimiter ∉ bytesOf e := fun e he => (plain_iff.mp (h e he)).2.1
  have hparse : parse c.instruction.string.1 = .returned c.instruction :=
    (parse_instruction hdelimiter).mpr fun e he => (plain_iff.mp (h e he)).2.2
  obtain ⟨hline, hafter⟩ := @line_string err c (List.forall_mem_map.mpr hdelimiter) rest
  have hmem : delimiter ∈ c.instruction.string.1 ++ rest := by
    rw [string_instruction, List.mem_append, List.mem_append]
    exact .inl (.inr (List.mem_singleton_self _))
  rw [@readInstruction_line { unread := c.instruction.string.1 ++ rest, err } hmem, hafter]
  show (parse (handedOn (line (c.instruction.string.1 ++ rest))) >>= _) = _
  rw [hline, handedOn_of_not_mem (string_not_special hparse), hparse]
  rfl

theorem readInstructions_strings (h : ∀ c ∈ cs, ∀ e ∈ c.elements, Plain e) :
    Reader.readInstructions cs.length { unread := cs.flatMap fun c => c.instruction.string.1, err } =
      .returned (cs.map Command.instruction, { unread := [], err }) := by
  induction cs with
  | nil => rfl
  | cons c cs ih =>
    rw [List.forall_mem_cons] at h
    rw [List.length_cons, List.flatMap_cons, Reader.readInstructions, readInstruction_string h.1]
    show (Reader.readInstructions cs.length _ >>= _) = _
    rw [ih h.2]
    rfl

/-- The instructions that are read have no semicolons, so each of the lines is the whole text of one. -/
theorem delimiter_not_mem_of_read {reader' : Reader}
    (h : Reader.readInstructions cs.length
      { unread := cs.flatMap fun c => c.instruction.string.1, err } =
        .returned (cs.map Command.instruction, reader')) :
    ∀ c ∈ cs, ∀ e ∈ c.elements, delimiter ∉ bytesOf e := by
  induction cs with
  | nil => exact fun c hc => absurd hc List.not_mem_nil
  | cons c cs ih =>
    rw [List.length_cons, List.flatMap_cons, Reader.readInstructions] at h
    cases hread : Reader.readInstruction
        { unread := c.instruction.string.1 ++ cs.flatMap fun c => c.instruction.string.1, err } with
    | failed text => rw [hread] at h; cases h
    | panicked => rw [hread] at h; cases h
    | returned r =>
      obtain ⟨opt, reader₁⟩ := r
      obtain ⟨-, hparse, hreader⟩ := readInstruction_eq_returned hread
      rw [hread] at h
      change (Reader.readInstructions cs.length reader₁ >>= _) = _ at h
      cases hrest : Reader.readInstructions cs.length reader₁ with
      | failed text => rw [hrest] at h; cases h
      | panicked => rw [hrest] at h; cases h
      | returned r =>
        obtain ⟨opts, reader₂⟩ := r
        rw [hrest] at h
        obtain ⟨hcons, rfl⟩ := Prod.mk.inj (Outcome.returned.inj h)
        obtain ⟨rfl, rfl⟩ := List.cons.inj hcons
        have hc : ∀ e ∈ c.elements.map bytesOf, delimiter ∉ e :=
          delimiter_not_mem_of_parse_line hparse
        have hce : ∀ e ∈ c.elements, delimiter ∉ bytesOf e :=
          fun e he => hc (bytesOf e) (List.mem_map_of_mem he)
        obtain ⟨-, hafter⟩ := @line_string err c hc (cs.flatMap fun c => c.instruction.string.1)
        rw [hreader, hafter] at hrest
        exact List.forall_mem_cons.mpr ⟨hce, ih hrest⟩

/-- **Round trip of the instructions**: the texts of a sequence have the lengths of the protocol, are
parsed back and are read one by one in order exactly when every opcode and argument is of ASCII
characters other than the comma, the dot and the semicolon. -/
theorem roundTrips_iff : RoundTrips cs err ↔ ∀ c ∈ cs, ∀ e ∈ c.elements, Plain e := by
  constructor
  · intro h c hc e he
    have hdelimiter := delimiter_not_mem_of_read h.read c hc
    have hparsed := (parse_instruction hdelimiter).mp (h.parsed c hc)
    have hlength := (string_eq_protocolText fun e he => (hparsed e he).1).mp (h.lengths c hc)
    exact plain_iff.mpr ⟨hlength e he, hdelimiter e he, hparsed e he⟩
  · intro h
    refine ⟨fun c hc => ?_, fun c hc => ?_, readInstructions_strings h⟩
    · exact (string_eq_protocolText fun e he => (plain_iff.mp (h c hc e he)).2.2.1).mpr fun e he =>
        (plain_iff.mp (h c hc e he)).1
    · exact (parse_instruction fun e he => (plain_iff.mp (h c hc e he)).2.1).mpr fun e he =>
        (plain_iff.mp (h c hc e he)).2.2

/-- A host name as the argument of an instruction is cut at its first dot. -/
theorem not_roundTrips_hostname : ¬ ∀ (cs : List Command) (err : String), RoundTrips cs err := by
  intro h
  have hparsed := (h [⟨"connect", ["10.0.0.1"]⟩] "EOF").parsed _ (List.mem_singleton_self _)
  exact absurd hparsed (by decide)

end Guacamole

end NextDBM
