import NextDBM.Sessions.Recording

/-!
# Proofs: recording and chunks

In chunks of one byte no beginning of a transfer is ever seen, and everything is recorded. Where the
hexadecimal text of the stream has a beginning, one chunk that covers it is not recorded. So the data is
the same for all ways of cutting the stream exactly when no transfer begins in it
(`chunkIndependent_iff`).
-/

namespace NextDBM

namespace Recording

/-! ## Hexadecimal texts -/

section Hex

variable {p q : Chunk} {u t v : List Char}

theorem encodeToString_cons (b : UInt8) (p : Chunk) :
    encodeToString (b :: p) = Digest.hexByte b.toNat ++ encodeToString p := List.flatMap_cons

theorem encodeToString_append (p q : Chunk) :
    encodeToString (p ++ q) = encodeToString p ++ encodeToString q := List.flatMap_append

theorem length_encodeToString (p : Chunk) : (encodeToString p).length = 2 * p.length := by
  induction p with
  | nil => rfl
  | cons b p ih =>
    rw [encodeToString_cons, List.length_append, ih, List.length_cons]
    show 2 + 2 * p.length = _
    omega

/-- A stretch of a chunk is a stretch of its text. -/
theorem encodeToString_within (h : p <:+: q) : encodeToString p <:+: encodeToString q := by
  obtain ⟨a, b, rfl⟩ := h
  rw [encodeToString_append, encodeToString_append]
  exact List.infix_append _ _ _

theorem hexContains_iff : hexContains p t = true ↔ t <:+: encodeToString p := decide_eq_true_iff

/-- The stretch of a chunk from a place on has the text from twice that place on. -/
theorem encodeToString_drop (p : Chunk) (n : Nat) :
    encodeToString (p.drop n) = (encodeToString p).drop (2 * n) := by
  have hsplit : encodeToString p = encodeToString (p.take n) ++ encodeToString (p.drop n) := by
    rw [← encodeToString_append, List.take_append_drop]
  by_cases hn : n ≤ p.length
  · have hlen : (encodeToString (p.take n)).length = 2 * n := by
      rw [length_encodeToString, List.length_take_of_le hn]
    rw [hsplit, List.drop_left' hlen]
  · rw [List.drop_eq_nil_of_le (by omega), List.drop_eq_nil_of_le]
    · rfl
    · rw [length_encodeToString]
      omega

theorem encodeToString_take (p : Chunk) (n : Nat) :
    encodeToString (p.take n) = (encodeToString p).take (2 * n) := by
  have hsplit : encodeToString p = encodeToString (p.take n) ++ encodeToString (p.drop n) := by
    rw [← encodeToString_append, List.take_append_drop]
  by_cases hn : n ≤ p.length
  · have hlen : (encodeToString (p.take n)).length = 2 * n := by
      rw [length_encodeToString, List.length_take_of_le hn]
    rw [hsplit, List.take_left' hlen]
  · rw [List.take_of_length_le (by omega), List.take_of_length_le]
    rw [length_encodeToString]
    omega

/-- A text of whole bytes that stands in the text of a chunk stands in the text of a stretch that is at
most one digit longer on each side. -/
theorem exists_covering {n : Nat} (hlen : t.length = 2 * n) (h : t <:+: encodeToString p) :
    ∃ a c b x y, p = a ++ c ++ b ∧ encodeToString c = x ++ t ++ y ∧ x.length ≤ 1 ∧ y.length ≤ 1 := by
  obtain ⟨u, v, huv⟩ := h
  have hrest : (encodeToString p).drop (2 * (u.length / 2)) =
      u.drop (2 * (u.length / 2)) ++ (t ++ v) := by
    rw [← huv, List.append_assoc, List.drop_append_of_le_length (by omega)]
  have hx : (u.drop (2 * (u.length / 2))).length = u.length % 2 := by
    rw [List.length_drop]
    omega
  refine ⟨p.take (u.length / 2), (p.drop (u.length / 2)).take (n + u.length % 2),
    (p.drop (u.length / 2)).drop (n + u.length % 2), u.drop (2 * (u.length / 2)),
    v.take (u.length % 2), ?_, ?_, ?_, ?_⟩
  · rw [List.append_assoc, List.take_append_drop, List.take_append_drop]
  · rw [encodeToString_take, encodeToString_drop, hrest, List.take_append, hx, List.take_append,
      hlen, List.append_assoc, List.take_of_length_le, List.take_of_length_le]
    · congr 3
      omega
    · rw [hlen]
      omega
    · rw [hx]
      omega
  · rw [hx]
    omega
  · rw [List.length_take]
    omega

theorem tail_infix_of_infix_cons {α : Type} {a : α} {l m : List α} (h : l <:+: a :: m) :
    l.tail <:+: m := by
  rcases List.infix_cons_iff.mp h with h | h
  · cases l with
    | nil => exact List.nil_infix
    | cons b l => exact (List.cons_prefix_cons.mp h).2.isInfix
  · exact (List.tail_suffix l).isInfix.trans h

theorem dropLast_infix_of_infix_concat {α : Type} {a : α} {l m : List α} (h : l <:+: m ++ [a]) :
    l.dropLast <:+: m := by
  rcases List.infix_concat_iff.mp h with h | h
  · rcases List.suffix_concat_iff.mp h with rfl | ⟨l', rfl, hsuffix⟩
    · exact List.nil_infix
    · rw [List.dropLast_concat]
      exact hsuffix.isInfix
  · exact (List.dropLast_prefix l).isInfix.trans h

/-- A stretch of a text that is one digit longer on each side is, without its first and its last digit, a
stretch of the text. -/
theorem infix_of_infix_padded {x y r : List Char} (h : r <:+: x ++ t ++ y) (hx : x.length ≤ 1)
    (hy : y.length ≤ 1) : r.tail.dropLast <:+: t := by
  have htail : r.tail <:+: t ++ y := by
    match x, hx with
    | [], _ => exact (List.tail_suffix r).isInfix.trans (by simpa using h)
    | [a], _ => exact tail_infix_of_infix_cons (by simpa using h)
  match y, hy with
  | [], _ => exact (List.dropLast_prefix r.tail).isInfix.trans (by simpa using htail)
  | [a], _ => exact dropLast_infix_of_infix_concat htail

end Hex

/-! ## Chunks without a beginning -/

section Plain

variable {recorder : Bool} {p q : Chunk}

theorem StartsTransfer.mono (h : p <:+: q) (hp : StartsTransfer p) : StartsTransfer q :=
  hp.imp (·.trans (encodeToString_within h)) (·.trans (encodeToString_within h))

/-- A byte is too short for a beginning. -/
theorem not_startsTransfer_byte (b : UInt8) : ¬ StartsTransfer [b] := by
  have hlen : (encodeToString [b]).length = 2 := length_encodeToString [b]
  rintro (h | h)
  · have hle := h.length_le
    rw [hlen] at hle
    exact absurd hle (by decide)
  · have hle := h.length_le
    rw [hlen] at hle
    exact absurd hle (by decide)

theorem begins_plain (h : ¬ StartsTransfer p) : begins {} p = {} := by
  have hsz : ¬ hexContains p szStart = true := fun hs => h (.inl (hexContains_iff.mp hs))
  have hrz : ¬ hexContains p rzStart = true := fun hr => h (.inr (hexContains_iff.mp hr))
  simp [begins, hsz, hrz]

/-- Outside a transfer a chunk without a beginning goes to all three. -/
theorem write_plain (h : ¬ StartsTransfer p) (sent : Sent) :
    write recorder {} sent p = ({}, {
      front := sent.front ++ [p]
      observed := sent.observed ++ [p]
      recorded := if recorder then sent.recorded ++ [p] else sent.recorded }) := by
  simp [write, begins_plain h, shows]

/-- So do all chunks of a run. -/
theorem foldl_write_plain (recorder : Bool) (cs : List Chunk) (h : ∀ p ∈ cs, ¬ StartsTransfer p) (sent : Sent) :
    (cs.foldl (fun (w, sent) p => write recorder w sent p) ({}, sent)).2.data =
      ⟨sent.front.flatten ++ cs.flatten, sent.observed.flatten ++ cs.flatten,
        sent.recorded.flatten ++ if recorder then cs.flatten else []⟩ := by
  induction cs generalizing sent with
  | nil => simp [Sent.data]
  | cons p cs ih =>
    simp only [List.foldl_cons]
    rw [write_plain (h p List.mem_cons_self), ih fun q hq => h q (List.mem_cons_of_mem p hq)]
    cases recorder <;> simp [List.append_assoc]

theorem writeAll_plain (cs : List Chunk) (h : ∀ p ∈ cs, ¬ StartsTransfer p) :
    (writeAll recorder cs).2.data =
      ⟨cs.flatten, cs.flatten, if recorder then cs.flatten else []⟩ := by
  have hrun := foldl_write_plain recorder cs h {}
  simp only [List.flatten_nil, List.nil_append] at hrun
  exact hrun

/-- A stream without a beginning has none in its chunks. -/
theorem writeAll_of_not_startsTransfer {stream : Chunk} (h : ¬ StartsTransfer stream)
    {cs : List Chunk} (hcs : cs.flatten = stream) :
    (writeAll recorder cs).2.data = ⟨stream, stream, if recorder then stream else []⟩ := by
  have hplain : ∀ p ∈ cs, ¬ StartsTransfer p := by
    intro p hp hstarts
    refine h (hstarts.mono ?_)
    rw [← hcs]
    exact List.infix_of_mem_flatten hp
  rw [writeAll_plain cs hplain, hcs]

theorem flatten_map_singleton (p : Chunk) : (p.map fun b => [b]).flatten = p := by
  induction p with
  | nil => rfl
  | cons b p ih => rw [List.map_cons, List.flatten_cons, ih, List.singleton_append]

/-- Byte by byte, everything is shown. -/
theorem writeAll_bytes (stream : Chunk) :
    (writeAll recorder (stream.map fun b => [b])).2.data =
      ⟨stream, stream, if recorder then stream else []⟩ := by
  have hplain : ∀ p ∈ stream.map fun b => [b], ¬ StartsTransfer p := by
    intro p hp
    obtain ⟨b, -, rfl⟩ := List.mem_map.mp hp
    exact not_startsTransfer_byte b
  rw [writeAll_plain _ hplain, flatten_map_singleton]

end Plain

/-! ## Chunks that cover a beginning -/

section Covering

variable {c : Chunk} {t x y : List Char}

/-- Neither beginning, one digit longer on each side, has the end of an `rz` transfer. -/
theorem not_contains_received (ht : t = szStart ∨ t = rzStart) (hc : encodeToString c = x ++ t ++ y)
    (hx : x.length ≤ 1) (hy : y.length ≤ 1) : contains c (ascii "Received") = false := by
  refine decide_eq_false fun h => ?_
  have hinfix := encodeToString_within h
  rw [hc] at hinfix
  have hmarker := infix_of_infix_padded hinfix hx hy
  rcases ht with rfl | rfl
  · exact absurd hmarker (by decide +kernel)
  · exact absurd hmarker (by decide +kernel)

/-- Such a chunk is hidden, whatever came before. -/
theorem shows_covering (ht : t = szStart ∨ t = rzStart) (hc : encodeToString c = x ++ t ++ y)
    (hx : x.length ≤ 1) (hy : y.length ≤ 1) (w : Writer) : (shows (begins w c) c).2 = false := by
  have hreceived := not_contains_received ht hc hx hy
  have hinfix : hexContains c t = true := by
    rw [hexContains_iff, hc]
    exact List.infix_append x t y
  have hstarted : (begins w c).sz = true ∨ (begins w c).rz = true := by
    unfold begins
    split
    · split
      · exact .inl rfl
      · rename_i hsz
        rcases ht with rfl | rfl
        · exact absurd hinfix hsz
        · rw [if_pos hinfix]
          exact .inr rfl
    · rename_i hstate
      cases hs : w.sz <;> cases hr : w.rz <;> simp_all
  unfold shows
  split
  · split <;> rfl
  · rename_i hsz
    rw [if_pos (hstarted.resolve_left hsz), hreceived]
    rfl

/-- A chunk adds at most its own length to what is observed. -/
theorem length_observed_write (recorder : Bool) (w : Writer) (sent : Sent) (p : Chunk) :
    (write recorder w sent p).2.observed.flatten.length ≤
      sent.observed.flatten.length + p.length := by
  cases h : (shows (begins w p) p).2 <;> simp [write, h]

/-- Cut so that one chunk covers a beginning, the stream is not all observed. -/
theorem length_observed_covering (recorder : Bool) (ht : t = szStart ∨ t = rzStart)
    (hc : encodeToString c = x ++ t ++ y) (hx : x.length ≤ 1) (hy : y.length ≤ 1) (a b : Chunk) :
    (writeAll recorder [a, c, b]).2.observed.flatten.length ≤ a.length + b.length := by
  have hfirst := length_observed_write recorder {} {} a
  rcases hw : write recorder {} {} a with ⟨w, sent⟩
  have hhidden : (write recorder w sent c).2.observed = sent.observed := by
    simp [write, shows_covering ht hc hx hy w]
  have hlast := length_observed_write recorder (write recorder w sent c).1
    (write recorder w sent c).2 b
  have hrun : (writeAll recorder [a, c, b]) = write recorder (write recorder w sent c).1
      (write recorder w sent c).2 b := by
    simp only [writeAll, List.foldl_cons, List.foldl_nil, hw]
  rw [hw] at hfirst
  rw [hhidden] at hlast
  rw [hrun]
  simp only [List.flatten_nil, List.length_nil, Nat.zero_add] at hfirst
  exact Nat.le_trans hlast (by omega)

/-- A stream in which a transfer begins can be cut so that not all of it is observed. -/
theorem exists_hidden {stream : Chunk} (h : StartsTransfer stream) (recorder : Bool) :
    ∃ cs : List Chunk, cs.flatten = stream ∧
      (writeAll recorder cs).2.observed.flatten.length < stream.length := by
  obtain ⟨t, n, ht, hlen, hpos, hinfix⟩ :
      ∃ t n, (t = szStart ∨ t = rzStart) ∧ t.length = 2 * n ∧ 0 < n ∧
        t <:+: encodeToString stream := by
    rcases h with h | h
    · exact ⟨szStart, 24, .inl rfl, by decide, by decide, h⟩
    · exact ⟨rzStart, 43, .inr rfl, by decide, by decide, h⟩
  obtain ⟨a, c, b, x, y, rfl, hc, hx, hy⟩ := exists_covering hlen hinfix
  have hcovering := length_observed_covering recorder ht hc hx hy a b
  have hc_pos : 0 < c.length := by
    have htext := congrArg List.length hc
    simp only [length_encodeToString, List.length_append, hlen] at htext
    omega
  refine ⟨[a, c, b], by simp [List.append_assoc], Nat.lt_of_le_of_lt hcovering ?_⟩
  simp only [List.length_append]
  omega

end Covering

/-! ## The claim -/

theorem chunkIndependent_iff (recorder : Bool) (stream : Chunk) :
    ChunkIndependent recorder stream ↔ ¬ StartsTransfer stream := by
  constructor
  · intro h hstarts
    obtain ⟨cs, hcs, hhidden⟩ := exists_hidden hstarts recorder
    have hsame := h.same cs _ hcs (flatten_map_singleton stream)
    rw [writeAll_bytes] at hsame
    have hlen : (writeAll recorder cs).2.observed.flatten = stream := congrArg Data.observed hsame
    rw [hlen] at hhidden
    exact Nat.lt_irrefl _ hhidden
  · intro h
    refine ⟨fun cs cs' hcs hcs' => ?_, fun _ cs hcs => writeAll_of_not_startsTransfer h hcs⟩
    rw [writeAll_of_not_startsTransfer h hcs, writeAll_of_not_startsTransfer h hcs']

/-- What `sz` begins with. -/
def szBegins : Chunk :=
  [114, 122, 13, 42, 42, 24, 66] ++ List.replicate 14 48 ++ [13, 138, 17]

/-- In one chunk nothing is recorded, in two everything is. -/
theorem not_chunkIndependent_szBegins : ¬ ChunkIndependent true szBegins := by
  intro h
  have hsame := h.same [szBegins] [szBegins.take 7, szBegins.drop 7] (by decide) (by decide)
  exact absurd (congrArg Data.recorded hsame) (by decide +kernel)

end Recording

end NextDBM
