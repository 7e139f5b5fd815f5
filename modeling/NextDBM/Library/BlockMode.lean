import Mathlib.Data.List.Basic

/-!
# Block ciphers on texts of any length

A text of bytes is padded to a multiple of the block size (PKCS#5) and encrypted block by block, each
block added to the cipher text of the one before (CBC). The block cipher is a parameter: all that
decryption needs is that it inverts the cipher on blocks.
-/

namespace BlockMode

abbrev Block : Type := List UInt8

def add (a b : Block) : Block := List.zipWith (· ^^^ ·) a b

def cbcEncrypt (E : Block → Block) (iv : Block) : List Block → List Block
  | [] => []
  | b :: bs => E (add b iv) :: cbcEncrypt E (E (add b iv)) bs

def cbcDecrypt (D : Block → Block) (iv : Block) : List Block → List Block
  | [] => []
  | c :: cs => add (D c) iv :: cbcDecrypt D c cs

/-- The first `k` blocks of `n` bytes. -/
def blocks (n : Nat) : Nat → List UInt8 → List Block
  | 0, _ => []
  | k + 1, data => data.take n :: blocks n k (data.drop n)

def pad (n : Nat) (data : List UInt8) : List UInt8 :=
  let padding := n - data.length % n
  data ++ List.replicate padding (UInt8.ofNat padding)

/-- Take off as many bytes as the last one says. -/
def unpad (data : List UInt8) : Option (List UInt8) :=
  match data.getLast? with
  | none => none
  | some last =>
    if last.toNat ≤ data.length then some (data.take (data.length - last.toNat)) else none

def encrypt (n : Nat) (E : Block → Block) (iv : Block) (data : List UInt8) : List UInt8 :=
  (cbcEncrypt E iv (blocks n ((pad n data).length / n) (pad n data))).flatten

/-- Only whole blocks can be decrypted. -/
def decrypt (n : Nat) (D : Block → Block) (iv : Block) (data : List UInt8) : Option (List UInt8) :=
  if data.length % n = 0 then unpad (cbcDecrypt D iv (blocks n (data.length / n) data)).flatten
  else none

/-- The last byte of the plain text of some blocks: that of the last block, added to the block before it
or to the initial one. -/
def lastPlain (D : Block → Block) (iv : Block) (bs : List Block) : UInt8 :=
  (add (D (bs.getLastD [])) (bs.dropLast.getLastD iv)).getLastD 0

/-- A text of whole blocks, at least one, whose plain text ends in a byte that is not greater than its
length. -/
structure Unpaddable (n : Nat) (D : Block → Block) (iv : Block) (data : List UInt8) : Prop where
  nonempty : data ≠ []
  whole : data.length % n = 0
  padding : (lastPlain D iv (blocks n (data.length / n) data)).toNat ≤ data.length

/-! ## Decryption inverts encryption -/

variable {n k : Nat} {E D : Block → Block} {iv : Block} {data : List UInt8} {bs : List Block}

/-- The cipher has blocks of `n` bytes, and `D` inverts it. -/
structure Inverts (n : Nat) (E D : Block → Block) : Prop where
  length : ∀ b, b.length = n → (E b).length = n
  inverts : ∀ b, b.length = n → D (E b) = b

theorem add_length {a b : Block} (ha : a.length = n) (hb : b.length = n) : (add a b).length = n := by
  simp [add, ha, hb]

/-- Adding a block twice changes nothing. -/
theorem add_add {a b : Block} (h : a.length = b.length) : add (add a b) b = a := by
  induction a generalizing b with
  | nil => rfl
  | cons x a ih =>
    cases b with
    | nil => cases h
    | cons y b =>
      have hxy : x ^^^ y ^^^ y = x := by
        rw [UInt8.xor_assoc, UInt8.xor_self, UInt8.xor_zero]
      have hrest := ih (Nat.succ.inj h)
      simp only [add, List.zipWith_cons_cons] at hrest ⊢
      rw [hxy, hrest]

theorem cbcEncrypt_length (hE : Inverts n E D) (hiv : iv.length = n) (hbs : ∀ b ∈ bs, b.length = n) :
    (cbcEncrypt E iv bs).length = bs.length ∧ ∀ c ∈ cbcEncrypt E iv bs, c.length = n := by
  induction bs generalizing iv with
  | nil => exact ⟨rfl, fun c hc => absurd hc List.not_mem_nil⟩
  | cons b bs ih =>
    obtain ⟨hb, hrest⟩ := List.forall_mem_cons.mp hbs
    have hfirst := hE.length _ (add_length hb hiv)
    obtain ⟨hlen, hall⟩ := ih hfirst hrest
    exact ⟨congrArg (· + 1) hlen, List.forall_mem_cons.mpr ⟨hfirst, hall⟩⟩

theorem cbcDecrypt_cbcEncrypt (hE : Inverts n E D) (hiv : iv.length = n)
    (hbs : ∀ b ∈ bs, b.length = n) : cbcDecrypt D iv (cbcEncrypt E iv bs) = bs := by
  induction bs generalizing iv with
  | nil => rfl
  | cons b bs ih =>
    obtain ⟨hb, hrest⟩ := List.forall_mem_cons.mp hbs
    have hadd := add_length hb hiv
    rw [cbcEncrypt, cbcDecrypt, hE.inverts _ hadd, add_add (hb.trans hiv.symm),
      ih (hE.length _ hadd) hrest]

/-- The blocks of a text of whole blocks. -/
theorem blocks_spec (h : data.length = k * n) :
    (∀ b ∈ blocks n k data, b.length = n) ∧ (blocks n k data).length = k ∧
      (blocks n k data).flatten = data := by
  induction k generalizing data with
  | zero =>
    have hnil : data = [] := List.length_eq_zero_iff.mp (by omega)
    rw [hnil]
    exact ⟨fun b hb => absurd hb List.not_mem_nil, rfl, rfl⟩
  | succ k ih =>
    have hlen : data.length = k * n + n := by rw [h, Nat.succ_mul]
    have hdrop : (data.drop n).length = k * n := by
      rw [List.length_drop]
      omega
    obtain ⟨hall, hcount, hflat⟩ := ih hdrop
    refine ⟨List.forall_mem_cons.mpr ⟨?_, hall⟩, congrArg (· + 1) hcount, ?_⟩
    · rw [List.length_take]
      omega
    · rw [blocks, List.flatten_cons, hflat, List.take_append_drop]

/-- The blocks of a text are those that it was put together from. -/
theorem blocks_flatten (hbs : ∀ b ∈ bs, b.length = n) : blocks n bs.length bs.flatten = bs := by
  induction bs with
  | nil => rfl
  | cons b bs ih =>
    obtain ⟨hb, hrest⟩ := List.forall_mem_cons.mp hbs
    rw [List.length_cons, blocks, List.flatten_cons, ← hb, List.take_left, List.drop_left, hb,
      ih hrest]

theorem flatten_length (hbs : ∀ b ∈ bs, b.length = n) : bs.flatten.length = bs.length * n := by
  induction bs with
  | nil => simp
  | cons b bs ih =>
    obtain ⟨hb, hrest⟩ := List.forall_mem_cons.mp hbs
    rw [List.flatten_cons, List.length_append, hb, ih hrest, List.length_cons, Nat.succ_mul]
    omega

/-- A padded text has whole blocks, and at least one. -/
theorem pad_length (hn : 0 < n) (data : List UInt8) :
    (pad n data).length = (data.length / n + 1) * n := by
  have hmod := Nat.mod_lt data.length hn
  have hdiv := Nat.div_add_mod data.length n
  rw [pad, List.length_append, List.length_replicate, Nat.succ_mul, Nat.mul_comm]
  omega

theorem unpad_pad (hn : 0 < n) (hbyte : n < 256) (data : List UInt8) :
    unpad (pad n data) = some data := by
  have hmod := Nat.mod_lt data.length hn
  obtain ⟨m, hm⟩ : ∃ m, n - data.length % n = m + 1 := ⟨n - data.length % n - 1, by omega⟩
  have hlast : (pad n data).getLast? = some (UInt8.ofNat (m + 1)) := by
    simp only [pad, hm]
    rw [List.replicate_succ', ← List.append_assoc, List.getLast?_concat]
  have hto : (UInt8.ofNat (m + 1)).toNat = m + 1 := by
    rw [UInt8.toNat_ofNat']
    omega
  have hlen : (pad n data).length = data.length + (m + 1) := by
    simp only [pad, hm, List.length_append, List.length_replicate]
  rw [unpad, hlast]
  simp only [hto]
  rw [if_pos (by omega), hlen, Nat.add_sub_cancel]
  simp only [pad, List.take_left']

/-- A cipher text is never empty. -/
theorem encrypt_length (hE : Inverts n E D) (hn : 0 < n) (hiv : iv.length = n) (data : List UInt8) :
    (encrypt n E iv data).length = (data.length / n + 1) * n := by
  have hpad := pad_length hn data
  have hblocks : (pad n data).length / n = data.length / n + 1 := by
    rw [hpad, Nat.mul_div_cancel _ hn]
  obtain ⟨hall, hcount, -⟩ := blocks_spec hpad
  obtain ⟨hlen, hcipher⟩ := cbcEncrypt_length hE hiv hall
  rw [encrypt, hblocks, flatten_length hcipher, hlen, hcount]

/-- **Decryption inverts encryption**, for a block cipher that can be inverted on blocks. -/
theorem decrypt_encrypt (hE : Inverts n E D) (hn : 0 < n) (hbyte : n < 256) (hiv : iv.length = n)
    (data : List UInt8) : decrypt n D iv (encrypt n E iv data) = some data := by
  have hpad := pad_length hn data
  have hblocks : (pad n data).length / n = data.length / n + 1 := by
    rw [hpad, Nat.mul_div_cancel _ hn]
  obtain ⟨hall, hcount, hflat⟩ := blocks_spec hpad
  obtain ⟨hlen, hcipher⟩ := cbcEncrypt_length hE hiv hall
  have htotal := encrypt_length hE hn hiv data
  have hcut : blocks n ((encrypt n E iv data).length / n) (encrypt n E iv data) =
      cbcEncrypt E iv (blocks n (data.length / n + 1) (pad n data)) := by
    rw [htotal, Nat.mul_div_cancel _ hn, encrypt, hblocks]
    have hcut := blocks_flatten hcipher
    rw [hlen, hcount] at hcut
    exact hcut
  rw [decrypt, htotal, Nat.mul_mod_left, if_pos rfl, ← htotal, hcut,
    cbcDecrypt_cbcEncrypt hE hiv hall, hflat, unpad_pad hn hbyte]

/-! ## What can be decrypted -/

theorem cbcDecrypt_concat (c : Block) : cbcDecrypt D iv (bs ++ [c]) =
    cbcDecrypt D iv bs ++ [add (D c) (bs.getLastD iv)] := by
  induction bs generalizing iv with
  | nil => rfl
  | cons b bs ih =>
    rw [List.cons_append, cbcDecrypt, cbcDecrypt, ih, List.cons_append, List.getLastD_cons]

theorem cbcDecrypt_length (hD : ∀ b, b.length = n → (D b).length = n) (hiv : iv.length = n)
    (hbs : ∀ b ∈ bs, b.length = n) :
    (cbcDecrypt D iv bs).length = bs.length ∧ ∀ b ∈ cbcDecrypt D iv bs, b.length = n := by
  induction bs generalizing iv with
  | nil => exact ⟨rfl, fun b hb => absurd hb List.not_mem_nil⟩
  | cons c bs ih =>
    obtain ⟨hc, hrest⟩ := List.forall_mem_cons.mp hbs
    obtain ⟨hlen, hall⟩ := ih hc hrest
    exact ⟨congrArg (· + 1) hlen, List.forall_mem_cons.mpr ⟨add_length (hD c hc) hiv, hall⟩⟩

/-- The plain text of at least one block ends in `lastPlain`. -/
theorem getLast?_cbcDecrypt (hn : 0 < n) (hD : ∀ b, b.length = n → (D b).length = n)
    (hiv : iv.length = n) (hbs : ∀ b ∈ bs, b.length = n) (hne : bs ≠ []) :
    (cbcDecrypt D iv bs).flatten.getLast? = some (lastPlain D iv bs) := by
  rcases List.eq_nil_or_concat' bs with hnil | ⟨init, c, rfl⟩
  · exact absurd hnil hne
  have hc : c.length = n := hbs c (by simp)
  have hprev : (init.getLastD iv).length = n := by
    rcases List.eq_nil_or_concat' init with rfl | ⟨init', b, rfl⟩
    · exact hiv
    · rw [List.getLastD_concat]
      exact hbs b (by simp)
  have hlast : add (D c) (init.getLastD iv) ≠ [] := by
    intro hnil
    have hlen := add_length (hD c hc) hprev
    rw [hnil, List.length_nil] at hlen
    omega
  rw [cbcDecrypt_concat, List.flatten_append, List.flatten_singleton, lastPlain, List.getLastD_concat,
    List.dropLast_concat, List.getLast?_append_of_ne_nil _ hlast,
    @List.getLastD_eq_getLast? UInt8 0 (add _ _), List.getLast?_eq_some_getLast hlast, Option.getD_some]

/-- **What can be decrypted**: the text is of whole blocks, and there is no more padding than text. -/
theorem decrypt_isSome_iff (hn : 0 < n) (hD : ∀ b, b.length = n → (D b).length = n)
    (hiv : iv.length = n) : (decrypt n D iv data).isSome ↔ Unpaddable n D iv data := by
  rw [decrypt]
  by_cases hwhole : data.length % n = 0
  · rw [if_pos hwhole]
    have hmul : data.length = data.length / n * n := by
      rw [Nat.div_mul_cancel (Nat.dvd_of_mod_eq_zero hwhole)]
    obtain ⟨hall, hcount, hflat⟩ := blocks_spec hmul
    obtain ⟨hlen, hplain⟩ := cbcDecrypt_length hD hiv hall
    have htotal : (cbcDecrypt D iv (blocks n (data.length / n) data)).flatten.length = data.length := by
      rw [flatten_length hplain, hlen, hcount]
      exact hmul.symm
    by_cases hne : data = []
    · subst hne
      constructor
      · intro h
        rw [List.length_nil, Nat.zero_div] at h
        cases h
      · exact fun h => absurd rfl h.nonempty
    · have hblocks : blocks n (data.length / n) data ≠ [] := by
        intro hnil
        rw [hnil] at hflat
        exact hne hflat.symm
      rw [unpad, getLast?_cbcDecrypt hn hD hiv hall hblocks, htotal]
      dsimp only
      constructor
      · intro h
        refine ⟨hne, hwhole, ?_⟩
        by_contra hlong
        rw [if_neg hlong] at h
        cases h
      · intro h
        rw [if_pos h.padding]
        rfl
  · rw [if_neg hwhole]
    exact ⟨fun h => (by cases h), fun h => absurd h.whole hwhole⟩

end BlockMode
