import Mathlib.Data.List.GetD
import Mathlib.Data.List.TakeWhile
import NextDBM.Library.Text

/-!
# Paths of request URIs

The path of a URI is its part before the question mark, read with its percent escapes. Reading it
keeps two texts: the unescaped path, and the escaped one where escaping the first does not give it
back. A router that prefers the second sees either the path as it was sent or a text whose escape
it is; in both cases it sees every prefix and every segment that needs no escape.

Texts are sequences of bytes, each a character below 256.
-/

namespace Url

/-- The bytes that escaping a path keeps. -/
def unescaped (c : Char) : Bool :=
  ('a' ≤ c && c ≤ 'z') || ('A' ≤ c && c ≤ 'Z') || ('0' ≤ c && c ≤ '9') ||
    c ∈ ['-', '_', '.', '~', '$', '&', '+', ',', '/', ':', ';', '=', '@']

def upperhex : List Char :=
  ['0', '1', '2', '3', '4', '5', '6', '7', '8', '9', 'A', 'B', 'C', 'D', 'E', 'F']

def hexDigit (n : Nat) : Char := upperhex.getD n '0'

def hexValue (c : Char) : Option Nat :=
  if '0' ≤ c ∧ c ≤ '9' then some (c.toNat - '0'.toNat)
  else if 'a' ≤ c ∧ c ≤ 'f' then some (c.toNat - 'a'.toNat + 10)
  else if 'A' ≤ c ∧ c ≤ 'F' then some (c.toNat - 'A'.toNat + 10)
  else none

def escapeByte (c : Char) : List Char :=
  if unescaped c then [c] else ['%', hexDigit (c.toNat / 16), hexDigit (c.toNat % 16)]

def escape (s : List Char) : List Char := s.flatMap escapeByte

/-- Percent decoding; a percent sign without two digits after it is an error. -/
def unescape : List Char → Option (List Char)
  | [] => some []
  | '%' :: x :: y :: rest => do
    let high ← hexValue x
    let low ← hexValue y
    let rest ← unescape rest
    some (Char.ofNat (16 * high + low) :: rest)
  | c :: rest => if c = '%' then none else (unescape rest).map (c :: ·)

/-- The two readings of a path: unescaped, and as it was sent when the first does not give it. -/
def setPath (p : String) : Option (String × String) :=
  (unescape p.toList).map fun path =>
    (String.ofList path, if escape path = p.toList then "" else p)

/-- The part of a URI before its query. -/
def beforeQuery (uri : String) : String := String.ofList (uri.toList.takeWhile (· ≠ '?'))

/-- The path that a router reads. -/
def routePath (path rawPath : String) : String := if rawPath = "" then path else rawPath

variable {c : Char} {s t pre : List Char}

theorem escapeByte_of_unescaped (h : unescaped c) : escapeByte c = [c] := if_pos h

theorem escape_cons (c : Char) (s : List Char) : escape (c :: s) = escapeByte c ++ escape s :=
  List.flatMap_cons

/-- A byte that is not kept is written with a percent sign in front. -/
theorem escapeByte_eq_or (c : Char) :
    escapeByte c = [c] ∨ ∃ rest, escapeByte c = '%' :: rest := by
  unfold escapeByte
  split
  · exact .inl rfl
  · exact .inr ⟨_, rfl⟩

theorem escape_of_unescaped (h : ∀ c ∈ s, unescaped c) : escape s = s := by
  induction s with
  | nil => rfl
  | cons c s ih =>
    rw [escape_cons, escapeByte_of_unescaped (h c List.mem_cons_self),
      ih fun d hd => h d (List.mem_cons_of_mem c hd), List.singleton_append]

theorem unescape_of_not_mem (h : '%' ∉ s) : unescape s = some s := by
  induction s with
  | nil => rfl
  | cons c s ih =>
    have hc : c ≠ '%' := fun hc => h (hc ▸ List.mem_cons_self)
    have hs : unescape s = some s := ih fun hs => h (List.mem_cons_of_mem c hs)
    unfold unescape
    split
    · next heq => exact absurd heq (List.cons_ne_nil c s)
    · next heq => exact absurd (List.cons.inj heq).1 hc
    · next heq =>
      obtain ⟨rfl, rfl⟩ := List.cons.inj heq
      rw [if_neg hc, hs, Option.map_some]

/-- A prefix without percent signs of an escaped text is a prefix of the text. -/
theorem prefix_of_prefix_escape (h : pre <+: escape s) (hpre : '%' ∉ pre) : pre <+: s := by
  induction pre generalizing s with
  | nil => exact List.nil_prefix
  | cons a pre ih =>
    have ha : a ≠ '%' := fun ha => hpre (ha ▸ List.mem_cons_self)
    cases s with
    | nil => exact absurd (List.prefix_nil.mp h) (List.cons_ne_nil a pre)
    | cons c s =>
      rw [escape_cons] at h
      rcases escapeByte_eq_or c with hc | ⟨rest, hc⟩
      · rw [hc, List.singleton_append, List.cons_prefix_cons] at h
        obtain ⟨rfl, h⟩ := h
        exact List.cons_prefix_cons.mpr
          ⟨rfl, ih h fun hmem => hpre (List.mem_cons_of_mem a hmem)⟩
      · rw [hc, List.cons_append, List.cons_prefix_cons] at h
        exact absurd h.1 ha

/-- A text without percent signs is the escape of itself alone. -/
theorem eq_of_escape_eq (h : escape s = t) (ht : '%' ∉ t) : s = t := by
  have hpre : t <+: s := prefix_of_prefix_escape (h ▸ List.prefix_refl _) ht
  have hlen : s.length ≤ (escape s).length := by
    clear h hpre
    induction s with
    | nil => exact Nat.zero_le _
    | cons c s ih =>
      rw [escape_cons, List.length_append, List.length_cons]
      have hc : 1 ≤ (escapeByte c).length := by
        rcases escapeByte_eq_or c with hc | ⟨rest, hc⟩ <;> simp [hc]
      omega
  rw [h] at hlen
  exact (hpre.eq_of_length_le hlen).symm

theorem hexDigit_mem_upperhex (n : Nat) : hexDigit n ∈ upperhex := by
  unfold hexDigit
  by_cases h : n < upperhex.length
  · rw [List.getD_eq_getElem _ _ h]
    exact List.getElem_mem h
  · rw [List.getD_eq_default _ _ (not_lt.mp h)]
    exact List.mem_cons_self

theorem hexDigit_ne_slash (n : Nat) : hexDigit n ≠ '/' := by
  intro h
  have hmem : '/' ∈ upperhex := h ▸ hexDigit_mem_upperhex n
  exact absurd hmem (by decide)

/-- Escaping adds no slash. -/
theorem slash_not_mem_escapeByte (h : c ≠ '/') : '/' ∉ escapeByte c := by
  unfold escapeByte
  split
  · rw [List.mem_singleton]
    exact h.symm
  · intro hmem
    rcases List.mem_cons.mp hmem with heq | hmem
    · exact absurd heq (by decide)
    rcases List.mem_cons.mp hmem with heq | hmem
    · exact hexDigit_ne_slash _ heq.symm
    · exact hexDigit_ne_slash _ (List.mem_singleton.mp hmem).symm

/-- The segments of an escaped path are the escaped segments. -/
theorem splitOn_escape (s : List Char) :
    (escape s).splitOn '/' = (s.splitOn '/').map escape := by
  induction s with
  | nil => rfl
  | cons c s ih =>
    rw [escape_cons]
    by_cases hc : c = '/'
    · subst hc
      have hkept : escapeByte '/' = ['/'] := by decide
      rw [hkept, List.singleton_append, List.splitOn_cons_eq_if_modifyHead,
        List.splitOn_cons_eq_if_modifyHead, if_pos BEq.rfl, if_pos BEq.rfl, ih, List.map_cons]
      rfl
    · rw [Text.splitOn_append_of_not_mem (slash_not_mem_escapeByte hc), ih,
        List.splitOn_cons_eq_if_modifyHead, if_neg (by simpa using hc)]
      cases hsplit : s.splitOn '/' with
      | nil => exact absurd hsplit (List.splitOn_ne_nil '/' s)
      | cons seg segs => simp [escape_cons]

/-! ## What a router reads -/

section Routing

variable {uri p path rawPath : String}

/-- A router reads the path as it was sent, or a text whose escape that is. -/
theorem routePath_eq_or (h : setPath p = some (path, rawPath)) (hp : p ≠ "") :
    routePath path rawPath = p ∨ escape (routePath path rawPath).toList = p.toList := by
  obtain ⟨t, ht, heq⟩ := Option.map_eq_some_iff.mp h
  obtain ⟨rfl, rfl⟩ := Prod.mk.inj heq
  by_cases hesc : escape t = p.toList
  · right
    rw [if_pos hesc, routePath, if_pos rfl, String.toList_ofList, hesc]
  · left
    rw [if_neg hesc, routePath, if_neg hp]

/-- A path of bytes that need no escape is read as it is. -/
theorem setPath_of_unescaped (h : ∀ c ∈ p.toList, unescaped c) : setPath p = some (p, "") := by
  have hmem : '%' ∉ p.toList := fun hmem => absurd (h '%' hmem) (by decide)
  rw [setPath, unescape_of_not_mem hmem, Option.map_some, if_pos (escape_of_unescaped h),
    String.ofList_toList]

/-- A prefix of a URI that has no question mark is a prefix of its path. -/
theorem prefix_beforeQuery (h : pre <+: uri.toList) (hpre : '?' ∉ pre) :
    pre <+: (beforeQuery uri).toList := by
  obtain ⟨rest, hrest⟩ := h
  have hall : ∀ c ∈ pre, decide (c ≠ '?') = true :=
    fun c hc => decide_eq_true fun heq => hpre (heq ▸ hc)
  rw [beforeQuery, String.toList_ofList, ← hrest, List.takeWhile_append_of_pos hall]
  exact List.prefix_append pre _

theorem beforeQuery_prefix (uri : String) : (beforeQuery uri).toList <+: uri.toList := by
  rw [beforeQuery, String.toList_ofList]
  exact List.takeWhile_prefix _

theorem beforeQuery_of_not_mem (h : '?' ∉ uri.toList) : beforeQuery uri = uri := by
  have hall : ∀ c ∈ uri.toList, decide (c ≠ '?') = true :=
    fun c hc => decide_eq_true fun heq => h (heq ▸ hc)
  rw [beforeQuery, List.takeWhile_eq_self_iff.mpr hall, String.ofList_toList]

/-- A prefix with a slash in front, and neither a query nor an escape in it. -/
structure Plain (pre : List Char) : Prop where
  slash : ['/'] <+: pre
  query : '?' ∉ pre
  escape : '%' ∉ pre

instance (pre : List Char) : Decidable (Plain pre) :=
  decidable_of_iff (['/'] <+: pre ∧ '?' ∉ pre ∧ '%' ∉ pre)
    ⟨fun ⟨h₁, h₂, h₃⟩ => ⟨h₁, h₂, h₃⟩, fun ⟨h₁, h₂, h₃⟩ => ⟨h₁, h₂, h₃⟩⟩

theorem ne_empty_of_slash (h : ['/'] <+: p.toList) : p ≠ "" := by
  rintro rfl
  exact absurd (List.prefix_nil.mp h) (List.cons_ne_nil '/' [])

/-- A plain prefix of a URI is a prefix of the path that a router reads. -/
theorem prefix_routePath (h : setPath (beforeQuery uri) = some (path, rawPath)) (hplain : Plain pre)
    (hpre : pre <+: uri.toList) : pre <+: (routePath path rawPath).toList := by
  have hbefore : pre <+: (beforeQuery uri).toList := prefix_beforeQuery hpre hplain.query
  rcases routePath_eq_or h (ne_empty_of_slash (hplain.slash.trans hbefore)) with heq | heq
  · rwa [heq]
  · exact prefix_of_prefix_escape (heq ▸ hbefore) hplain.escape

end Routing

end Url
