import NextDBM.Library.Url

/-!
# Patterns of paths

A path is cut into segments at its slashes. A segment of a pattern is a text or a parameter, and the
last parameter of an open pattern takes all the segments that are left.

Whether a pattern accepts some path that starts with a given text, and whether it accepts some path
of another pattern, are questions about the patterns alone: `mayStart` and `meets` answer them by
computation, so that a table of patterns can be checked against a list of prefixes.
-/

namespace Paths

inductive Segment
  | static (text : List Char)
  | param
  deriving DecidableEq, Repr

namespace Segment

def fits : Segment → List Char → Bool
  | static text, s => text == s
  | param, _ => true

def starts : Segment → List Char → Bool
  | static text, pre => pre.isPrefixOf text
  | param, _ => true

def meets : Segment → Segment → Bool
  | static s, static t => s == t
  | _, _ => true

/-- Whether a segment, with the given ones after it, is the last parameter of an open pattern. -/
def takesAll (p : Segment) (ps : List Segment) (rest : Bool) : Bool :=
  p == param && ps.isEmpty && rest

end Segment

/-- The segment that a piece of a pattern stands for: a parameter has a colon in front, and a star
is one without a name. -/
def segment (s : List Char) : Segment :=
  if s.head? = some ':' ∨ s = ['*'] then .param else .static s

def segments (pattern : List Char) : List Segment := (pattern.splitOn '/').map segment

/-- Whether a pattern accepts the segments of a path. -/
def fits (rest : Bool) : List Segment → List (List Char) → Bool
  | [], ss => ss.isEmpty
  | p :: ps, s :: ss => (p.fits s && fits rest ps ss) || p.takesAll ps rest
  | _ :: _, [] => false

/-- Whether the pieces of a text begin those of another: the last one may be cut short. -/
def startsWith : List (List Char) → List (List Char) → Bool
  | [], _ => true
  | [c], s :: _ => c.isPrefixOf s
  | c :: cs, s :: ss => c == s && startsWith cs ss
  | _ :: _, [] => false

/-- Whether a pattern accepts a path whose pieces begin with the given ones. -/
def mayStart (rest : Bool) : List Segment → List (List Char) → Bool
  | _, [] => true
  | [], _ :: _ => false
  | p :: _, [c] => p.starts c
  | p :: ps, c :: cs => (p.fits c && mayStart rest ps cs) || p.takesAll ps rest

/-- Whether a pattern accepts a path of a pattern that is not open. -/
def meets (rest : Bool) : List Segment → List Segment → Bool
  | [], qs => qs.isEmpty
  | p :: ps, q :: qs => (p.meets q && meets rest ps qs) || p.takesAll ps rest
  | _ :: _, [] => false

variable {rest : Bool} {ps qs : List Segment} {ss cs : List (List Char)}

/-- An accepted path has the first segment, and the rest accepted by what follows, unless the first
segment takes everything. -/
theorem fits_cons_iff {p : Segment} {s : List Char} :
    fits rest (p :: ps) (s :: ss) ↔ p.fits s ∧ fits rest ps ss ∨ p.takesAll ps rest := by
  rw [fits, Bool.or_eq_true, Bool.and_eq_true]

theorem Segment.eq_param_of_takesAll {p : Segment} (h : p.takesAll ps rest) : p = .param := by
  unfold takesAll at h
  rw [Bool.and_eq_true, Bool.and_eq_true, beq_iff_eq] at h
  exact h.1.1

/-- A pattern that is not open has one segment for each of the path. -/
theorem fits_closed_cons {p : Segment} {s : List Char} (h : fits false (p :: ps) (s :: ss)) :
    p.fits s ∧ fits false ps ss := by
  rcases fits_cons_iff.mp h with h | hall
  · exact h
  · unfold Segment.takesAll at hall
    rw [Bool.and_false] at hall
    exact absurd hall Bool.false_ne_true

theorem Segment.starts_of_fits {p : Segment} {c s : List Char} (h : p.fits s)
    (hc : c.isPrefixOf s) : p.starts c := by
  cases p with
  | param => rfl
  | static text =>
    have heq : text = s := eq_of_beq h
    exact heq ▸ hc

theorem Segment.meets_of_fits {p q : Segment} {s : List Char} (hp : p.fits s) (hq : q.fits s) :
    p.meets q := by
  cases p with
  | param => cases q <;> rfl
  | static t =>
    cases q with
    | param => rfl
    | static u => exact beq_iff_eq.mpr ((eq_of_beq hp).trans (eq_of_beq hq).symm)

theorem startsWith_cons (p : List Char) {cs ss : List (List Char)} (hcs : cs ≠ []) (s : List Char) :
    startsWith (p :: cs) (s :: ss) = (p == s && startsWith cs ss) := by
  cases cs with
  | nil => exact absurd rfl hcs
  | cons c cs => rfl

/-- The pieces of a prefix begin the pieces of the text. -/
theorem startsWith_splitOn {pre path : List Char} (h : pre <+: path) :
    startsWith (pre.splitOn '/') (path.splitOn '/') := by
  induction pre generalizing path with
  | nil =>
    cases hsplit : path.splitOn '/' with
    | nil => exact absurd hsplit (List.splitOn_ne_nil '/' path)
    | cons s ss => rfl
  | cons a pre ih =>
    cases path with
    | nil => exact absurd (List.prefix_nil.mp h) (List.cons_ne_nil a pre)
    | cons b path =>
      obtain ⟨rfl, htail⟩ := List.cons_prefix_cons.mp h
      have hstarts := ih htail
      rw [List.splitOn_cons_eq_if_modifyHead, List.splitOn_cons_eq_if_modifyHead]
      by_cases ha : (a == '/') = true
      · rw [if_pos ha, if_pos ha, startsWith_cons [] (List.splitOn_ne_nil '/' pre) [], hstarts]
        rfl
      · rw [if_neg ha, if_neg ha]
        cases hpre : pre.splitOn '/' with
        | nil => exact absurd hpre (List.splitOn_ne_nil '/' pre)
        | cons c cs =>
          cases hpath : path.splitOn '/' with
          | nil => exact absurd hpath (List.splitOn_ne_nil '/' path)
          | cons s ss =>
            rw [hpre, hpath] at hstarts
            rw [List.modifyHead_cons, List.modifyHead_cons]
            cases cs with
            | nil => simpa [startsWith] using hstarts
            | cons c' cs => simpa [startsWith] using hstarts

theorem mayStart_of_fits (h : fits rest ps ss) (hs : startsWith cs ss) : mayStart rest ps cs := by
  induction ps generalizing ss cs with
  | nil =>
    cases ss with
    | nil =>
      cases cs with
      | nil => rfl
      | cons c cs => cases cs <;> exact absurd hs Bool.false_ne_true
    | cons s ss => exact absurd h Bool.false_ne_true
  | cons p ps ih =>
    cases ss with
    | nil => exact absurd h Bool.false_ne_true
    | cons s ss =>
      match cs with
      | [] => rfl
      | [c] =>
        rcases fits_cons_iff.mp h with ⟨hp, -⟩ | hall
        · exact Segment.starts_of_fits hp hs
        · rw [Segment.eq_param_of_takesAll hall]
          rfl
      | c :: c' :: cs =>
        obtain ⟨hc, hs⟩ := Bool.and_eq_true_iff.mp hs
        have heq : c = s := eq_of_beq hc
        rw [mayStart, Bool.or_eq_true, Bool.and_eq_true]
        · rcases fits_cons_iff.mp h with ⟨hp, hrest⟩ | hall
          · exact .inl ⟨heq ▸ hp, ih hrest hs⟩
          · exact .inr hall
        · exact List.cons_ne_nil c' cs

/-- A pattern that accepts a path starting with a text may start with the text. -/
theorem mayStart_of_prefix {pre path : List Char} (h : fits rest ps (path.splitOn '/'))
    (hpre : pre <+: path) : mayStart rest ps (pre.splitOn '/') :=
  mayStart_of_fits h (startsWith_splitOn hpre)

/-- Patterns that accept a common path meet. -/
theorem meets_of_fits (h : fits rest ps ss) (hq : fits false qs ss) : meets rest ps qs := by
  induction ps generalizing ss qs with
  | nil =>
    cases ss with
    | nil =>
      cases qs with
      | nil => rfl
      | cons q qs => exact absurd hq Bool.false_ne_true
    | cons s ss => exact absurd h Bool.false_ne_true
  | cons p ps ih =>
    cases ss with
    | nil => exact absurd h Bool.false_ne_true
    | cons s ss =>
      cases qs with
      | nil => exact absurd hq Bool.false_ne_true
      | cons q qs =>
        rw [meets, Bool.or_eq_true, Bool.and_eq_true]
        rcases fits_cons_iff.mp h with ⟨hp, hrest⟩ | hall
        · obtain ⟨hs, hq⟩ := fits_closed_cons hq
          exact .inl ⟨Segment.meets_of_fits hp hs, ih hrest hq⟩
        · exact .inr hall

/-! ## Escaped paths -/

/-- A parameter, or a text without an escape. -/
def Segment.isPlain : Segment → Bool
  | static text => '%' ∉ text
  | param => true

/-- A plain pattern that accepts an escaped path accepts the path. -/
theorem fits_of_fits_escape (h : fits false ps (ss.map Url.escape)) (hps : ∀ p ∈ ps, p.isPlain) :
    fits false ps ss := by
  induction ps generalizing ss with
  | nil => simpa [fits] using h
  | cons p ps ih =>
    cases ss with
    | nil => exact h
    | cons s ss =>
      obtain ⟨hp, htail⟩ := fits_closed_cons h
      have hrest := ih htail fun q hq => hps q (List.mem_cons_of_mem p hq)
      refine fits_cons_iff.mpr (.inl ⟨?_, hrest⟩)
      cases p with
      | param => rfl
      | static text =>
        have heq : text = Url.escape s := eq_of_beq hp
        have hplain : '%' ∉ text := of_decide_eq_true (hps (.static text) List.mem_cons_self)
        exact beq_iff_eq.mpr (Url.eq_of_escape_eq heq.symm hplain).symm

/-- A pattern of two or more segments whose first is empty accepts paths with a slash in front
only. -/
theorem slash_prefix_of_fits {path : List Char} (h : fits false ps (path.splitOn '/'))
    (hhead : ps.head? = some (.static [])) (hlen : 1 < ps.length) : ['/'] <+: path := by
  match ps, hhead with
  | .static [] :: ps, _ =>
    cases path with
    | nil =>
      obtain ⟨-, htail⟩ := fits_closed_cons h
      cases ps with
      | nil => exact absurd hlen (lt_irrefl 1)
      | cons p ps => exact absurd htail Bool.false_ne_true
    | cons a path =>
      by_cases ha : (a == '/') = true
      · rw [eq_of_beq ha]
        exact List.prefix_append ['/'] path
      · rw [List.splitOn_cons_eq_if_modifyHead, if_neg ha] at h
        cases hsplit : path.splitOn '/' with
        | nil => exact absurd hsplit (List.splitOn_ne_nil '/' path)
        | cons s ss =>
          rw [hsplit, List.modifyHead_cons] at h
          exact absurd (fits_closed_cons h).1 Bool.false_ne_true

/-- A plain pattern that accepts the path of a URI as it was sent accepts the path that a router
reads. -/
theorem fits_routePath {p path rawPath : String} (hset : Url.setPath p = some (path, rawPath))
    (hp : p ≠ "") (hps : ∀ q ∈ ps, q.isPlain) (h : fits false ps (p.toList.splitOn '/')) :
    fits false ps ((Url.routePath path rawPath).toList.splitOn '/') := by
  rcases Url.routePath_eq_or hset hp with heq | heq
  · rwa [heq]
  · rw [← heq, Url.splitOn_escape] at h
    exact fits_of_fits_escape h hps

end Paths
