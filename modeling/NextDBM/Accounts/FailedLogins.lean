import NextDBM.Accounts.Tokens

/-!
# Failed logins

`LoginFailedKeyManager` counts the wrong attempts of a client on a name, from 1 on, under the address
followed by the name. `LoginEndpoint` and the loop of `totpUI` read the counter, compare, and write the
counter, each step on its own; an attempt that reads 5 is refused. A lock window is considered in which
no counter expires.
-/

namespace NextDBM

/-- The branches of `LoginEndpoint` that count a failure. -/
def WebLogin.isWrong (V : Verifiers) (db : Database) (l : WebLogin) : Bool :=
  if 100 < l.password.utf8ByteSize then false
  else match UserRepository.findByUsername db l.username with
    | .error _ => true
    | .ok user =>
      if user.status = nd.statusDisabled then false
      else if !V.encoderMatch user.password l.password then true
      else if user.totpSecret ≠ "" ∧ user.totpSecret ≠ "-" then
        if l.totp = "" then false else !V.validate l.time l.totp user.totpSecret
      else false

/-- An attempt of `LoginEndpoint`, or the turn of the loop of `totpUI` after its prompt. What the counter
holds is not taken from the fields of the attempt. -/
inductive LoginAttempt
  | web (l : WebLogin)
  | code (remoteAddr username totpSecret : String) (input : { code : String // 6 ≤ code.utf8ByteSize })
      (now : Nat)

namespace LoginAttempt

/-- The address of the client and the name. -/
def pair : LoginAttempt → String × String
  | web l => (l.realIP, l.username)
  | code remoteAddr username _ _ _ => (remoteAddr, username)

/-- `loginFailCountKey` -/
def key (p : String × String) : String := p.1 ++ p.2

/-- The comparisons of an attempt find it wrong. -/
def isWrong (V : Verifiers) (db : Database) : LoginAttempt → Bool
  | web l => l.isWrong V db
  | code _ _ totpSecret input now => !V.validate now input totpSecret

@[simp] theorem isWrong_code {V : Verifiers} {db : Database} {remoteAddr username totpSecret : String}
    {input : { code : String // 6 ≤ code.utf8ByteSize }} {now : Nat} :
    (code remoteAddr username totpSecret input now).isWrong V db = !V.validate now input totpSecret :=
  rfl

end LoginAttempt

/-- The counters, the attempts that have read a counter, the attempts that were found wrong and have not
written it; and history variables: the pairs of the attempts that were found wrong, and of those that
were refused. -/
structure FailedLogins where
  counters : String → Option Nat := fun _ => none
  comparing : List (LoginAttempt × Nat) := []
  writing : List (LoginAttempt × Nat) := []
  wrongs : List (String × String) := []
  refused : List (String × String) := []

/-- A step of an attempt. The index is that of the attempt in its list; `compare` finds the users of a
database. -/
inductive AttemptStep
  | read (a : LoginAttempt)
  | compare (i : Nat) (db : Database)
  | write (i : Nat)

namespace FailedLogins

open LoginAttempt

/-- The count that an attempt under a key reads. -/
def count (s : FailedLogins) (k : String) : Nat := (s.counters k).getD 1

def read (s : FailedLogins) (a : LoginAttempt) : FailedLogins :=
  if 5 ≤ s.count (key a.pair) then { s with refused := a.pair :: s.refused }
  else { s with comparing := (a, s.count (key a.pair)) :: s.comparing }

/-- An attempt leaves the comparison; a wrong one will write its count. -/
def compare (V : Verifiers) (s : FailedLogins) (i : Nat) (x : LoginAttempt × Nat) (db : Database) :
    FailedLogins :=
  if x.1.isWrong V db then
    { s with
      comparing := s.comparing.eraseIdx i
      writing := x :: s.writing
      wrongs := x.1.pair :: s.wrongs }
  else { s with comparing := s.comparing.eraseIdx i }

def write (s : FailedLogins) (i : Nat) (x : LoginAttempt × Nat) : FailedLogins :=
  { s with
    counters := Function.update s.counters (key x.1.pair) (some (x.2 + 1))
    writing := s.writing.eraseIdx i }

def step (V : Verifiers) (s : FailedLogins) : AttemptStep → Option FailedLogins
  | .read a => some (s.read a)
  | .compare i db => (s.comparing[i]?).map fun x => s.compare V i x db
  | .write i => (s.writing[i]?).map fun x => s.write i x

/-- At most four attempts of a pair were found wrong, and a pair that was refused made four wrong attempts
itself. -/
structure Bounded (s : FailedLogins) : Prop where
  wrongs : ∀ p, s.wrongs.count p ≤ 4
  refused : ∀ p ∈ s.refused, 4 ≤ s.wrongs.count p

/-- The condition: when an attempt is found wrong, the counter is still what it has read and no other
attempt is about to write it; and the wrong attempts that lock a key are those of the pair that is
refused. -/
def OneAtATime (V : Verifiers) (s : FailedLogins) : AttemptStep → Prop
  | .read a => 5 ≤ s.count (key a.pair) → ∀ p ∈ s.wrongs, key p = key a.pair → p = a.pair
  | .compare i db => ∀ x, s.comparing[i]? = some x → x.1.isWrong V db = true →
    s.count (key x.1.pair) = x.2 ∧ ∀ y ∈ s.writing, key y.1.pair ≠ key x.1.pair
  | .write _ => True

instance (V : Verifiers) (s : FailedLogins) : (a : AttemptStep) → Decidable (s.OneAtATime V a)
  | .read a => inferInstanceAs
    (Decidable (5 ≤ s.count (key a.pair) → ∀ p ∈ s.wrongs, key p = key a.pair → p = a.pair))
  | .compare i db => inferInstanceAs
    (Decidable (∀ x ∈ s.comparing[i]?, x.1.isWrong V db = true →
      s.count (key x.1.pair) = x.2 ∧ ∀ y ∈ s.writing, key y.1.pair ≠ key x.1.pair))
  | .write _ => inferInstanceAs (Decidable True)

end FailedLogins

end NextDBM
