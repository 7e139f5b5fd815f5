import NextDBM.Assets.Proofs.ParametersProofs
import NextDBM.Proxy.Reload

/-!
# Proofs: convergence of the user pool

The cache of the library is the user pool (`build_authSource`), so `Refresh.converges` applies. The
spawn inside a transaction is what goes wrong: the reload can finish before the transaction commits.
-/

namespace NextDBM.Reloading

open Refresh

variable {c : Cipher} {decrypt : String → Except Error String} {db : Database} {pool : UserPool}
  {s : PoolState}

/-- A row of the cache is a turn of the loop of `InitAuth`. -/
theorem add_authSource : (authSource decrypt).add = MariaDBProxy.addRow decrypt := by
  funext pool auth
  have heffect : (authSource decrypt).effect auth = rowEffect decrypt auth := rfl
  unfold Source.add MariaDBProxy.addRow
  rw [heffect]
  unfold rowEffect
  by_cases hempty : auth.proxyAuth = ""
  · rw [if_pos hempty, if_pos hempty]
  · rw [if_neg hempty, if_neg hempty]
    cases decrypt auth.proxyAuth with
    | ok password => rfl
    | error err => rfl

/-- The cache of the database is what `InitAuth` computes. -/
theorem build_authSource (db : Database) :
    (authSource decrypt).build ((authSource decrypt).rows db) = MariaDBProxy.initAuth decrypt db := by
  rw [Source.build, add_authSource]
  rfl

/-- The pool of `grantOfSecond`. -/
def annPool : UserPool := InMemoryProvider.addUser InMemoryProvider.removeAllUser "ann#orders" "secret"

def annState : PoolState := { db := grantOfSecond "stock" "orders", pool := annPool }

/-- The grant is deleted, then the reload runs. -/
def deleteGrantRun : List (Action Mutation) :=
  [.request (.deleteAuthorised "r1"), .instr 0, .instr 0, .reload 0, .reload 0, .reload 0]

/-- The user is deleted; the reload that the transaction spawns finishes before the commit. -/
def deleteUserRun : List (Action Mutation) :=
  [.request (.deleteUsers "admin" [("u1", .ok ())]), .instr 0, .instr 0, .reload 0, .reload 0,
    .reload 0, .reload 0, .instr 0]

def deleteGrantState : PoolState :=
  { db := { grantOfSecond "stock" "orders" with authorised := ∅ }
    pool := InMemoryProvider.removeAllUser
    requests := [{ prog := [] }]
    reloads := [.finished] }

def deleteUserState : PoolState :=
  { db := { grantOfSecond "stock" "orders" with users := ∅, authorised := ∅ }
    pool := annPool
    requests := [{ prog := [], changed := true }]
    reloads := [.finished] }

theorem exec_deleteGrantRun (c : Cipher) :
    Transition.exec (poolStep c decryptSecret) annState deleteGrantRun = some deleteGrantState := by
  rfl

theorem exec_deleteUserRun (c : Cipher) :
    Transition.exec (poolStep c decryptSecret) annState deleteUserRun = some deleteUserState := by
  rfl

/-- The step of a reload that adds no row meets the condition. -/
theorem poolSafe_reload {t : PoolState} {j : ℕ} {x : Reload UsersAssetsProxyAuth}
    (hj : t.reloads[j]? = some x) (hne : ∀ r rest, x ≠ .adding (r :: rest)) :
    PoolSafe decrypt t (.reload j) := by
  intro r rest hadding
  exact absurd (Option.some.inj (hj.symm.trans hadding)) (hne r rest)

/-- The commit has its reload ahead, and no reload runs beside it. -/
theorem allOk_deleteGrantRun (c : Cipher) :
    Transition.AllOk (poolStep c decryptSecret) (PoolSafe decryptSecret) annState deleteGrantRun := by
  refine ⟨trivial, fun t ht => ?_⟩
  obtain rfl := Option.some.inj ht
  refine ⟨?_, fun t ht => ?_⟩
  · intro q instr rest hq hprog
    obtain rfl := Option.some.inj hq
    obtain ⟨rfl, rfl⟩ := List.cons.inj hprog
    exact fun _ => .inl rfl
  obtain rfl := Option.some.inj ht
  refine ⟨?_, fun t ht => ?_⟩
  · intro q instr rest hq hprog
    obtain rfl := Option.some.inj hq
    obtain ⟨rfl, rfl⟩ := List.cons.inj hprog
    trivial
  obtain rfl := Option.some.inj ht
  refine ⟨poolSafe_reload (x := .spawned) rfl (fun _ _ h => nomatch h), fun t ht => ?_⟩
  obtain rfl := Option.some.inj ht
  refine ⟨poolSafe_reload (x := .cleared) rfl (fun _ _ h => nomatch h), fun t ht => ?_⟩
  obtain rfl := Option.some.inj ht
  exact ⟨poolSafe_reload (x := .adding []) rfl (fun _ _ h => nomatch h), fun _ _ => trivial⟩

end NextDBM.Reloading
