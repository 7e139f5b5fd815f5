import NextDBM.Accounts.Proofs.ReferencesProofs
import NextDBM.Accounts.RoleChanges
import NextDBM.Web.Proofs.AuthProofs

/-!
# Proofs: changes of roles

What the cache has of an account is nothing, or the roles that the account has now; what a request has
read are roles that its account has had since it started. Only a commit and the end of a read can break
the first part, and the condition is about these two.
-/

namespace NextDBM

open Relational Transition

/-! ## `UpdateUser` -/

section UpdateUser

variable {db db' : Database} {uuid : Nat → String} {user : User} {account : String}

/-- The checks and the writes make up `UpdateUser`. -/
theorem updateUser_eq_check_write (db : Database) (uuid : Nat → String) (id : String)
    (user : User) : UserService.updateUser db uuid id user =
      UserService.checkUpdate db id user >>= fun _ => UserService.writeUpdate db uuid user := by
  unfold UserService.updateUser UserService.updateUserRoles UserService.checkUpdate
    UserService.writeUpdate
  cases UserRepository.findById db id with
  | error e => rfl
  | ok dbUser =>
    show ((if _ then _ else _) >>= fun db => UserRepository.update db user) =
      ((if _ then _ else _) >>= fun _ => _)
    split
    · rfl
    · rfl

/-- `UpdateUser` leaves the roles of the other users as they are. -/
theorem getRolesByUserId_writeUpdate (h : UserService.writeUpdate db uuid user = .ok db')
    (hne : account ≠ user.id) :
    RoleService.getRolesByUserId db' account = RoleService.getRolesByUserId db account := by
  obtain ⟨db₁, hsave, hupdate⟩ := bind_eq_ok.mp h
  have hrefs : db'.userRoleRefs = db₁.userRoleRefs := by
    unfold UserRepository.update at hupdate
    split at hupdate
    · cases hupdate
    · obtain rfl := Except.ok.inj hupdate
      rfl
  rw [UserService.saveUserRoles] at hsave
  split at hsave
  · next userRoleRefs hinsert =>
    obtain rfl := Except.ok.inj hsave
    have hrows := Table.rows_of_insertAll hinsert
    unfold RoleService.getRolesByUserId Table.select
    rw [hrefs, hrows, List.filter_append]
    rw [List.filter_eq_nil_iff.mpr ?new, List.nil_append]
    case new =>
      intro r hr heq
      obtain ⟨x, -, rfl⟩ := List.mem_map.mp (List.mem_reverse.mp hr)
      exact hne (beq_iff_eq.mp heq).symm
    show ((db.userRoleRefs.rows.filter fun r => !(r.userId == user.id)).filter _).map _ = _
    rw [List.filter_filter]
    congr 1
    refine List.filter_congr fun r _ => ?_
    by_cases hr : r.userId = account
    · have hother : r.userId ≠ user.id := hr ▸ hne
      rw [beq_false_of_ne hother, Bool.not_false, Bool.and_true]
    · rw [beq_false_of_ne hr, Bool.false_and]
  · cases hsave

end UpdateUser

/-! ## `Auth` -/

/-- The first look and the read find what `Auth` decides by when nothing comes in between. -/
theorem rolesOf_eq_lookupRoles (server : Server) (account : String) :
    server.rolesOf account =
      match lookupRoles server.userRoles account with
      | .decided roles => roles
      | _ => RoleService.getRolesByUserId server.db account := by
  unfold Server.rolesOf lookupRoles
  cases server.userRoles account with
  | none => rfl
  | some roles =>
    cases roles with
    | nil => rfl
    | cons role roles => rfl

theorem permits_eq_permitsPath (matcher : Matcher) (server : Server) (req : HttpRequest)
    (account : User) : permits matcher server req account =
      permitsPath matcher server.roleMenus req.path (server.rolesOf account.id) := rfl

namespace RoleSystem

variable {s t : RoleSystem} {task : UpdateTask} {r : RoleRequest} {i : Nat} {account : String}
  {db : Database}

/-- What a request has read. -/
structure ReadsFresh (s : RoleSystem) (r : RoleRequest) : Prop where
  now : s.roles r.account ∈ r.since
  found : ∀ roles, r.phase = .found roles → roles = [] ∨ roles ∈ r.since
  decided : ∀ roles, r.phase = .decided roles → roles = [] ∨ roles ∈ r.since

/-- The invariant of the runs that meet the condition. -/
structure Inv (s : RoleSystem) : Prop where
  cached : ∀ account, s.CachesOnly account (s.roles account)
  requests : ∀ r ∈ s.requests, s.ReadsFresh r

/-! ## Steps of `UpdateUser` -/

theorem Inv.updates (h : Inv s) (updates : List UpdateTask) : Inv { s with updates } :=
  ⟨h.cached, fun r hr => ⟨(h.requests r hr).now, (h.requests r hr).found, (h.requests r hr).decided⟩⟩

/-- Removing roles from the cache. -/
theorem Inv.forget (h : Inv s) (account : String) (updates : List UpdateTask) :
    Inv { s with manager := Function.update s.manager account none, updates } := by
  refine ⟨fun other roles hroles => ?_, fun r hr =>
    ⟨(h.requests r hr).now, (h.requests r hr).found, (h.requests r hr).decided⟩⟩
  have hroles : Function.update s.manager account none other = some roles := hroles
  by_cases heq : other = account
  · rw [heq, Function.update_self] at hroles
    cases hroles
  · rw [Function.update_of_ne heq] at hroles
    exact h.cached other roles hroles

theorem Inv.begin (h : Inv s) (task : UpdateTask) : Inv (s.begin task) := by
  unfold RoleSystem.begin
  split
  · exact h.updates _
  · exact h

theorem Inv.write (h : Inv s) (hstep : s.write i task = some t) : Inv t := by
  unfold RoleSystem.write at hstep
  rw [Option.ite_none_right_eq_some] at hstep
  obtain ⟨-, hstep⟩ := hstep
  obtain rfl := Option.some.inj hstep
  exact h.updates _

theorem Inv.evict (h : Inv s) (hstep : s.evict i task = some t) : Inv t := by
  unfold RoleSystem.evict at hstep
  rw [Option.ite_none_right_eq_some] at hstep
  obtain ⟨-, hstep⟩ := hstep
  obtain rfl := Option.some.inj hstep
  exact h.forget task.id _

/-- After a commit the open requests have seen the new roles too. -/
theorem ReadsFresh.install (h : s.ReadsFresh r) (db : Database) :
    (s.install db).ReadsFresh
      { r with since := RoleService.getRolesByUserId db r.account :: r.since } :=
  ⟨List.mem_cons_self, fun roles hphase => (h.found roles hphase).imp_right (List.mem_cons_of_mem _),
    fun roles hphase => (h.decided roles hphase).imp_right (List.mem_cons_of_mem _)⟩

theorem Inv.install (h : Inv s)
    (hwrite : UserService.writeUpdate s.db task.uuid task.user = .ok db)
    (hcached : s.CachesOnly task.user.id (RoleService.getRolesByUserId db task.user.id)) :
    Inv (s.install db) := by
  refine ⟨fun account => ?_, fun r hr => ?_⟩
  · by_cases heq : account = task.user.id
    · subst heq
      exact hcached
    · have hroles : (s.install db).roles account = s.roles account :=
        getRolesByUserId_writeUpdate hwrite heq
      rw [hroles]
      exact h.cached account
  · obtain ⟨q, hq, rfl⟩ := List.mem_map.mp hr
    exact (h.requests q hq).install db

theorem Inv.commit (h : Inv s) (hok : s.KeepsCommit task) (hstep : s.commit i task = some t) :
    Inv t := by
  unfold RoleSystem.commit at hstep
  rw [Option.ite_none_right_eq_some] at hstep
  obtain ⟨-, hstep⟩ := hstep
  cases hwrite : UserService.writeUpdate s.db task.uuid task.user with
  | error e =>
    rw [hwrite] at hstep
    cases hstep
  | ok db =>
    rw [hwrite] at hstep
    obtain rfl := Option.some.inj hstep
    have hcached := hok db (by rw [hwrite]; rfl)
    exact (h.install hwrite hcached).updates _

/-! ## Steps of `Auth` -/

theorem Inv.start (h : Inv s) (account path : String) : Inv (s.start account path) := by
  refine ⟨h.cached, fun r hr => ?_⟩
  rcases List.mem_append.mp hr with hr | hr
  · exact ⟨(h.requests r hr).now, (h.requests r hr).found, (h.requests r hr).decided⟩
  · obtain rfl := List.mem_singleton.mp hr
    refine ⟨List.mem_singleton_self _, fun roles hphase => ?_, fun roles hphase => ?_⟩
    · cases hphase
    · cases hphase

/-- A request goes on with roles that its account has had since it started. -/
theorem Inv.setPhase (h : Inv s) (hr : r ∈ s.requests) {phase : RequestPhase}
    (hphase : ∀ roles, phase = .found roles ∨ phase = .decided roles →
      roles = [] ∨ roles ∈ r.since) : Inv (s.setPhase i r phase) := by
  refine ⟨h.cached, fun q hq => ?_⟩
  rcases List.mem_or_eq_of_mem_set hq with hq | rfl
  · exact ⟨(h.requests q hq).now, (h.requests q hq).found, (h.requests q hq).decided⟩
  · exact ⟨(h.requests r hr).now, fun roles heq => hphase roles (.inl heq),
      fun roles heq => hphase roles (.inr heq)⟩

/-- What the first look at the cache decides by is cached. -/
theorem cached_of_lookupRoles {manager : UserRolesManager} {roles : List String}
    (h : lookupRoles manager account = .decided roles) : manager account = some roles := by
  unfold lookupRoles at h
  split at h
  · next heq =>
    cases h
    exact heq
  · cases h

theorem lookupRoles_ne_found {manager : UserRolesManager} {roles : List String} :
    lookupRoles manager account ≠ .found roles := by
  unfold lookupRoles
  split
  · intro h
    cases h
  · intro h
    cases h

theorem Inv.lookup (h : Inv s) (hr : r ∈ s.requests) (hstep : s.lookup i r = some t) : Inv t := by
  unfold RoleSystem.lookup at hstep
  split at hstep
  · obtain rfl := Option.some.inj hstep
    refine h.setPhase hr fun roles hphase => ?_
    rcases hphase with hfound | hdecided
    · exact absurd hfound lookupRoles_ne_found
    · rcases h.cached r.account roles (cached_of_lookupRoles hdecided) with hnil | hnow
      · exact .inl hnil
      · exact .inr (hnow ▸ (h.requests r hr).now)
  · cases hstep

theorem Inv.read (h : Inv s) (hr : r ∈ s.requests) {served : Bool}
    (hstep : s.read i served r = some t) : Inv t := by
  unfold RoleSystem.read at hstep
  split at hstep
  · obtain rfl := Option.some.inj hstep
    refine h.setPhase hr fun roles hphase => ?_
    rcases hphase with hfound | hdecided
    · cases hfound
      cases served with
      | true => exact .inr (h.requests r hr).now
      | false => exact .inl rfl
    · cases hdecided
  · cases hstep

theorem Inv.cache (h : Inv s) (hr : r ∈ s.requests) (hok : s.KeepsCache r)
    (hstep : s.cache i r = some t) : Inv t := by
  unfold RoleSystem.cache at hstep
  unfold KeepsCache at hok
  split at hstep
  · next roles hphase =>
    obtain rfl := Option.some.inj hstep
    rw [hphase] at hok
    have hset : Inv (s.setPhase i r (.decided roles)) := by
      refine h.setPhase hr fun other hother => ?_
      rcases hother with hfound | hdecided
      · cases hfound
      · cases hdecided
        exact (h.requests r hr).found roles hphase
    refine ⟨fun account cached hcached => ?_, fun q hq =>
      ⟨(hset.requests q hq).now, (hset.requests q hq).found, (hset.requests q hq).decided⟩⟩
    have hcached : Function.update s.manager r.account (some roles) account = some cached := hcached
    by_cases heq : account = r.account
    · rw [heq, Function.update_self] at hcached
      obtain rfl := Option.some.inj hcached
      exact heq ▸ hok
    · rw [Function.update_of_ne heq] at hcached
      exact h.cached account cached hcached
  · cases hstep

/-! ## Runs -/

theorem Inv.step {a : RoleAction} (h : Inv s) (hok : s.KeepsRoles a) (hstep : s.step a = some t) :
    Inv t := by
  cases a with
  | begin id user uuid =>
    obtain rfl := Option.some.inj hstep
    exact h.begin _
  | write i =>
    obtain ⟨task, -, hstep⟩ := Option.bind_eq_some_iff.mp hstep
    exact h.write hstep
  | evict i =>
    obtain ⟨task, -, hstep⟩ := Option.bind_eq_some_iff.mp hstep
    exact h.evict hstep
  | commit i =>
    obtain ⟨task, htask, hstep⟩ := Option.bind_eq_some_iff.mp hstep
    exact h.commit (hok task htask) hstep
  | rollback i =>
    have hstep' : (if i < s.updates.length then
        some { s with updates := s.updates.eraseIdx i } else none) = some t := hstep
    rw [Option.ite_none_right_eq_some] at hstep'
    obtain ⟨-, hstep⟩ := hstep'
    obtain rfl := Option.some.inj hstep
    exact h.updates _
  | start account path =>
    obtain rfl := Option.some.inj hstep
    exact h.start account path
  | lookup i =>
    obtain ⟨r, hr, hstep⟩ := Option.bind_eq_some_iff.mp hstep
    exact h.lookup (List.mem_of_getElem? hr) hstep
  | read i served =>
    obtain ⟨r, hr, hstep⟩ := Option.bind_eq_some_iff.mp hstep
    exact h.read (List.mem_of_getElem? hr) hstep
  | cache i =>
    obtain ⟨r, hr, hstep⟩ := Option.bind_eq_some_iff.mp hstep
    exact h.cache (List.mem_of_getElem? hr) (hok r hr) hstep
  | expire account =>
    obtain rfl := Option.some.inj hstep
    exact h.forget account s.updates

theorem inv_started (db : Database) : Inv { db } :=
  ⟨fun _ _ h => (by cases h), fun _ hr => absurd hr List.not_mem_nil⟩

/-- No roles permit nothing. -/
theorem takesEffect_of_inv (h : Inv s) (matcher : Matcher)
    (roleMenus : String → Option (List String)) : s.TakesEffect matcher roleMenus := by
  intro r hr roles hphase hpermits
  rcases (h.requests r hr).decided roles hphase with rfl | hmem
  · cases hpermits
  · exact hmem

theorem takesEffect_of_reaches (matcher : Matcher) (roleMenus : String → Option (List String))
    (db : Database) (h : Reaches RoleSystem.step KeepsRoles { db } s) :
    s.TakesEffect matcher roleMenus :=
  takesEffect_of_inv (h.invariant (fun _ _ _ hs hok hstep => hs.step hok hstep) (inv_started db))
    matcher roleMenus

/-! ## Two runs -/

/-- A user who may see the overview. -/
def overseer : Database :=
  { users := ⟨[{ id := "u1", username := "anna" }], by decide⟩
    userRoleRefs := ⟨[{ id := "ref-1", userId := "u1", roleId := "overview" }], by decide⟩ }

/-- The update that takes the role away. -/
def demote : RoleAction :=
  .begin "u1" { id := "u1", username := "anna", roles := ["guest"] } fun _ => "ref-2"

def overviewMenus (role : String) : Option (List String) :=
  if role = "overview" then some ["dashboard"] else none

/-- A request of the user, served without a fault. -/
def request (i : Nat) : List RoleAction :=
  [.start "u1" "/overview/counter", .lookup i, .read i true, .cache i]

/-- A request before the update and one after it. -/
def oneByOne : List RoleAction :=
  request 0 ++ [demote, .write 0, .evict 0, .commit 0] ++ request 1

/-- The second request decides by the new roles. -/
theorem takesEffect_oneByOne : ∃ s, exec RoleSystem.step { db := overseer } oneByOne = some s ∧
    s.TakesEffect bySegments overviewMenus ∧
    s.requests.map (·.phase) = [.decided ["overview"], .decided ["guest"]] := by
  obtain ⟨s, hrun, hphases⟩ : ∃ s,
      exec RoleSystem.step { db := overseer } oneByOne = some s ∧
      s.requests.map (·.phase) = [.decided ["overview"], .decided ["guest"]] :=
    ⟨_, rfl, by decide⟩
  refine ⟨s, hrun, ?_, hphases⟩
  exact takesEffect_of_reaches bySegments overviewMenus overseer
    (reaches_of_exec hrun (by decide))

/-- A request between the eviction and the commit, and one after the commit. -/
def betweenEvictionAndCommit : List RoleAction :=
  [demote, .write 0, .evict 0] ++ request 0 ++
    [.commit 0, .start "u1" "/overview/counter", .lookup 1]

/-- The first request caches the old roles again, and the second is authorised with them. -/
theorem not_takesEffect_betweenEvictionAndCommit :
    ∃ s, exec RoleSystem.step { db := overseer } betweenEvictionAndCommit = some s ∧
      s.roles "u1" = ["guest"] ∧ ¬ s.TakesEffect bySegments overviewMenus := by
  obtain ⟨s, hrun, hroles, hlast⟩ : ∃ s,
      exec RoleSystem.step { db := overseer } betweenEvictionAndCommit = some s ∧
      s.roles "u1" = ["guest"] ∧ s.requests[1]? = some
        ⟨"u1", "/overview/counter", .decided ["overview"], [["guest"]]⟩ :=
    ⟨_, rfl, by decide, rfl⟩
  refine ⟨s, hrun, hroles, fun h => ?_⟩
  have hmem := h _ (List.mem_of_getElem? hlast) ["overview"] rfl (by decide)
  exact absurd hmem (by decide)

end RoleSystem

end NextDBM
