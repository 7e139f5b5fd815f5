import NextDBM.Accounts.Passwords
import NextDBM.Accounts.Proofs.TokenProofs
import NextDBM.Backups.Proofs.ReferencesProofs

/-!
# The hashes of the passwords

Of each writer, what it leaves in the column `password`: the hash of the password that it sets for
some users, and the old value for the others. An update with a password stores it as it is, and so does
an import with the passwords that it draws.
-/

namespace NextDBM

open Relational

/-! ## The column after a write -/

/-- Every user of `db'` with an id among `ids` has the password `passwd`, and every other one is a user
of `db` with the password it had. -/
def PasswordsSet (ids : List String) (passwd : String) (db db' : Database) : Prop :=
  ∀ u ∈ db'.users, (u.id ∈ ids ∧ u.password = passwd) ∨
    (u.id ∉ ids ∧ ∃ v ∈ db.users, v.id = u.id ∧ v.password = u.password)

/-- No password has changed. -/
def PasswordsKept (db db' : Database) : Prop :=
  ∀ u ∈ db'.users, ∃ v ∈ db.users, v.id = u.id ∧ v.password = u.password

namespace PasswordsKept

variable {db db' db'' : Database}

theorem of_users (h : db'.users = db.users) : PasswordsKept db db' := by
  intro u hu
  rw [h] at hu
  exact ⟨u, hu, rfl, rfl⟩

theorem trans (h : PasswordsKept db db') (h' : PasswordsKept db' db'') : PasswordsKept db db'' := by
  intro u hu
  obtain ⟨v, hv, hvid, hvpass⟩ := h' u hu
  obtain ⟨w, hw, hwid, hwpass⟩ := h v hv
  exact ⟨w, hw, hwid.trans hvid, hwpass.trans hvpass⟩

end PasswordsKept

section Writers

variable {db db' : Database} {o user : User} {uuid : Nat → String}

theorem update_passwordsSet (h : UserRepository.update db o = .ok db') (hne : o.password ≠ "") :
    PasswordsSet [o.id] o.password db db' := by
  rw [UserRepository.update] at h
  split at h
  · cases h
  obtain rfl := Except.ok.inj h
  intro u hu
  by_cases hid : u.id = o.id
  · obtain ⟨v, hv, -, rfl⟩ := Table.exists_of_mem_updateById (UserRepository.assign_id o) hu hid
    exact .inl ⟨List.mem_singleton.mpr hid, nonZero_of_ne hne v.password⟩
  · refine .inr ⟨fun hmem => hid (List.mem_singleton.mp hmem), ?_⟩
    rcases Table.mem_updateById (UserRepository.assign_id o) hu with hu | ⟨v, -, hv, rfl⟩
    · exact ⟨u, hu, rfl, rfl⟩
    · exact absurd hv hid

/-- An update without a password, or of no stored user, keeps the passwords. -/
theorem update_passwordsKept (h : UserRepository.update db o = .ok db')
    (hkeeps : o.password = "" ∨ ¬ db.HasUser o.id) : PasswordsKept db db' := by
  rw [UserRepository.update] at h
  split at h
  · cases h
  obtain rfl := Except.ok.inj h
  intro u hu
  rcases Table.mem_updateById (UserRepository.assign_id o) hu with hu | ⟨v, hv, hid, rfl⟩
  · exact ⟨u, hu, rfl, rfl⟩
  · rcases hkeeps with hempty | hnone
    · refine ⟨v, hv, rfl, ?_⟩
      show v.password = nonZero o.password v.password
      rw [hempty]
      rfl
    · exact absurd ⟨v, hv, hid⟩ hnone

theorem saveUserRoles_passwordsKept (h : UserService.saveUserRoles db uuid user = .ok db') :
    PasswordsKept db db' :=
  .of_users (saveUserRoles_users h)

theorem fixUser_passwordsKept {id : String} (h : UserService.fixUser db id user = .ok db') :
    PasswordsKept db db' := by
  obtain ⟨db₁, htype, hroles⟩ := bind_eq_ok.mp h
  have hfirst : PasswordsKept db db₁ := by
    split at htype
    · exact update_passwordsKept htype (.inl rfl)
    · obtain rfl := Except.ok.inj htype
      exact .of_users rfl
  split at hroles
  · exact hfirst.trans (saveUserRoles_passwordsKept hroles)
  · obtain rfl := Except.ok.inj hroles
    exact hfirst

theorem fixUsers_passwordsKept (us : List User) :
    PasswordsKept db (UserService.fixUsers uuid db us) := by
  induction us generalizing db with
  | nil => exact .of_users rfl
  | cons u us ih =>
    rw [UserService.fixUsers]
    split
    · next db₁ hfix => exact (fixUser_passwordsKept hfix).trans ih
    · exact .of_users rfl

/-- The loop of `ChangePassword` sets the password of every id that it was given. -/
theorem changePassword_passwordsSet {ids : List String} {passwd : String} (hne : passwd ≠ "")
    (h : UserService.changePassword db ids passwd = .ok db') : PasswordsSet ids passwd db db' := by
  induction ids generalizing db with
  | nil =>
    obtain rfl := Except.ok.inj h
    exact fun u hu => .inr ⟨List.not_mem_nil, u, hu, rfl, rfl⟩
  | cons id ids ih =>
    rw [UserService.changePassword, List.foldlM_cons] at h
    obtain ⟨db₁, hround, h⟩ := bind_eq_ok.mp h
    obtain ⟨db₂, hupdate, hround⟩ := bind_eq_ok.mp hround
    obtain ⟨-, -, hround⟩ := bind_eq_ok.mp hround
    obtain rfl := Except.ok.inj hround
    intro u hu
    rcases ih h u hu with ⟨hid, hpass⟩ | ⟨hid, v, hv, hvid, hvpass⟩
    · exact .inl ⟨List.mem_cons_of_mem id hid, hpass⟩
    · rcases update_passwordsSet hupdate hne v hv with ⟨hvmem, hvset⟩ | ⟨hvmem, w, hw, hwid, hwpass⟩
      · left
        have huid : u.id = id := hvid.symm.trans (List.mem_singleton.mp hvmem)
        exact ⟨huid ▸ List.mem_cons_self, hvpass.symm.trans hvset⟩
      · right
        refine ⟨fun hmem => ?_, w, hw, hwid.trans hvid, hwpass.trans hvpass⟩
        rcases List.mem_cons.mp hmem with huid | hmem
        · exact hvmem (List.mem_singleton.mpr (hvid.trans huid))
        · exact hid hmem

/-- `CreateUser` adds a user with the encoded password. -/
theorem createUser_passwordsSet {encoded : Except Error String}
    {storageCreated : Except Error Unit}
    (h : UserService.createUser db uuid user encoded storageCreated = .ok db') :
    ∃ passwd, encoded = .ok passwd ∧
      PasswordsSet [uuid user.roles.length] passwd db db' := by
  obtain ⟨-, passwd, users, hencoded, hinsert, hroles⟩ := createUser_ok h
  refine ⟨passwd, hencoded, fun u hu => ?_⟩
  rw [saveUserRoles_users hroles] at hu
  rcases (Table.mem_of_insert hinsert).mp hu with rfl | hold
  · exact .inl ⟨List.mem_singleton.mpr rfl, rfl⟩
  · have hfree : u.id ≠ uuid user.roles.length := by
      intro heq
      rw [Table.insert_eq_none.mpr ⟨u, hold, heq⟩] at hinsert
      cases hinsert
    exact .inr ⟨fun hmem => hfree (List.mem_singleton.mp hmem), u, hold, rfl, rfl⟩

end Writers

/-! ## An import without new users -/

namespace BackupService

variable {uuid : Draws} {db : Database} {m : IdMapping}

/-- Users whose names are taken leave the tables alone. -/
theorem importUsers_of_taken {items : List User}
    (h : ∀ item ∈ items, UserRepository.existByUsername db item.username = true) :
    ∃ m', importUsers uuid db m items = .ok (db, m') := by
  induction items generalizing m with
  | nil => exact ⟨m, rfl⟩
  | cons item items ih =>
    rw [importUsers, if_pos (h item List.mem_cons_self)]
    exact ih fun item' hitem => h item' (List.mem_cons_of_mem item hitem)

theorem importBackup_users {c : Cipher} {addJob : Job → Except Error Int} {target db : BackupDatabase}
    {backup : Backup} (h : importBackup c addJob uuid target backup = .ok db)
    (htaken : ∀ item ∈ backup.users,
      UserRepository.existByUsername target.toDatabase item.username = true) :
    db.users = target.users := by
  obtain ⟨⟨usersDb, users⟩, husers, h⟩ := bind_eq_ok.mp h
  obtain ⟨groupsDb, hgroups, h⟩ := bind_eq_ok.mp h
  obtain ⟨storages, -, h⟩ := bind_eq_ok.mp h
  obtain ⟨strategies, -, h⟩ := bind_eq_ok.mp h
  obtain ⟨accessSecurities, -, h⟩ := bind_eq_ok.mp h
  obtain ⟨gateways, -, h⟩ := bind_eq_ok.mp h
  obtain ⟨commands, -, h⟩ := bind_eq_ok.mp h
  obtain ⟨credentialsDb, hcredentials, h⟩ := bind_eq_ok.mp h
  obtain ⟨assetsDb, hassets, h⟩ := bind_eq_ok.mp h
  obtain ⟨jobs, -, h⟩ := bind_eq_ok.mp h
  obtain ⟨sqls, -, h⟩ := bind_eq_ok.mp h
  obtain ⟨translations, -, h⟩ := bind_eq_ok.mp h
  obtain rfl := Except.ok.inj h
  obtain ⟨m', hkept⟩ : ∃ m', importUsers uuid target.toDatabase ∅ backup.users =
      .ok (target.toDatabase, m') := importUsers_of_taken htaken
  obtain ⟨rfl, -⟩ := Prod.mk.inj (Except.ok.inj (husers.symm.trans hkept))
  obtain ⟨groupTable, memberTable, rfl⟩ := (importUserGroups_rows hgroups).frame
  obtain ⟨⟨credentials, rfl⟩, -⟩ := importCredentials_ok hcredentials
  obtain ⟨⟨assets, assetAttributes, rfl⟩, -⟩ := importAssets_ok hassets
  rfl

end BackupService

/-! ## The hashes in every run -/

namespace PasswordStore

variable {E : Encoder} {c : Cipher} {demo : Bool} {s s' : PasswordStore}

theorem Encoder.Sound.encodes (hE : E.Sound) {salt : Nat} {password hash : String}
    (h : E.encode salt password = .ok hash) : E.Encodes hash password :=
  ⟨⟨salt, h⟩, hE.isMatch_iff salt password hash h⟩

theorem setPasswords_of_not_mem {passwords : String → String} {sets : List (String × String)}
    {id : String} (h : ∀ p ∈ sets, p.1 ≠ id) : setPasswords passwords sets id = passwords id := by
  unfold setPasswords
  have hnone : sets.lookup id = none :=
    List.lookup_eq_none_iff.mpr fun p hp => bne_iff_ne.mpr (h p hp).symm
  rw [hnone]
  rfl

/-- Setting one password for several users. -/
theorem setPasswords_map {passwords : String → String} {ids : List String} {password id : String}
    (h : id ∈ ids) : setPasswords passwords (ids.map fun id => (id, password)) id = password := by
  unfold setPasswords
  induction ids with
  | nil => exact absurd h List.not_mem_nil
  | cons k ids ih =>
    rw [List.map_cons, List.lookup_cons]
    by_cases hk : id = k
    · rw [hk, beq_self_eq_true]
      rfl
    · rw [beq_false_of_ne hk]
      exact ih ((List.mem_cons.mp h).resolve_left hk)

/-- A write that fails changes nothing. -/
theorem Encoded.write (h : s.Encoded E) {sets : List (String × String)} {r : Except Error Database}
    (hok : ∀ db, r = .ok db → (s.write sets (.ok db)).Encoded E) : (s.write sets r).Encoded E := by
  cases r with
  | error e => exact h
  | ok db => exact hok db rfl

theorem Encoded.write_set (h : s.Encoded E) {ids : List String} {password passwd : String}
    {db : Database} (hset : PasswordsSet ids passwd s.db.toDatabase db)
    (hhash : E.Encodes passwd password) :
    (s.write (ids.map fun id => (id, password)) (.ok db)).Encoded E := by
  intro u hu
  show E.Encodes u.password (setPasswords s.passwords _ u.id)
  rcases hset u hu with ⟨hid, hpass⟩ | ⟨hid, v, hv, hvid, hvpass⟩
  · rw [setPasswords_map hid, hpass]
    exact hhash
  · have hother : ∀ p ∈ ids.map fun id => (id, password), p.1 ≠ u.id := by
      intro p hp heq
      obtain ⟨id, hmem, rfl⟩ := List.mem_map.mp hp
      exact hid (heq ▸ hmem)
    rw [setPasswords_of_not_mem hother, ← hvid, ← hvpass]
    exact h v hv

theorem Encoded.write_kept (h : s.Encoded E) {sets : List (String × String)} {db : Database}
    (hkept : PasswordsKept s.db.toDatabase db) (hsets : ∀ p ∈ sets, ¬ s.db.HasUser p.1) :
    (s.write sets (.ok db)).Encoded E := by
  intro u hu
  obtain ⟨v, hv, hvid, hvpass⟩ := hkept u hu
  show E.Encodes u.password (setPasswords s.passwords sets u.id)
  have hother : ∀ p ∈ sets, p.1 ≠ u.id := fun p hp heq => hsets p hp ⟨v, hv, hvid.trans heq.symm⟩
  rw [setPasswords_of_not_mem hother, ← hvid, ← hvpass]
  exact h v hv

/-- The first user gets the hash of its password, and the corrections of a later start keep those of
the others. -/
theorem Encoded.initUser (hE : E.Sound) (h : s.Encoded E) (salt : Nat) (uuid : Nat → String) :
    (s.call E c demo (.initUser salt uuid)).Encoded E := by
  unfold call UserService.initUser
  by_cases hempty : s.db.users.rows = []
  · simp only [if_pos hempty]
    have hnone : ∀ u ∈ s.db.users, False := by
      intro u hu
      rw [Table.mem_def, hempty] at hu
      exact absurd hu List.not_mem_nil
    cases hencode : E.encode salt "admin" with
    | error e => exact fun u hu => (hnone u hu).elim
    | ok pass =>
      have hset : PasswordsSet [superAdminId] pass s.db.toDatabase (commit s.db.toDatabase
          (UserRepository.create s.db.toDatabase (UserService.initialUser pass))) := by
        intro u hu
        cases hcreate : UserRepository.create s.db.toDatabase (UserService.initialUser pass) with
        | error e =>
          rw [hcreate] at hu
          exact (hnone u hu).elim
        | ok db =>
          rw [hcreate] at hu
          obtain ⟨users, hinsert, rfl⟩ := BackupService.userCreate_ok hcreate
          rcases (Table.mem_of_insert hinsert).mp hu with rfl | hold
          · exact .inl ⟨List.mem_singleton.mpr rfl, rfl⟩
          · exact (hnone u hold).elim
      exact h.write_set hset (Encoder.Sound.encodes hE hencode)
  · simp only [if_neg hempty]
    exact h.write_kept (fixUsers_passwordsKept _) fun p hp => absurd hp List.not_mem_nil

theorem Encoded.createUser (hE : E.Sound) (h : s.Encoded E) (salt : Nat) (uuid : Nat → String)
    (item : User) (storageCreated : Except Error Unit) :
    (s.call E c demo (.createUser salt uuid item storageCreated)).Encoded E := by
  refine h.write fun db hcreate => ?_
  rw [UserApi.createEndpoint] at hcreate
  split at hcreate
  · cases hcreate
  obtain ⟨passwd, hencode, hset⟩ := createUser_passwordsSet hcreate
  exact h.write_set hset (Encoder.Sound.encodes hE hencode)

theorem Encoded.updateUser (h : s.Encoded E) {uuid : Nat → String} {id : String} {item : User}
    (hkeeps : s.KeepsEncoded c (.updateUser uuid id item)) :
    (s.call E c demo (.updateUser uuid id item)).Encoded E := by
  refine h.write fun db hupdate => ?_
  have hkeeps := hkeeps db hupdate
  obtain ⟨db₁, hroles, hrow⟩ := bind_eq_ok.mp hupdate
  have hrows : db₁.users = s.db.users := by
    obtain ⟨dbUser, -, hroles⟩ := bind_eq_ok.mp hroles
    split at hroles
    · cases hroles
    · have hsaved := saveUserRoles_users hroles
      exact hsaved
  have hkeeps₁ : item.password = "" ∨ ¬ db₁.HasUser item.id := by
    rcases hkeeps with hempty | hnone
    · exact .inl hempty
    · refine .inr ?_
      rw [Database.HasUser, hrows]
      exact hnone
  have hkept : PasswordsKept s.db.toDatabase db :=
    (PasswordsKept.of_users hrows).trans (update_passwordsKept hrow hkeeps₁)
  refine h.write_kept hkept fun p hp => ?_
  split at hp
  · exact absurd hp List.not_mem_nil
  · next hne =>
    rw [List.mem_singleton.mp hp]
    exact hkeeps.resolve_left hne

theorem Encoded.changePassword (hE : E.Sound) (h : s.Encoded E) (salt : Nat)
    (id password : String) :
    (s.call E c demo (.changePassword salt id password)).Encoded E := by
  refine h.write fun db hchange => ?_
  rw [UserApi.changePasswordEndpoint] at hchange
  split at hchange
  · cases hchange
  obtain ⟨passwd, hencode, hchange⟩ := bind_eq_ok.mp hchange
  exact h.write_set (changePassword_passwordsSet (hE.ne_empty _ _ _ hencode) hchange)
    (Encoder.Sound.encodes hE hencode)

theorem Encoded.changeOwnPassword (hE : E.Sound) (h : s.Encoded E) (salt : Nat) (account : User)
    (oldPassword newPassword : String) :
    (s.call E c demo (.changeOwnPassword salt account oldPassword newPassword)).Encoded E := by
  refine h.write fun db hchange => ?_
  rw [AccountApi.changePasswordEndpoint] at hchange
  split at hchange
  · cases hchange
  split at hchange
  · cases hchange
  split at hchange
  · cases hchange
  obtain ⟨passwd, hencode, hupdate⟩ := bind_eq_ok.mp hchange
  have hset : PasswordsSet [account.id] passwd s.db.toDatabase db :=
    update_passwordsSet (o := { password := passwd, id := account.id }) hupdate
      (hE.ne_empty _ _ _ hencode)
  exact h.write_set hset (Encoder.Sound.encodes hE hencode)

theorem Encoded.resetPassword (hE : E.Sound) (h : s.Encoded E) (salt : Nat) (username : String) :
    (s.call E c demo (.resetPassword salt username)).Encoded E := by
  refine h.write fun db hreset => ?_
  obtain ⟨user, hfind, hreset⟩ := bind_eq_ok.mp hreset
  obtain ⟨passwd, hencode, hupdate⟩ := bind_eq_ok.mp hreset
  rw [hfind]
  have hset : PasswordsSet [user.id] passwd s.db.toDatabase db :=
    update_passwordsSet (o := { password := passwd, id := user.id }) hupdate
      (hE.ne_empty _ _ _ hencode)
  exact h.write_set hset (Encoder.Sound.encodes hE hencode)

theorem addedUsers_of_taken {names : List String} {items : List User}
    (h : ∀ item ∈ items, item.username ∈ names) : addedUsers names items = [] := by
  induction items with
  | nil => rfl
  | cons item items ih =>
    rw [addedUsers, if_pos (h item List.mem_cons_self)]
    exact ih fun item' hitem => h item' (List.mem_cons_of_mem item hitem)

theorem Encoded.importBackup (h : s.Encoded E) {addJob : Job → Except Error Int}
    {uuid : BackupService.Draws} {backup : Backup}
    (hkeeps : s.KeepsEncoded c (.importBackup addJob uuid backup)) :
    (s.call E c demo (.importBackup addJob uuid backup)).Encoded E := by
  show (s.writeImport uuid backup
    (BackupService.importBackup c addJob uuid s.db backup)).Encoded E
  cases himport : BackupService.importBackup c addJob uuid s.db backup with
  | error e => exact h
  | ok db =>
    have htaken := hkeeps db himport
    have hnames : ∀ item ∈ backup.users, item.username ∈ s.db.users.rows.map User.username := by
      intro item hitem
      obtain ⟨v, hv, hname⟩ := List.any_eq_true.mp (htaken item hitem)
      exact List.mem_map.mpr ⟨v, hv, beq_iff_eq.mp hname⟩
    have husers := BackupService.importBackup_users himport htaken
    intro u hu
    show E.Encodes u.password (setPasswords s.passwords (List.map _ (addedUsers _ _)) u.id)
    rw [addedUsers_of_taken hnames, List.map_nil,
      setPasswords_of_not_mem fun p hp => absurd hp List.not_mem_nil]
    exact h u (husers ▸ hu)

theorem Encoded.step (hE : E.Sound) (h : s.Encoded E) (a : PasswordCall)
    (hkeeps : s.KeepsEncoded c a) : (s.call E c demo a).Encoded E := by
  cases a with
  | initUser salt uuid => exact h.initUser hE salt uuid
  | createUser salt uuid item storageCreated => exact h.createUser hE salt uuid item storageCreated
  | updateUser uuid id item => exact h.updateUser hkeeps
  | changePassword salt id password => exact h.changePassword hE salt id password
  | changeOwnPassword salt account old new => exact h.changeOwnPassword hE salt account old new
  | resetPassword salt username => exact h.resetPassword hE salt username
  | importBackup addJob uuid backup => exact h.importBackup hkeeps

/-- A hash that shows its password. -/
def shown : Encoder where
  encode _ password :=
    if 72 < password.utf8ByteSize then .error (.text "bcrypt: password length exceeds 72 bytes")
    else .ok ("$2a$10$" ++ password)
  isMatch hash password := decide (hash = "$2a$10$" ++ password)

theorem shown_encode {salt : Nat} {password hash : String}
    (h : shown.encode salt password = .ok hash) : hash = "$2a$10$" ++ password := by
  change (if 72 < password.utf8ByteSize then _ else _) = _ at h
  split at h
  · cases h
  · exact (Except.ok.inj h).symm

theorem shown_sound : shown.Sound where
  ne_empty salt password hash h := by
    rw [shown_encode h]
    intro heq
    have hnil := congrArg String.toList heq
    simp at hnil
  isMatch_iff salt password hash h q := by
    rw [shown_encode h]
    show decide ("$2a$10$" ++ password = "$2a$10$" ++ q) = true ↔ q = password
    rw [decide_eq_true_iff, String.append_right_inj]
    exact eq_comm

/-- The first start, a new user, and the administrator changes the password. -/
def firstCalls : List PasswordCall :=
  [.initUser 0 fun _ => "a1",
    .createUser 1 (fun i => if i = 0 then "a2" else "a3") { username := "li", password := "spring" }
      (.ok ()),
    .changeOwnPassword 2 (UserService.initialUser "$2a$10$admin") "admin" "autumn",
    .changePassword 3 "a2" "summer",
    .resetPassword 4 "admin"]

/-- The administrator gets a password by an update, and it is stored as it is. -/
def plainCalls : List PasswordCall :=
  [.initUser 0 fun _ => "a1",
    .updateUser (fun _ => "a2") superAdminId
      { id := superAdminId, username := "admin", password := "winter" }]

end PasswordStore

end NextDBM
