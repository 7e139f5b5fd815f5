import NextDBM.Access.Authorised
import NextDBM.Library.Tables
import NextDBM.Library.Text
import NextDBM.Model.Rows

/-!
# Logins of the MariaDB proxy

`initAuth` registers a login name `username#assetname` for every granted pair of a user and an asset;
`resolveLogin` takes a presented name apart again. The concatenation operator of the query is the one
of SQLite, the default database of the server.
-/

namespace NextDBM

/-- `dto.UsersAssetsProxyAuth`: a login name and the encrypted password of its user. -/
structure UsersAssetsProxyAuth where
  username : String
  proxyAuth : String
  deriving DecidableEq, Repr

/-- The selected columns: `COALESCE(u.username, '') || '#' || a.name` and `u.proxy_auth`, which is
`NULL` when the left join finds no user. -/
def selectProxyAuth (a : Asset) (u : Option User) : String × Option String :=
  ((u.map User.username).getD "" ++ "#" ++ a.name, u.map User.proxyAuth)

namespace AuthorisedRepository

/-- The first sub-query: rows that name a user. -/
def usersProxyAuth (db : Database) (protocol : String) : List (String × Option String) :=
  let assets := Relational.innerJoin db.authorised.rows db.assets.rows fun r a => r.assetId == a.id
  let users := Relational.leftJoin assets db.users.rows fun (r, _) u1 =>
    r.userId == u1.id && u1.status == nd.statusEnabled
  (users.filter fun ((r, a), _) => r.userId != "" && a.protocol == protocol).map
    fun ((_, a), u1) => selectProxyAuth a u1

/-- The second sub-query: rows that name a user group. A member that the first left join did not
find matches no user. -/
def userGroupsProxyAuth (db : Database) (protocol : String) : List (String × Option String) :=
  let assets := Relational.innerJoin db.authorised.rows db.assets.rows fun r a => r.assetId == a.id
  let members := Relational.leftJoin assets db.userGroupMembers.rows fun (r, _) ugm =>
    r.userGroupId == ugm.userGroupId
  let users := Relational.leftJoin members db.users.rows fun (_, ugm) u2 =>
    match ugm with
    | some ugm => ugm.userId == u2.id && u2.status == nd.statusEnabled
    | none => false
  (users.filter fun (((r, a), _), _) => r.userGroupId != "" && a.protocol == protocol).map
    fun (((_, a), _), u2) => selectProxyAuth a u2

/-- `SELECT DISTINCT * FROM (sub1 UNION ALL sub2) WHERE proxy_auth is not NULL`. -/
def findAllUsersAssetsProxyAuth (db : Database) (protocol : String) : List UsersAssetsProxyAuth :=
  let auth := usersProxyAuth db protocol ++ userGroupsProxyAuth db protocol
  (auth.filterMap fun (username, proxyAuth) =>
    proxyAuth.map fun proxyAuth => { username, proxyAuth }).dedup

end AuthorisedRepository

/-! ## The credential provider -/

/-- `InMemoryProvider.userPool`: login name to password. -/
abbrev UserPool : Type := String → Option String

namespace InMemoryProvider

def removeAllUser : UserPool := fun _ => none

def addUser (pool : UserPool) (username password : String) : UserPool :=
  Function.update pool username (some password)

end InMemoryProvider

namespace MariaDBProxy

/-- The body of the loop of `InitAuth`. A user without a proxy password is skipped; one whose
password cannot be decrypted ends the process (`log.Fatal`). -/
def addRow (decrypt : String → Except Error String) (pool : UserPool)
    (auth : UsersAssetsProxyAuth) : Option UserPool :=
  if auth.proxyAuth = "" then some pool
  else match decrypt auth.proxyAuth with
    | .ok password => some (InMemoryProvider.addUser pool auth.username password)
    | .error _ => none

/-- `InitAuth`; `decrypt` is `utils.Passwder.Decrypt`. -/
def initAuth (decrypt : String → Except Error String) (db : Database) : Option UserPool :=
  (AuthorisedRepository.findAllUsersAssetsProxyAuth db nd.mariaDB).foldlM (addRow decrypt)
    InMemoryProvider.removeAllUser

/-- The user and the asset that `handleConnection` finds for a login name. Without a second part the
access `parts[1]` panics, and the deferred `recover` ends the connection; errors of the two lookups
are ignored. -/
def resolveLogin (db : Database) (login : String) : Option (User × Asset) :=
  match Text.split login '#' with
  | username :: name :: _ =>
    some (okOrZero (UserRepository.findByUsername db username),
      okOrZero (AssetRepository.findAssetByName db name ""))
  | _ => none

end MariaDBProxy

/-! ## What the logins are about -/

/-- The login name of a user for an asset. -/
def loginName (u : User) (a : Asset) : String := u.username ++ "#" ++ a.name

/-- A pair for which the query builds a row: an enabled user, an asset of the protocol, and a grant
that names the user or a group of the user. -/
structure CredentialPair (db : Database) (protocol : String) (u : User) (a : Asset) : Prop where
  user : u ∈ db.users
  enabled : u.status = nd.statusEnabled
  asset : a ∈ db.assets
  protocol_eq : a.protocol = protocol
  grant : ∃ r ∈ db.authorised, r.assetId = a.id ∧
    ((r.userId ≠ "" ∧ r.userId = u.id) ∨
      (r.userGroupId ≠ "" ∧ MemberOf db u.id r.userGroupId))

/-- A pair whose login name `initAuth` registers. -/
structure Registered (db : Database) (u : User) (a : Asset) : Prop where
  pair : CredentialPair db nd.mariaDB u a
  hasPassword : u.proxyAuth ≠ ""

/-- Login names identify the authorised asset: a registered name is resolved to the pair it was built
from, and every name that can log in is resolved to a user and an asset with a grant between them. -/
structure LoginsIdentify (db : Database) (pool : UserPool) : Prop where
  resolved : ∀ u a, Registered db u a →
    (pool (loginName u a)).isSome ∧ MariaDBProxy.resolveLogin db (loginName u a) = some (u, a)
  authorised : ∀ login, (pool login).isSome →
    ∃ u a, MariaDBProxy.resolveLogin db login = some (u, a) ∧ Visible db u.id a.id

/-- Names of registered pairs can be taken apart: they are free of the separator, and the user and
the asset are the first rows of their names. -/
def NamesIdentify (db : Database) : Prop :=
  ∀ u a, Registered db u a →
    '#' ∉ u.username.toList ∧ '#' ∉ a.name.toList ∧
    (∀ u' ∈ db.users, u'.username = u.username → u.id ≤ u'.id) ∧
    (∀ a' ∈ db.assets, a'.name = a.name → a.id ≤ a'.id)

end NextDBM
