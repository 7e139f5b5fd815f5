import NextDBM.Gate.Security
import NextDBM.Web.Menus
import NextDBM.Web.Routes

/-!
# Middleware

What a request meets before its handler (`server/app/middleware`): the router finds a route, then
`TcpWall` and `Auth` run, then the middleware of the route. The other middleware of the server
(recovery, CORS, compression) calls the next handler for every request of a registered method.

`Auth` reads the request URI as it was sent, `Match` of the permissions reads the unescaped path,
and the router reads the path that `Url.routePath` gives.
-/

namespace NextDBM

/-- A request, with what the HTTP server and the framework read from it. -/
structure HttpRequest where
  method : Method
  requestURI : String
  /-- `URL.Path` -/
  path : String
  /-- `URL.RawPath` -/
  rawPath : String
  /-- The header `X-Auth-Token`. -/
  tokenHeader : String := ""
  /-- The query parameter `X-Auth-Token`. -/
  tokenQuery : String := ""
  /-- The header `X-Requested-With`. -/
  requestedWith : String := ""
  realIP : String := ""
  /-- A URI that starts with a slash is a path with a query after it; the other forms name a host,
  and nothing is said of them. -/
  parsed : Text.hasPrefix requestURI "/" →
    Url.setPath (Url.beforeQuery requestURI) = some (path, rawPath)

namespace HttpRequest

/-- `GetToken` -/
def token (req : HttpRequest) : String :=
  if req.tokenHeader ≠ "" then req.tokenHeader else req.tokenQuery

def routePath (req : HttpRequest) : String := Url.routePath req.path req.rawPath

end HttpRequest

/-- What the middleware reads: the caches of the server and the database. -/
structure Server where
  db : Database := {}
  /-- The users of the live tokens (`cache.TokenManager`). -/
  tokens : String → Option User := fun _ => none
  /-- `cache.UserRolesManager` -/
  userRoles : String → Option (List String) := fun _ => none
  /-- `RoleService.roleMenus` -/
  roleMenus : String → Option (List String) := fun _ => none
  securities : List Security := []

/-- The answer of a middleware that does not call the next handler. -/
inductive Rejection
  | fail (code : Int) (message : String)
  | html (status : Nat) (body : String)
  deriving DecidableEq, Repr

/-- What becomes of a request. -/
inductive Outcome
  | notFound
  | rejected (answer : Rejection)
  | handled (route : Route)
  deriving DecidableEq, Repr

def superAdminID : String := "abcdefghijklmnopqrstuvwxyz"

def isSuperAdmin (userId : String) : Bool := superAdminID == userId

def anonymousUrls : List String :=
  ["/login", "/static", "/favicon.ico", "/logo.svg", "/branding", "/building", "/trans/"]

def allowUrls : List String :=
  ["/account/info", "/share-sessions/:id", "/sessions", "/sessions/:id/tunnel",
    "/sessions/:id/connect", "/sessions/:id/resize", "/sessions/:id/stats", "/sessions/:id/ls",
    "/sessions/:id/download", "/sessions/:id/upload", "/sessions/:id/edit", "/sessions/:id/mkdir",
    "/sessions/:id/rm", "/sessions/:id/rename", "/sessions/:id/ssh"]

def loginExpired : Rejection := .fail 401 "您的登录信息已失效，请重新登录后再试。"

namespace Server

/-- `GetRolesByUserId` -/
def getRolesByUserId (server : Server) (userId : String) : List String :=
  (server.db.userRoleRefs.rows.filter fun r => r.userId == userId).map UserRoleRef.roleId

/-- `GetMenuListByRole` -/
def getMenuListByRole (server : Server) (role : String) : List String :=
  (server.roleMenus role).getD []

/-- The roles of an account: the cached ones, or those of the database when the cache has none. -/
def rolesOf (server : Server) (userId : String) : List String :=
  match server.userRoles userId with
  | some (role :: roles) => role :: roles
  | _ => server.getRolesByUserId userId

/-- The cache of roles after `Auth` has read it. -/
def cacheRoles (server : Server) (userId : String) : Server :=
  { server with
    userRoles := fun id => if id = userId then some (server.rolesOf userId) else
      server.userRoles id }

end Server

section Middleware

variable (matcher : Matcher) (server : Server) (req : HttpRequest)

/-- Whether a role of the account has a menu item that permits the path of the request. -/
def permits (account : User) : Bool :=
  (server.rolesOf account.id).any fun role =>
    (server.getMenuListByRole role).any fun menu =>
      (getPermissionByMenu menu).any fun perm => matcher.isMatch perm req.path

/-- Whether `Auth` asks for no token: the page itself, and the prefixes of `anonymousUrls`. -/
def isAnonymous : Bool :=
  req.requestURI == "/" || Text.hasPrefix req.requestURI "/#" ||
    anonymousUrls.any (Text.hasPrefix req.requestURI)

/-- Whether `Auth` asks for a token only: the account, the worker, and `allowUrls`. -/
def isAllowed : Bool :=
  Text.hasPrefix req.requestURI "/account" || Text.hasPrefix req.requestURI "/worker" ||
    allowUrls.any fun url => matcher.isMatch url (Url.beforeQuery req.requestURI)

/-- `Auth`, with the server after it; no answer means that the next handler is called. Renewing the
token leaves the live tokens as they are. -/
def auth : Option Rejection × Server :=
  if isAnonymous req then (none, server)
  else if req.token = "" then (some loginExpired, server)
  else match server.tokens req.token with
    | none => (some loginExpired, server)
    | some account =>
      if isAllowed matcher req then (none, server)
      else if isSuperAdmin account.id then (none, server)
      else if permits matcher server req account then (none, server.cacheRoles account.id)
      else (some (.fail 403 "permission denied"), server.cacheRoles account.id)

/-- `Admin` -/
def admin : Option Rejection :=
  match server.tokens req.token with
  | none => some loginExpired
  | some account =>
    if account.type ≠ nd.typeAdmin then some (.fail 403 "permission denied.") else none

/-- `TcpWall` for the request. -/
def wall : Option Rejection :=
  match tcpWall server.securities req.realIP (req.requestedWith ≠ "" || req.tokenHeader ≠ "") with
  | .next => none
  | .fail code message => some (.fail code message)
  | .html status body => some (.html status body)

namespace Middleware

def run : Middleware → Option Rejection
  | .admin => NextDBM.admin server req

end Middleware

variable (router : Router)

/-- The whole way of a request. The middleware runs before the framework answers that there is no
route. -/
def serve : Outcome × Server :=
  match wall server req with
  | some answer => (.rejected answer, server)
  | none =>
    match auth matcher server req with
    | (some answer, server) => (.rejected answer, server)
    | (none, server) =>
      match router.find req.method req.routePath with
      | none => (.notFound, server)
      | some route =>
        match route.middlewares.findSome? (Middleware.run server req) with
        | some answer => (.rejected answer, server)
        | none => (.handled route, server)

end Middleware

/-! ## What the routes promise -/

/-- The public routes, and those that every signed-in account may use: the account, the worker and
`allowUrls`. -/
def Route.isExempt (r : Route) : Bool :=
  r.isAt Routes.publicPaths || r.startsWith "/account/" || r.startsWith "/worker/" ||
    r.isAt allowUrls

/-- A role of the account has a menu item one of whose permissions matches the path of the
request. -/
def Permitted (matcher : Matcher) (server : Server) (req : HttpRequest) (account : User) : Prop :=
  ∃ role ∈ server.rolesOf account.id, ∃ menu ∈ server.getMenuListByRole role,
    ∃ perm ∈ getPermissionByMenu menu, matcher.isMatch perm req.path

/-- The handler of the route runs for an account that is not the super administrator only if a role
of the account permits the path. -/
def RoleBased (matcher : Matcher) (router : Router) (r : Route) : Prop :=
  ∀ (server : Server) (req : HttpRequest) (account : User),
    server.tokens req.token = some account → ¬ isSuperAdmin account.id →
    (serve matcher server req router).1 = .handled r → Permitted matcher server req account

/-! ## The table against the prefixes -/

/-- The prefixes that `Auth` asks no token for. -/
def anonymousPrefixes : List String := "/#" :: anonymousUrls

/-- An exempt prefix begins the path of the route. -/
def Route.IsCovered (r : Route) : Prop := ∃ pre ∈ anonymousUrls, r.startsWith pre

instance (r : Route) : Decidable r.IsCovered := inferInstanceAs (Decidable (∃ _ ∈ _, _))

/-- What each route is checked for. -/
structure Route.Checked (r : Route) : Prop where
  /-- A route that is not public is not the page itself, and an exempt prefix only begins paths of
  it that have the prefix written out and `Admin` in front of the handler. -/
  anonymous : r.isAt Routes.publicPaths ∨ ¬ r.accepts "/" ∧
    ∀ pre ∈ anonymousPrefixes, r.mayStartWith pre → .admin ∈ r.middlewares ∧ r.IsCovered
  account : r.mayStartWith "/account" → r.startsWith "/account/"
  worker : r.mayStartWith "/worker" → r.startsWith "/worker/"
  allowed : ∀ url ∈ allowUrls, r.meetsPattern url → r.isAt allowUrls
  /-- The path of the route, read as a text, is one that the route accepts. -/
  self : Paths.fits r.takesRest r.segments (r.chars.splitOn '/')
  /-- A covered route can be asked for by its own path. -/
  covered : r.isAt Routes.publicPaths ∨ ¬ r.IsCovered ∨ r.chars.all Url.unescaped ∧
    ∀ r' ∈ Routes.setupRoutes, r'.method = r.method → r'.chars = r.chars → r' = r

instance (r : Route) : Decidable r.Checked :=
  decidable_of_iff (_ ∧ _ ∧ _ ∧ _ ∧ _ ∧ _)
    ⟨fun ⟨h₁, h₂, h₃, h₄, h₅, h₆⟩ => ⟨h₁, h₂, h₃, h₄, h₅, h₆⟩,
      fun ⟨h₁, h₂, h₃, h₄, h₅, h₆⟩ => ⟨h₁, h₂, h₃, h₄, h₅, h₆⟩⟩

end NextDBM
