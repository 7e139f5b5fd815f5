import NextDBM.Library.Paths

/-!
# Routes

The routes of the HTTP server (`setupRoutes` in `server/app/server.go`), with the middleware that a
group or a route adds to that of the server. Handlers are not modelled: a route stands for its
handler.

The router is that of the web framework. `Router` states what the server relies on: a request is
dispatched to a registered route of its method whose pattern accepts the path, and a path that is
written as a registered route is found.
-/

namespace NextDBM

inductive Method
  | GET | POST | PUT | PATCH | DELETE
  | other (name : String)
  deriving DecidableEq, Repr

/-- The middleware that routes add: `mw.Admin`. -/
inductive Middleware
  | admin
  deriving DecidableEq, Repr

structure Route where
  method : Method
  /-- The prefixes of the groups of the route, and the path it is registered with in them. -/
  pieces : List String
  middlewares : List Middleware := []
  deriving DecidableEq, Repr

/-- The path of a route. -/
def Route.path (r : Route) : String := r.pieces.foldr (· ++ ·) ""

/-- The characters of the path, piece by piece. -/
def Route.chars (r : Route) : List Char := r.pieces.flatMap String.toList

theorem Route.toList_path (r : Route) : r.path.toList = r.chars := by
  unfold path chars
  induction r.pieces with
  | nil => rfl
  | cons p ps ih => rw [List.foldr_cons, String.toList_append, ih, List.flatMap_cons]

namespace Routes

open Middleware

def get (path : String) (middlewares : List Middleware := []) : Route :=
  ⟨.GET, [path], middlewares⟩
def post (path : String) (middlewares : List Middleware := []) : Route :=
  ⟨.POST, [path], middlewares⟩
def put (path : String) (middlewares : List Middleware := []) : Route :=
  ⟨.PUT, [path], middlewares⟩
def patch (path : String) (middlewares : List Middleware := []) : Route :=
  ⟨.PATCH, [path], middlewares⟩
def delete (path : String) (middlewares : List Middleware := []) : Route :=
  ⟨.DELETE, [path], middlewares⟩

/-- `Group`: the prefix and the middleware go in front of those of the routes. -/
def group (pre : String) (middlewares : List Middleware) (routes : List Route) : List Route :=
  routes.map fun r =>
    { r with pieces := pre :: r.pieces, middlewares := middlewares ++ r.middlewares }

/-- The framework puts a slash in front of a path that has none. -/
def withSlash (r : Route) : Route :=
  if r.chars.head? = some '/' then r else { r with pieces := "/" :: r.pieces }

/-- The registrations of `setupRoutes`. -/
def registrations : List Route :=
  [get "/", get "/branding", get "/version", get "/favicon.ico", get "/static/*", post "/login",
    get "/trans/:lng", get "/i18n"] ++
  group "/account" [] [
      get "/info", get "/storage", post "/logout", post "/change-password",
      post "/change-proxy-auth", get "/reload-totp", post "/reset-totp", post "/confirm-totp",
      get "/access-token", post "/access-token", delete "/access-token"] ++
  group "/worker" [] (
      group "/ai" [] [
          put "/ask"] ++
      group "/commands" [] [
          get "", get "/paging", post "", post "/import", put "/:id", delete "/:id", get "/:id"] ++
      group "/sqls" [] [
          get "", get "/paging", post "", put "/:id", delete "/:id", get "/:id",
          post "/:id/change-owner" [admin], post "/createOrUpdate", get "/getId"] ++
      group "/assets" [] [
          get "/tree", get "/paging", get "/tags", get "/:id/gateway", get "/types"] ++
      group "/translations" [] [
          get "/langs"]) ++
  group "/users" [admin] [
      get "", get "/paging", post "", put "/:id", patch "/:id/status", delete "/:id", get "/:id",
      post "/:id/change-password", post "/:id/change-proxy-auth", post "/:id/reset-totp"] ++
  group "/user-groups" [admin] [
      post "", get "", get "/paging", put "/:id", delete "/:id", get "/:id", patch "/:id/status"] ++
  group "/dbm-assets" [admin] [
      get "", post "", post "/import", get "/paging", post "/:id/tcping", put "/:id", get "/:id",
      delete "/:id", post "/:id/change-owner", get "/tree"] ++
  group "/sqls" [admin] [
      get "", get "/paging", post "", put "/:id", delete "/:id", get "/:id",
      post "/:id/change-owner" [admin], post "/createOrUpdate", get "/getId"] ++
  group "/assets" [admin] [
      get "", post "", post "/import", get "/paging", post "/:id/tcping", put "/:id", get "/:id",
      delete "/:id", post "/:id/change-owner", get "/tree", get "/:id/gateway",
      get "/:id/:userid/gatewaybyuserid", get "/:id/databases", get "/:id/:database/tables",
      get "/types"] ++
  [get "/tags"] ++
  group "/commands" [admin] [
      get "", get "/paging", post "", post "/import", put "/:id", delete "/:id", get "/:id",
      post "/:id/change-owner" [admin]] ++
  group "/credentials" [admin] [
      get "", get "/paging", post "", put "/:id", delete "/:id", get "/:id",
      post "/:id/change-owner"] ++
  group "/sessions" [] [
      get "/paging" [admin], post "/:id/disconnect" [admin], delete "/:id" [admin],
      get "/:id/recording" [admin], get "/:id" [admin], post "/:id/reviewed" [admin],
      post "/:id/unreviewed" [admin], post "/clear" [admin], post "/reviewed" [admin], post "",
      post "/:id/connect", get "/:id/tunnel", get "/:id/tunnel-monitor", get "/:id/ssh",
      get "/:id/ssh-monitor", post "/:id/resize", get "/:id/stats", post "/:id/ls",
      get "/:id/download", post "/:id/upload", post "/:id/edit", post "/:id/mkdir",
      post "/:id/rm", post "/:id/rename"] ++
  group "login-logs" [admin] [
      get "/paging", delete "/:id", post "/clear"] ++
  group "sql-logs" [admin] [
      post "", get "/paging", delete "/:id", post "/clear"] ++
  group "oper-logs" [admin] [
      get "/paging", delete "/:id", post "/clear"] ++
  group "storage-logs" [admin] [
      get "/paging", delete "/:id", post "/clear"] ++
  group "properties" [admin] [
      get "", put "", post "/ldap-user-sync", get "/app/restart", get "/app/status",
      get "/app/stop", get "/app/checkVersion", get "/app/upgrade", get "/app/upgradeFinish",
      get "/mariaDBServer/start/:port", get "/mariaDBServer/stop", get "/mariaDBServer/status"] ++
  group "translations" [admin] [
      get "/langs", get "/export", post "/import"] ++
  group "overview" [admin] [
      get "/counter", get "/asset", get "/date-counter", get "/ps"] ++
  group "/jobs" [admin] [
      post "", get "/paging", put "/:id", post "/:id/change-status", post "/:id/exec",
      delete "/:id", get "/:id", get "/:id/logs/paging", delete "/:id/logs"] ++
  group "/securities" [admin] [
      post "", get "/paging", put "/:id", delete "/:id", get "/:id"] ++
  group "/storages" [] [
      get "/paging" [admin], post "" [admin], delete "/:id" [admin], put "/:id" [admin],
      get "/shares" [admin], get "/:id" [admin], post "/:storageId/ls",
      get "/:storageId/download", post "/:storageId/upload", post "/:storageId/mkdir",
      post "/:storageId/rm", post "/:storageId/rename", post "/:storageId/edit"] ++
  group "/strategies" [admin] [
      get "", get "/paging", post "", delete "/:id", put "/:id", get "/:id"] ++
  group "/access-gateways" [admin] [
      get "", post "", get "/paging", put "/:id", delete "/:id", get "/:id"] ++
  group "/backup" [admin] [
      get "/export", post "/import"] ++
  group "/tenants" [admin] [
      get "", get "/paging", post "", delete "/:id", put "/:id"] ++
  group "/roles" [admin] [
      get "", get "/paging", get "/:id", post "", delete "/:id", put "/:id"] ++
  group "/login-policies" [admin] [
      get "/paging", get "/:id", get "/:id/users/paging", get "/:id/users/id", post "",
      delete "/:id", put "/:id", post "/:id/bind", post "/:id/unbind"] ++
  group "/authorised" [admin] [
      get "/assets/paging", get "/users/paging", get "/user-groups/paging", get "/selected",
      post "/assets", post "/users", post "/user-groups", delete "/:id",
      patch "/:id/webhookPushstatus"] ++
  [get "/menus" [admin]]

def setupRoutes : List Route := registrations.map withSlash

/-- The routes that are meant to be open to everyone. -/
def publicPaths : List String :=
  ["/", "/branding", "/favicon.ico", "/static/*", "/login", "/trans/:lng"]

end Routes

namespace Route

open Paths

/-- Whether the path of the route is one of a list. -/
def isAt (r : Route) (paths : List String) : Bool := paths.any fun p => p.toList == r.chars

def startsWith (r : Route) (pre : String) : Bool := pre.toList.isPrefixOf r.chars

theorem isAt_iff {r : Route} {paths : List String} : r.isAt paths ↔ r.path ∈ paths := by
  unfold isAt
  rw [List.any_eq_true]
  constructor
  · rintro ⟨p, hp, heq⟩
    have hpath : p = r.path := String.toList_inj.mp ((eq_of_beq heq).trans r.toList_path.symm)
    exact hpath ▸ hp
  · intro h
    exact ⟨r.path, h, beq_iff_eq.mpr r.toList_path⟩

theorem startsWith_iff {r : Route} {pre : String} :
    r.startsWith pre ↔ Text.hasPrefix r.path pre := by
  rw [startsWith, Text.hasPrefix, r.toList_path]

def segments (r : Route) : List Segment := Paths.segments r.chars

/-- Whether a registered route goes on after the path of this one. -/
def isExtended (r : Route) : Bool :=
  Routes.setupRoutes.any fun r' =>
    r.segments.isPrefixOf r'.segments && r.segments.length < r'.segments.length

/-- The last segment takes the rest of a path when it is a star, or a parameter after which no
registered route goes on. -/
def takesRest (r : Route) : Bool := r.chars.getLast? == some '*' || !r.isExtended

/-- Whether the router may dispatch a path to the route. -/
def accepts (r : Route) (path : String) : Bool :=
  fits r.takesRest r.segments (path.toList.splitOn '/')

/-- Whether the route accepts a path that starts with a text. -/
def mayStartWith (r : Route) (pre : String) : Bool :=
  mayStart r.takesRest r.segments (pre.toList.splitOn '/')

/-- Whether the route accepts a path of the pattern. -/
def meetsPattern (r : Route) (pattern : String) : Bool :=
  meets r.takesRest r.segments (Paths.segments pattern.toList)

theorem mayStartWith_of_accepts {r : Route} {path pre : String} (h : r.accepts path)
    (hpre : pre.toList <+: path.toList) : r.mayStartWith pre :=
  mayStart_of_prefix h hpre

theorem meetsPattern_of_accepts {r : Route} {path pattern : String} (h : r.accepts path)
    (hp : fits false (Paths.segments pattern.toList) (path.toList.splitOn '/')) :
    r.meetsPattern pattern :=
  meets_of_fits h hp

end Route

/-- The router: it finds the route of a method and a path. -/
structure Router where
  find : Method → String → Option Route
  /-- What is found is registered for the method, and its pattern accepts the path. -/
  find_sound : ∀ {m path r}, find m path = some r →
    r ∈ Routes.setupRoutes ∧ r.method = m ∧ r.accepts path
  /-- A path written as a registered route is dispatched to a route with that path, even when the
  parameter of another route could take its last segment. -/
  find_self : ∀ {r}, r ∈ Routes.setupRoutes →
    ∃ r', find r.method r.path = some r' ∧ r'.path = r.path

/-- The patterns that the middleware matches paths with. -/
structure Matcher where
  isMatch : String → String → Bool
  /-- A pattern that ends in no star matches a path segment by segment. -/
  isMatch_sound : ∀ {pattern path}, isMatch pattern path →
    pattern.toList.getLast? ≠ some '*' →
    Paths.fits false (Paths.segments pattern.toList) (path.toList.splitOn '/')

end NextDBM
