import NextDBM.Web.Auth

/-!
# Handlers and the accounts that reach them

A route outside the public ones is reached with a live token only: where a prefix of `anonymousUrls`
exempts a request, the route has `Admin` in front of its handler (`handled_authenticated`). The
permissions of the roles are checked on all routes but those whose own path starts with such a
prefix (`roleBased_iff`), which happens to the login logs and the login policies.

The table of routes is checked once, by computation (`setupRoutes_checked`); the rest of the
argument is about prefixes of a request URI and of the path that the router reads.
-/

namespace NextDBM

theorem forall_mem_of_parts {α : Type} {P : α → Prop} (n : Nat) {l : List α}
    (htake : ∀ a ∈ l.take n, P a) (hdrop : ∀ a ∈ l.drop n, P a) : ∀ a ∈ l, P a := by
  intro a ha
  rw [← List.take_append_drop n l] at ha
  exact (List.mem_append.mp ha).elim (htake a) (hdrop a)

/-- Every registered route passes the checks; the table is read in parts. -/
theorem setupRoutes_checked : ∀ r ∈ Routes.setupRoutes, r.Checked := by
  refine forall_mem_of_parts 30 ?_ (forall_mem_of_parts 30 ?_ (forall_mem_of_parts 30 ?_
    (forall_mem_of_parts 30 ?_ (forall_mem_of_parts 30 ?_ (forall_mem_of_parts 30 ?_
      (forall_mem_of_parts 30 ?_ ?_))))))
  · decide +kernel
  · decide +kernel
  · decide +kernel
  · decide +kernel
  · decide +kernel
  · decide +kernel
  · decide +kernel
  · decide +kernel

/-- The prefixes of the middleware have a slash in front, and neither a query nor an escape. -/
theorem plain_of_mem : ∀ pre ∈ "/account" :: "/worker" :: anonymousPrefixes,
    Url.Plain pre.toList := by
  decide

/-- The patterns of `allowUrls` are plain, start with a slash and end in no star. -/
theorem allowUrls_plain : ∀ url ∈ allowUrls, url.toList.getLast? ≠ some '*' ∧
    (Paths.segments url.toList).head? = some (.static []) ∧
    1 < (Paths.segments url.toList).length ∧
    ∀ p ∈ Paths.segments url.toList, p.isPlain := by
  decide

/-! ## What the router reads of a URI -/

section Requests

variable {req : HttpRequest} {pre url : String} {r : Route} {matcher : Matcher}

/-- A URI that starts with a slash has been read as a path. -/
theorem HttpRequest.setPath_eq (h : ['/'] <+: req.requestURI.toList) :
    Url.setPath (Url.beforeQuery req.requestURI) = some (req.path, req.rawPath) :=
  req.parsed (Text.hasPrefix_iff.mpr h)

/-- The page itself is read as the path `/`. -/
theorem HttpRequest.routePath_of_root (h : req.requestURI = "/") : req.routePath = "/" := by
  have hset := req.setPath_eq (h ▸ List.prefix_refl ['/'])
  rw [h] at hset
  have hroot : Url.setPath (Url.beforeQuery "/") = some ("/", "") := by decide
  obtain ⟨hpath, hraw⟩ := Prod.mk.inj (Option.some.inj (hset.symm.trans hroot))
  unfold routePath Url.routePath
  rw [hpath, hraw, if_pos rfl]

/-- A route that the router may take starts with every plain prefix of the URI. -/
theorem Route.mayStartWith_of_hasPrefix (hr : r.accepts req.routePath)
    (hplain : Url.Plain pre.toList) (h : Text.hasPrefix req.requestURI pre) :
    r.mayStartWith pre := by
  have huri : pre.toList <+: req.requestURI.toList := Text.hasPrefix_iff.mp h
  have hset := req.setPath_eq (hplain.slash.trans huri)
  exact r.mayStartWith_of_accepts hr (Url.prefix_routePath hset hplain huri)

/-- A URI that matches a pattern of `allowUrls` is routed along that pattern. -/
theorem fits_of_isMatch (hurl : url ∈ allowUrls)
    (h : matcher.isMatch url (Url.beforeQuery req.requestURI)) :
    Paths.fits false (Paths.segments url.toList) (req.routePath.toList.splitOn '/') := by
  obtain ⟨hstar, hhead, hlen, hplain⟩ := allowUrls_plain url hurl
  have hfits := matcher.isMatch_sound h hstar
  have hslash := Paths.slash_prefix_of_fits hfits hhead hlen
  have hset := req.setPath_eq (hslash.trans (Url.beforeQuery_prefix req.requestURI))
  exact Paths.fits_routePath hset (Url.ne_empty_of_slash hslash) hplain hfits

theorem prefix_of_isAnonymous (h : isAnonymous req) :
    req.requestURI = "/" ∨ ∃ pre ∈ anonymousPrefixes, Text.hasPrefix req.requestURI pre := by
  unfold isAnonymous at h
  rw [Bool.or_eq_true, Bool.or_eq_true, List.any_eq_true, beq_iff_eq] at h
  rcases h with (hroot | hfragment) | ⟨pre, hpre, h⟩
  · exact .inl hroot
  · exact .inr ⟨"/#", List.mem_cons_self, hfragment⟩
  · exact .inr ⟨pre, List.mem_cons_of_mem _ hpre, h⟩

/-- A request that needs no token is routed to a public route, or to one behind `Admin` whose path
an exempt prefix begins. -/
theorem guarded_of_isAnonymous (hmem : r ∈ Routes.setupRoutes) (hpub : r.path ∉ Routes.publicPaths)
    (hr : r.accepts req.routePath) (h : isAnonymous req) :
    .admin ∈ r.middlewares ∧ r.IsCovered := by
  rcases (setupRoutes_checked r hmem).anonymous with hat | ⟨hroot, hprefix⟩
  · exact absurd (Route.isAt_iff.mp hat) hpub
  · rcases prefix_of_isAnonymous h with huri | ⟨pre, hpre, huri⟩
    · rw [HttpRequest.routePath_of_root huri] at hr
      exact absurd hr hroot
    · have hplain : Url.Plain pre.toList :=
        plain_of_mem pre (List.mem_cons_of_mem _ (List.mem_cons_of_mem _ hpre))
      exact hprefix pre hpre (Route.mayStartWith_of_hasPrefix hr hplain huri)

/-- A request that needs a token only is routed to an exempt route. -/
theorem isExempt_of_isAllowed (hmem : r ∈ Routes.setupRoutes) (hr : r.accepts req.routePath)
    (h : isAllowed matcher req) : r.isExempt := by
  have hchecked := setupRoutes_checked r hmem
  unfold isAllowed at h
  rw [Bool.or_eq_true, Bool.or_eq_true, List.any_eq_true] at h
  unfold Route.isExempt
  rw [Bool.or_eq_true, Bool.or_eq_true, Bool.or_eq_true]
  rcases h with (haccount | hworker) | ⟨url, hurl, h⟩
  · have hplain := plain_of_mem "/account" List.mem_cons_self
    have hstarts := Route.mayStartWith_of_hasPrefix hr hplain haccount
    exact .inl (.inl (.inr (hchecked.account hstarts)))
  · have hplain := plain_of_mem "/worker" (List.mem_cons_of_mem _ List.mem_cons_self)
    have hstarts := Route.mayStartWith_of_hasPrefix hr hplain hworker
    exact .inl (.inr (hchecked.worker hstarts))
  · have hmeets := r.meetsPattern_of_accepts hr (fits_of_isMatch hurl h)
    exact .inr (hchecked.allowed url hurl hmeets)

end Requests

/-! ## The middleware -/

section Serving

variable {matcher : Matcher} {server : Server} {req : HttpRequest} {router : Router} {r : Route}
  {account : User}

theorem permits_iff : permits matcher server req account ↔ Permitted matcher server req account := by
  unfold permits Permitted
  simp only [List.any_eq_true]

/-- `Auth` leaves the live tokens as they are. -/
theorem auth_tokens : (auth matcher server req).2.tokens = server.tokens := by
  unfold auth
  split
  · rfl
  split
  · rfl
  split
  · rfl
  split
  · rfl
  split
  · rfl
  split <;> rfl

/-- `Auth` calls the next handler for exempt prefixes, and for the accounts of live tokens on the
routes that are open to them. -/
theorem auth_eq_none (h : (auth matcher server req).1 = none) : isAnonymous req ∨
    ∃ account, server.tokens req.token = some account ∧
      (isAllowed matcher req ∨ isSuperAdmin account.id ∨ permits matcher server req account) := by
  unfold auth at h
  split at h
  · next hanonymous => exact .inl hanonymous
  right
  split at h
  · cases h
  split at h
  · cases h
  next account haccount =>
  refine ⟨account, haccount, ?_⟩
  split at h
  · next hallowed => exact .inl hallowed
  split at h
  · next hsuper => exact .inr (.inl hsuper)
  split at h
  · next hpermits => exact .inr (.inr hpermits)
  · cases h

/-- A handler runs when the wall, `Auth` and the middleware of its route let the request through. -/
theorem serve_eq_handled_iff : (serve matcher server req router).1 = .handled r ↔
    wall server req = none ∧ (auth matcher server req).1 = none ∧
    router.find req.method req.routePath = some r ∧
    ∀ m ∈ r.middlewares, m.run (auth matcher server req).2 req = none := by
  unfold serve
  cases wall server req with
  | some answer => simp
  | none =>
    cases hauth : auth matcher server req with
    | mk answer server' =>
      cases answer with
      | some answer => simp
      | none =>
        cases router.find req.method req.routePath with
        | none => simp
        | some route =>
          simp only [true_and, Option.some.injEq]
          constructor
          · intro h
            split at h
            · cases h
            · next hrun =>
              obtain rfl : route = r := by simpa using h
              exact ⟨rfl, List.findSome?_eq_none_iff.mp hrun⟩
          · rintro ⟨rfl, hrun⟩
            rw [List.findSome?_eq_none_iff.mpr hrun]

/-- Behind `Admin`, a handler runs for a live token only. -/
theorem tokens_of_admin (h : admin server req = none) : (server.tokens req.token).isSome := by
  unfold admin at h
  split at h
  · cases h
  · next account haccount => rw [haccount, Option.isSome_some]

/-- The handler of a route that is not public runs for a live token only. -/
theorem handled_authenticated (h : (serve matcher server req router).1 = .handled r)
    (hpub : r.path ∉ Routes.publicPaths) : (server.tokens req.token).isSome := by
  obtain ⟨-, hauth, hfind, hrun⟩ := serve_eq_handled_iff.mp h
  obtain ⟨hmem, -, hr⟩ := router.find_sound hfind
  rcases auth_eq_none hauth with hanonymous | ⟨account, haccount, -⟩
  · obtain ⟨hadmin, -⟩ := guarded_of_isAnonymous hmem hpub hr hanonymous
    have hlive := tokens_of_admin (hrun .admin hadmin)
    rwa [auth_tokens] at hlive
  · rw [haccount, Option.isSome_some]

/-! ## Roles -/

theorem not_public_of_not_isExempt (h : ¬ r.isExempt) : r.path ∉ Routes.publicPaths := by
  intro hpub
  refine h ?_
  unfold Route.isExempt
  rw [Route.isAt_iff.mpr hpub, Bool.true_or, Bool.true_or, Bool.true_or]

/-- A route that no exempt prefix begins is reached with a permission only. -/
theorem roleBased_of_not_isCovered (hmem : r ∈ Routes.setupRoutes) (hexempt : ¬ r.isExempt)
    (hcovered : ¬ r.IsCovered) : RoleBased matcher router r := by
  intro server req account haccount hsuper h
  obtain ⟨-, hauth, hfind, -⟩ := serve_eq_handled_iff.mp h
  obtain ⟨-, -, hr⟩ := router.find_sound hfind
  rcases auth_eq_none hauth with hanonymous | ⟨account', haccount', hopen⟩
  · have hpub := not_public_of_not_isExempt hexempt
    exact absurd (guarded_of_isAnonymous hmem hpub hr hanonymous).2 hcovered
  · obtain rfl : account' = account := Option.some.inj (haccount'.symm.trans haccount)
    rcases hopen with hallowed | hsuper' | hpermits
    · exact absurd (isExempt_of_isAllowed hmem hr hallowed) hexempt
    · exact absurd hsuper' hsuper
    · exact permits_iff.mp hpermits

/-- An account of the type that `Admin` asks for, without roles. -/
def adminWithoutRoles : User := { id := "admin-without-roles", type := nd.typeAdmin }

/-- A server with one live token. -/
def signedIn (account : User) : Server :=
  { tokens := fun token => if token = "token" then some account else none }

/-- The request for a route by its own path, with the live token. -/
def requestFor (r : Route) (h : r.chars.all Url.unescaped) : HttpRequest where
  method := r.method
  requestURI := r.path
  path := r.path
  rawPath := ""
  tokenHeader := "token"
  parsed := by
    intro _
    have hunescaped : ∀ c ∈ r.path.toList, Url.unescaped c :=
      r.toList_path ▸ List.all_eq_true.mp h
    have hquery : '?' ∉ r.path.toList := fun hc => absurd (hunescaped '?' hc) (by decide)
    rw [Url.beforeQuery_of_not_mem hquery]
    exact Url.setPath_of_unescaped hunescaped

/-- An account without roles is permitted nothing. -/
theorem not_permitted_signedIn : ¬ Permitted matcher (signedIn account) req account := by
  rintro ⟨role, hrole, -⟩
  exact absurd hrole List.not_mem_nil

/-- An exempt prefix of the path of a route lets an account without roles reach the handler. -/
theorem not_roleBased_of_isCovered (hmem : r ∈ Routes.setupRoutes) (hexempt : ¬ r.isExempt)
    (hcovered : r.IsCovered) : ¬ RoleBased matcher router r := by
  intro hbased
  have hpub := not_public_of_not_isExempt hexempt
  rcases (setupRoutes_checked r hmem).covered with hat | hnot | ⟨hunescaped, hunique⟩
  · exact hpub (Route.isAt_iff.mp hat)
  · exact hnot hcovered
  have hfind : router.find r.method r.path = some r := by
    obtain ⟨r', hfind, hpath⟩ := router.find_self hmem
    obtain ⟨hmem', hmethod, -⟩ := router.find_sound hfind
    have hchars : r'.chars = r.chars := by rw [← r'.toList_path, hpath, r.toList_path]
    rwa [hunique r' hmem' hmethod hchars] at hfind
  have hanonymous : isAnonymous (requestFor r hunescaped) := by
    obtain ⟨pre, hpre, hstarts⟩ := hcovered
    unfold isAnonymous
    rw [Bool.or_eq_true, List.any_eq_true]
    exact .inr ⟨pre, hpre, Route.startsWith_iff.mp hstarts⟩
  have hauth : auth matcher (signedIn adminWithoutRoles) (requestFor r hunescaped) =
      (none, signedIn adminWithoutRoles) := by
    unfold auth
    rw [if_pos hanonymous]
  have hhandled : (serve matcher (signedIn adminWithoutRoles) (requestFor r hunescaped) router).1 =
      .handled r := by
    refine serve_eq_handled_iff.mpr ⟨rfl, by rw [hauth], hfind, ?_⟩
    intro m _
    rw [hauth]
    cases m
    rfl
  exact not_permitted_signedIn (hbased _ _ adminWithoutRoles rfl (by decide) hhandled)

/-- Outside the exempt routes, the permissions of the roles guard exactly the routes that no prefix
of `anonymousUrls` begins. -/
theorem roleBased_iff (hmem : r ∈ Routes.setupRoutes) (hexempt : ¬ r.isExempt) :
    RoleBased matcher router r ↔ ∀ pre ∈ anonymousUrls, ¬ Text.hasPrefix r.path pre := by
  constructor
  · intro hbased pre hpre hprefix
    have hcovered : r.IsCovered := ⟨pre, hpre, Route.startsWith_iff.mpr hprefix⟩
    exact not_roleBased_of_isCovered hmem hexempt hcovered hbased
  · intro h
    refine roleBased_of_not_isCovered hmem hexempt ?_
    rintro ⟨pre, hpre, hstarts⟩
    exact h pre hpre (Route.startsWith_iff.mp hstarts)

end Serving

/-! ## A router and a matcher -/

/-- The router that looks for the path itself, and then for a pattern that accepts it. -/
def exactFirst : Router where
  find m path :=
    (Routes.setupRoutes.find? fun r => r.method == m && r.chars == path.toList).or
      (Routes.setupRoutes.find? fun r => r.method == m && r.accepts path)
  find_sound := by
    intro m path r h
    rcases Option.or_eq_some_iff.mp h with h | ⟨-, h⟩
    · have hmem := List.mem_of_find?_eq_some h
      have hfound := List.find?_some h
      rw [Bool.and_eq_true, beq_iff_eq, beq_iff_eq] at hfound
      obtain ⟨hm, hpath⟩ := hfound
      refine ⟨hmem, hm, ?_⟩
      unfold Route.accepts
      rw [← hpath]
      exact (setupRoutes_checked r hmem).self
    · have hfound := List.find?_some h
      rw [Bool.and_eq_true, beq_iff_eq] at hfound
      exact ⟨List.mem_of_find?_eq_some h, hfound.1, hfound.2⟩
  find_self := by
    intro r hmem
    have hsome : (Routes.setupRoutes.find? fun r' =>
        r'.method == r.method && r'.chars == r.path.toList).isSome := by
      rw [List.find?_isSome]
      exact ⟨r, hmem, by rw [r.toList_path, BEq.rfl, BEq.rfl, Bool.and_self]⟩
    obtain ⟨r', hfind⟩ := Option.isSome_iff_exists.mp hsome
    have hfound := List.find?_some hfind
    rw [Bool.and_eq_true, beq_iff_eq, beq_iff_eq] at hfound
    have heq : r'.path = r.path := String.toList_inj.mp (r'.toList_path.trans hfound.2)
    exact ⟨r', by rw [hfind, Option.some_or], heq⟩

/-- Patterns matched segment by segment. -/
def bySegments : Matcher where
  isMatch pattern path :=
    Paths.fits (pattern.toList.getLast? == some '*') (Paths.segments pattern.toList)
      (path.toList.splitOn '/')
  isMatch_sound := by
    intro pattern path h hstar
    rwa [beq_eq_false_iff_ne.mpr hstar] at h

/-! ## Concrete requests -/

def loginLogsPaging : Route := ⟨.GET, ["/", "login-logs", "/paging"], [.admin]⟩

def usersPaging : Route := ⟨.GET, ["/users", "/paging"], [.admin]⟩

def superAdmin : User := { id := superAdminID, type := nd.typeAdmin }

/-- The super administrator pages through the users. -/
theorem usersPaging_handled : (serve bySegments (signedIn superAdmin)
    (requestFor usersPaging (by decide)) exactFirst).1 = .handled usersPaging :=
  serve_eq_handled_iff.mpr
    ⟨by decide, by decide, by decide, by decide⟩

theorem handled_authenticated_usersPaging : ((signedIn superAdmin).tokens "token").isSome :=
  handled_authenticated usersPaging_handled (by decide)

theorem roleBased_iff_usersPaging :
    RoleBased bySegments exactFirst usersPaging ↔
      ∀ pre ∈ anonymousUrls, ¬ Text.hasPrefix usersPaging.path pre :=
  roleBased_iff (by decide) (by decide)

/-- An account without roles pages through the login logs. -/
theorem loginLogsPaging_handled : (serve bySegments (signedIn adminWithoutRoles)
    (requestFor loginLogsPaging (by decide)) exactFirst).1 = .handled loginLogsPaging :=
  serve_eq_handled_iff.mpr
    ⟨by decide, by decide, by decide, by decide⟩

theorem not_roleBased_loginLogsPaging : loginLogsPaging ∈ Routes.setupRoutes ∧
    ¬ loginLogsPaging.isExempt ∧ ¬ RoleBased bySegments exactFirst loginLogsPaging := by
  refine ⟨by decide, by decide, ?_⟩
  intro hbased
  exact not_permitted_signedIn
    (hbased _ _ adminWithoutRoles rfl (by decide) loginLogsPaging_handled)

end NextDBM
