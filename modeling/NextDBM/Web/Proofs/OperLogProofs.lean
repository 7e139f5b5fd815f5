import NextDBM.Web.OperLog
import NextDBM.Web.Proofs.AuthProofs

/-!
# Proofs: the operation log

A request stores at most one row, and which requests do is settled when `ErrorHandler` goes on with them.
So the rows are those of the requests that have stored one, whatever runs in between.
-/

namespace NextDBM

namespace OperationLog

open Transition

variable {matcher : Matcher} {router : Router} {unrouted : HttpRequest → Unrouted}
  {menuName : Method → String → String} {s s' : Site} {e e' : Exchange} {i : Nat}

/-! ## The rows of the requests -/

theorem status_isSome {ending : Ending} : (status ending).isSome ↔ ending ≠ .panicked := by
  cases ending <;> simp [status]

theorem operationLog_isSome {req : HttpRequest} {ending : Ending} {account : Option User} :
    (operationLog router unrouted menuName req ending account).isSome ↔
      ending ≠ .panicked ∧ ∃ user, account = some user := by
  rw [← status_isSome, ← Option.isSome_iff_exists]
  unfold operationLog
  cases status ending <;> cases account <;> simp

/-- The requests around one of them. -/
theorem exchanges_split {es : List Exchange} (h : es[i]? = some e) (e' : Exchange) :
    ∃ before after, es = before ++ e :: after ∧ es.set i e' = before ++ e' :: after := by
  obtain ⟨hi, rfl⟩ := List.getElem?_eq_some_iff.mp h
  refine ⟨es.take i, es.drop (i + 1), ?_, ?_⟩
  · rw [List.cons_getElem_drop_succ, List.take_append_drop]
  · rw [List.set_eq_take_append_cons_drop, if_pos hi]

theorem stored_append (es fs : List Exchange) :
    stored router unrouted menuName (es ++ fs) =
      stored router unrouted menuName es ++ stored router unrouted menuName fs :=
  List.filterMap_append

theorem stored_cons_of_ne (h : e.row ≠ .stored) (es : List Exchange) :
    stored router unrouted menuName (e :: es) = stored router unrouted menuName es := by
  simp [stored, h]

theorem stored_cons {operLog : OperLog} (h : e.row = .stored)
    (hrow : e.operLog router unrouted menuName = some operLog) (es : List Exchange) :
    stored router unrouted menuName (e :: es) = operLog :: stored router unrouted menuName es := by
  simp [stored, h, hrow]

theorem stored_set_of_ne {es : List Exchange} (h : es[i]? = some e) (he : e.row ≠ .stored)
    (he' : e'.row ≠ .stored) :
    stored router unrouted menuName (es.set i e') = stored router unrouted menuName es := by
  obtain ⟨before, after, hes, hset⟩ := exchanges_split h e'
  rw [hes] at hset ⊢
  rw [hset, stored_append, stored_append, stored_cons_of_ne he, stored_cons_of_ne he']

theorem stored_set_stored {es : List Exchange} {operLog : OperLog} (h : es[i]? = some e)
    (he : e.row ≠ .stored) (he' : e'.row = .stored)
    (hrow : e'.operLog router unrouted menuName = some operLog) :
    (stored router unrouted menuName (es.set i e')).Perm
      (operLog :: stored router unrouted menuName es) := by
  obtain ⟨before, after, hes, hset⟩ := exchanges_split h e'
  rw [hes] at hset ⊢
  rw [hset, stored_append, stored_append, stored_cons_of_ne he, stored_cons he' hrow]
  exact List.perm_middle

/-! ## One step -/

/-- What is known of the rows and of the requests. -/
structure Kept (matcher : Matcher) (router : Router) (unrouted : HttpRequest → Unrouted)
    (menuName : Method → String → String) (s : Site) : Prop where
  rows : s.operLogs.Perm (stored router unrouted menuName s.exchanges)
  known : ∀ e ∈ s.exchanges, e.Known matcher router unrouted

theorem known_arrived (server : Server) (req : HttpRequest) (own : Handled) :
    Exchange.Known matcher router unrouted
      { req, handled := next matcher router unrouted server req own } where
  way := ⟨server, own, rfl⟩
  row := by simp [Exchange.Recorded]
  live _ _ _ h := by cases h
  dead h := by cases h

/-- `ErrorHandler` goes on with a request. -/
theorem known_proceed (server : Server) (h : e.Known matcher router unrouted) :
    (proceed router unrouted menuName server e).Known matcher router unrouted where
  way := h.way
  row := by
    have hrow : (operationLog router unrouted menuName e.req e.handled.ending
        (server.tokens e.req.token)).isSome ↔ (proceed router unrouted menuName server e).Recorded := by
      rw [operationLog_isSome]
      simp [proceed, Exchange.Recorded]
    rw [← hrow]
    simp only [proceed]
    split <;> simp_all
  live user code message huser hending := by
    have haccount : server.tokens e.req.token = some user := Option.some.inj huser
    show errorHandler e.handled (server.tokens e.req.token) = _
    have hending' : e.handled.ending = .failed code message := hending
    simp only [errorHandler, haccount, hending']
    rfl
  dead hnone := by
    have haccount : server.tokens e.req.token = none := Option.some.inj hnone
    show errorHandler e.handled (server.tokens e.req.token) = _
    simp only [errorHandler, haccount]
    rfl

/-- The write of a row changes nothing else of its request. -/
theorem known_written {row : RowState} (h : e.Known matcher router unrouted) (he : e.row ≠ .missing)
    (hrow : row ≠ .missing) : Exchange.Known matcher router unrouted { e with row } where
  way := h.way
  row := ⟨fun _ => h.row.mp he, fun _ => hrow⟩
  live := h.live
  dead := h.dead

theorem Kept.set (h : Kept matcher router unrouted menuName s) (he : e'.Known matcher router unrouted) :
    ∀ x ∈ s.exchanges.set i e', x.Known matcher router unrouted := fun x hx =>
  (List.mem_or_eq_of_mem_set hx).elim (h.known x) fun heq => heq ▸ he

/-- One step, by its action. -/
theorem Kept.step {a : Action} (h : Kept matcher router unrouted menuName s)
    (hstep : step matcher router unrouted menuName s a = some s') :
    Kept matcher router unrouted menuName s' := by
  cases a with
  | request req own =>
    obtain rfl := Option.some.inj hstep
    refine ⟨?_, fun x hx => ?_⟩
    · rw [stored_append, stored_cons_of_ne (by simp)]
      simpa [stored] using h.rows
    · rcases List.mem_append.mp hx with hx | hx
      · exact h.known x hx
      · exact List.mem_singleton.mp hx ▸ known_arrived s.server req own
  | proceed i =>
    simp only [OperationLog.step] at hstep
    split at hstep
    · next e he =>
      have hknown := h.known e (List.mem_of_getElem? he)
      obtain ⟨haccount, hs'⟩ := Option.ite_none_right_eq_some.mp hstep
      obtain rfl := Option.some.inj hs'
      have hmissing : e.row = .missing := by
        by_contra hrow
        obtain ⟨-, user, huser⟩ := hknown.row.mp hrow
        rw [haccount] at huser
        cases huser
      refine ⟨?_, h.set (known_proceed s.server hknown)⟩
      rw [stored_set_of_ne he (by simp [hmissing])]
      · exact h.rows
      · simp only [OperationLog.proceed]
        split <;> simp
    · cases hstep
  | write i ok =>
    simp only [OperationLog.step] at hstep
    split at hstep
    · next e he =>
      have hknown := h.known e (List.mem_of_getElem? he)
      split at hstep
      · next operLog hwriting hrow =>
        obtain rfl := Option.some.inj hstep
        have hne : e.row ≠ .stored := by simp [hwriting]
        cases ok with
        | true =>
          refine ⟨?_, h.set (known_written hknown (by simp [hwriting]) (by simp))⟩
          have hrow' : Exchange.operLog router unrouted menuName { e with row := .stored } = some operLog := hrow
          exact (h.rows.cons operLog).trans (stored_set_stored he hne rfl hrow').symm
        | false =>
          refine ⟨?_, h.set (known_written hknown (by simp [hwriting]) (by simp))⟩
          rw [stored_set_of_ne he hne (by simp)]
          exact h.rows
      · cases hstep
    · cases hstep
  | change server =>
    obtain rfl := Option.some.inj hstep
    exact ⟨h.rows, h.known⟩

/-! ## Runs -/

end OperationLog

end NextDBM
