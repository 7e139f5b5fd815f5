import NextDBM.Proxy.Endings
import NextDBM.Proxy.Proofs.CommandsProofs

/-!
# Proxied connections and their end

The loop over the commands keeps `c.Conn` open as long as it goes on, so it always comes to the next
read, and a read that fails is the last call of the loop. The loop of `createMariaDBClient` has no such
turn: it ends if and only if one of its attempts meets no error. A handler on the direct route without
such an attempt never returns, and keeps its entry and its count.
-/

namespace NextDBM

open Calls

/-! ## The loop over the commands -/

namespace MariaDBProxy

variable {session : Session} {id : String}

/-- The connection stays open as long as no error is returned. -/
theorem isOpen_of_runs {es : Turn} {isOpen : Bool}
    (h : Runs (processCommand session id true) es (.ok (none, isOpen))) : isOpen = true := by
  rcases runs_handle.mp h with ⟨r, hserve, hr⟩ | ⟨x, es₁, es₂, -, -, hx⟩
  · obtain rfl := Except.ok.inj hr
    rcases runs_check_bind.mp hserve with ⟨packet, es', -, hk⟩ | ⟨err, es', -, hk⟩ | ⟨-, hk⟩
    · cases packet with
      | nil => cases hk
      | cons cmdType data =>
        rcases runs_bind.mp hk with ⟨x, -, hx⟩ | ⟨err, es₁, es₂, -, -, hpure⟩
        · cases hx
        · obtain ⟨-, heq⟩ := runs_pure.mp hpure
          cases heq
          rfl
    · obtain ⟨-, heq⟩ := runs_pure.mp hk
      cases heq
    · cases hk
  · cases x with
    | returned err =>
      obtain ⟨-, heq⟩ := runs_pure.mp hx
      cases heq
    | panic =>
      obtain ⟨-, heq⟩ := runs_pure.mp hx
      cases heq
      rfl

/-- A turn whose read fails makes no other call, closes the connection and returns the error. -/
theorem exec_readFails {host : (c : Call) → Response c} {err : String}
    (h : host .readPacket = .failed err) :
    (processCommand session id true).exec host = ([⟨.readPacket, .failed err⟩], .ok (some err, false))
    := by
  simp only [processCommand, if_true, serveCommand, check, attempt, bind, Prog.bind, Prog.handle,
    Prog.exec, h]
  rfl

end MariaDBProxy

namespace ProxyHandler

namespace Surroundings

variable {env : Surroundings} {session : Session} {i k n : Nat} {isOpen : Bool}

/-- A command after which the loop goes on leaves the connection open. -/
theorem commandRound_inl (h : env.commandRound session i true = .inl isOpen) : isOpen = true := by
  have hruns := runs_exec (env.turns i) (MariaDBProxy.processCommand session (env.ids i) true)
  unfold commandRound at h
  split at h
  · rename_i isOpen' heq
    rw [heq] at hruns
    obtain rfl := Sum.inl.inj h
    exact MariaDBProxy.isOpen_of_runs hruns
  · cases h

/-- A command whose read fails is the last one. -/
theorem commandRound_readFails (h : (env.turns i .readPacket).Failed) :
    ∃ x, env.commandRound session i true = .inr x := by
  obtain ⟨err, herr⟩ := h
  refine ⟨.error (.returned err), ?_⟩
  rw [commandRound, MariaDBProxy.exec_readFails herr]

/-- When the socket has failed by the turn `k`, the loop is left in the turn `k` at the latest. -/
theorem commands_left (h : env.SocketFails k) (session : Session) :
    ∃ x, env.commands session (k + 1) = .inr x := by
  refine Rounds.left_of_round (I := fun isOpen => isOpen = true) rfl ?_ ?_
  · rintro i isOpen isOpen' rfl hround
    exact commandRound_inl hround
  · rintro isOpen rfl
    exact commandRound_readFails (h k le_rfl)

/-! ## The loop of the attempts -/

/-- What an attempt comes to. -/
theorem connectOnce_exec (host : (c : Call) → Response c) (dsn : CoreDataSource) (dbName : String) :
    ((connectOnce dsn dbName).exec host).2 =
      match host (.connect dsn dbName) with
      | .returned _ =>
        match host .ping with
        | .returned _ => .ok true
        | .failed _ => .ok false
        | .panicked => .error .panic
      | .failed _ => .ok false
      | .panicked => .error .panic := by
  simp only [connectOnce, check, attempt, bind, Prog.bind, Prog.exec]
  cases hconnect : host (.connect dsn dbName) with
  | returned u =>
    simp only [Prog.bind, Prog.exec]
    cases hping : host .ping with
    | returned u => rfl
    | failed err => rfl
    | panicked => rfl
  | failed err => rfl
  | panicked => rfl

/-- An attempt leaves the loop exactly when neither of its calls returns an error. -/
theorem attemptRound_inr : (∃ x, env.attemptRound i () = .inr x) ↔ env.Settles i := by
  unfold attemptRound Settles
  rw [connectOnce_exec]
  cases hconnect : env.attempts i (.connect env.dsn env.dbName) with
  | returned u =>
    cases hping : env.attempts i .ping with
    | returned u =>
      exact iff_of_true ⟨_, rfl⟩ ⟨Outcome.not_failed_returned, fun _ => Outcome.not_failed_returned⟩
    | failed err =>
      refine iff_of_false ?_ fun h => h.2 rfl ⟨err, rfl⟩
      rintro ⟨x, hx⟩
      cases hx
    | panicked =>
      refine iff_of_true ⟨_, rfl⟩ ⟨Outcome.not_failed_returned, fun _ => ?_⟩
      rintro ⟨err, herr⟩
      cases herr
  | failed err =>
    refine iff_of_false ?_ fun h => h.1 ⟨err, rfl⟩
    rintro ⟨x, hx⟩
    cases hx
  | panicked =>
    refine iff_of_true ⟨_, rfl⟩ ⟨?_, fun h => by cases h⟩
    rintro ⟨err, herr⟩
    cases herr

/-- `createMariaDBClient` is left if and only if one of its attempts settles. -/
theorem attempts_end : Rounds.Ends env.attemptRound () ↔ ∃ i, env.Settles i := by
  rw [Rounds.ends_iff]
  exact exists_congr fun i => attemptRound_inr

/-- As long as no attempt settles, the loop goes on. -/
theorem createMariaDBClient_goesOn (h : ∀ i, ¬ env.Settles i) (n : Nat) :
    env.createMariaDBClient n = .inl () := by
  refine Rounds.after_of_goesOn (fun i => ?_) n
  cases hround : env.attemptRound i () with
  | inl u => rfl
  | inr x => exact absurd (attemptRound_inr.mp ⟨x, hround⟩) (h i)

end Surroundings

/-! ## The handler -/

section Stretches
variable {α β σ : Type} {m : ExceptT Exit Option α} {f : α → ExceptT Exit Option β}

/-- A part of the handler that has ended. -/
def Settled (m : ExceptT Exit Option α) : Prop := ∃ x, m = ended x

theorem settled_left {l : σ ⊕ Except Exit α} (h : ∃ x, l = .inr x) : Settled (left l) := by
  obtain ⟨x, rfl⟩ := h
  exact ⟨x, rfl⟩

theorem settled_bind (hm : Settled m) (hf : ∀ a, m = ended (.ok a) → Settled (f a)) :
    Settled (m >>= f) := by
  obtain ⟨x, rfl⟩ := hm
  cases x with
  | error x => exact ⟨.error x, rfl⟩
  | ok a => exact hf a rfl

end Stretches

namespace Surroundings

variable {env : Surroundings} {k n : Nat}

/-- The handler has ended when each of its loops has been left. -/
theorem handle_settled (hattempts : env.TakesDirect → ∃ x, env.createMariaDBClient n = .inr x)
    (hcommands : ∀ session, ∃ x, env.commands session n = .inr x) : Settled (env.handle n) := by
  refine settled_bind ⟨_, rfl⟩ fun ⟨user, session⟩ hprepare => ?_
  have hclient : Settled (env.createClient n) := by
    unfold createClient
    by_cases hgateway : env.sshConfig = {}
    · rw [if_neg (not_not.mpr hgateway)]
      refine settled_left (hattempts ⟨⟨(user, session), ?_⟩, hgateway⟩)
      exact Option.some.inj hprepare
    · rw [if_pos hgateway]
      exact settled_bind ⟨_, rfl⟩ fun _ _ => ⟨_, rfl⟩
  refine settled_bind hclient fun _ _ => ?_
  exact settled_bind ⟨_, rfl⟩ fun _ _ => settled_left (hcommands session)

theorem handleConnection_returns (h : Settled (env.handle n)) :
    ∃ err, env.handleConnection n = some err := by
  obtain ⟨x, hx⟩ := h
  unfold handleConnection
  rw [hx]
  cases x with
  | ok a => cases a
  | error x =>
    cases x with
    | returned err => exact ⟨some err, rfl⟩
    | panic => exact ⟨none, rfl⟩

/-- On the direct route the handler does not return before `createMariaDBClient`. -/
theorem handleConnection_stays (hdirect : env.TakesDirect)
    (hattempts : env.createMariaDBClient n = .inl ()) : env.handleConnection n = none := by
  obtain ⟨⟨r, hprepare⟩, hgateway⟩ := hdirect
  have hhandle : env.handle n = ExceptT.mk none := by
    unfold handle createClient
    rw [hprepare, hattempts, if_neg (not_not.mpr hgateway)]
    rfl
  rw [handleConnection, hhandle]
  rfl

/-- What the deferred function gives back. -/
theorem finish_givesBack (s : ProxyServer) (id : String) (err : Option String) :
    id ∉ (s.finish id err).connections ∧ (s.finish id err).connManager = s.connManager - 1 :=
  ⟨Finset.notMem_erase id s.connections, rfl⟩

/-- A handler whose client goes away returns if and only if its session is inserted and, on the direct
route, an attempt settles. -/
theorem givesBack_iff (h : env.SocketFails k) : env.GivesBack ↔ env.Reachable := by
  constructor
  · rintro ⟨n, err, hreturn, -⟩
    unfold goroutine at hreturn
    cases hinsert : env.createSession with
    | returned u =>
      rw [hinsert] at hreturn
      refine ⟨hinsert, fun hdirect => ?_⟩
      by_contra hnone
      have hgoesOn := createMariaDBClient_goesOn (not_exists.mp hnone) n
      rw [show env.handleConnection n = none from handleConnection_stays hdirect hgoesOn] at hreturn
      cases hreturn
    | failed err' => rw [hinsert] at hreturn; cases hreturn
    | panicked => rw [hinsert] at hreturn; cases hreturn
  · rintro ⟨hinserted, hsettles⟩
    -- enough rounds for both loops
    obtain ⟨n, hn⟩ : ∃ n, env.TakesDirect → ∃ x, env.createMariaDBClient n = .inr x := by
      by_cases hdirect : env.TakesDirect
      · obtain ⟨n, x, hx⟩ := attempts_end.mpr (hsettles hdirect)
        exact ⟨n, fun _ => ⟨x, hx⟩⟩
      · exact ⟨0, fun hd => absurd hd hdirect⟩
    have hattempts : env.TakesDirect → ∃ x, env.createMariaDBClient (max n (k + 1)) = .inr x := by
      intro hdirect
      obtain ⟨x, hx⟩ := hn hdirect
      exact ⟨x, Rounds.after_of_le hx (le_max_left n (k + 1))⟩
    have hcommands : ∀ session, ∃ x, env.commands session (max n (k + 1)) = .inr x := by
      intro session
      obtain ⟨x, hx⟩ := commands_left h session
      exact ⟨x, Rounds.after_of_le hx (le_max_right n (k + 1))⟩
    obtain ⟨err, herr⟩ := handleConnection_returns (handle_settled hattempts hcommands)
    refine ⟨max n (k + 1), err, ?_, fun s => finish_givesBack s env.session.id err⟩
    rw [goroutine, hinserted]
    exact herr

/-- A connection whose client goes away ends if and only if its session is inserted and, on the direct
route, an attempt to reach the upstream database settles. -/
theorem connectionEnds_iff (env : Surroundings) (k : Nat) (h : env.SocketFails k) :
    env.ConnectionEnds k ↔ env.Reachable := by
  constructor
  · intro hends
    exact (givesBack_iff h).mp hends.givesBack
  · intro hreachable
    exact
      { attempts := fun hdirect => attempts_end.mpr (hreachable.settles hdirect)
        commands := commands_left h
        givesBack := (givesBack_iff h).mpr hreachable }

/-! ### A connection whose upstream database refuses it -/

/-- Every call returns: the login is let in. -/
def welcome : (c : Call) → Response c
  | .newCustomizedConn => .returned "alice#orders"
  | .findByUsername username => .returned { id := "u1", username }
  | .findAssetByName name => .returned { id := "a1", name }
  | .findByIdAndDecrypt id => .returned { id }
  | .findGateway id => .returned { id }
  | .loginPolicyCheck _ _ | .updateSession _ | .parsePrivateKeyWithPassphrase _ _
  | .parsePrivateKey _ | .dialSSH _ | .connectWithDialer _ _ | .connect _ _ | .useDB _ | .ping
  | .createOperLog _ _ _ _ _ | .writeValue _ => .returned ()

/-- The upstream database refuses every connection, and the client has gone away. -/
def refused : Surroundings where
  session := { id := "s1" }
  createSession := .returned ()
  handler := welcome
  dbName := "orders"
  sshConfig := {}
  dsn := { ip := "10.0.0.5", port := 3306 }
  sshConf := {}
  socks := welcome
  attempts := fun _ _ => .failed "connect: connection refused"
  connections := 1
  ids := fun _ => "l1"
  turns := fun _ _ => .failed "EOF"

/-- The upstream database is back at the third attempt. -/
def recovering : Surroundings :=
  { refused with
    attempts := fun i c => if i < 2 then .failed "connect: connection refused" else welcome c }

theorem refused_takesDirect : refused.TakesDirect := ⟨⟨_, rfl⟩, rfl⟩

theorem recovering_settles : recovering.Settles 2 :=
  ⟨Outcome.not_failed_returned, fun _ => Outcome.not_failed_returned⟩

theorem connectionEnds_recovering : recovering.SocketFails 0 ∧ recovering.ConnectionEnds 0 :=
  have hfails : recovering.SocketFails 0 := fun _ _ => ⟨_, rfl⟩
  ⟨hfails, (connectionEnds_iff recovering 0 hfails).mpr ⟨rfl, fun _ => ⟨2, recovering_settles⟩⟩⟩

theorem not_connectionEnds_refused :
    refused.SocketFails 0 ∧ ¬ refused.ConnectionEnds 0 ∧ ¬ refused.GivesBack := by
  have hfails : refused.SocketFails 0 := fun _ _ => ⟨_, rfl⟩
  have hnever : ¬ ∃ i, refused.Settles i := by
    rintro ⟨i, hconnect, -⟩
    exact hconnect ⟨_, rfl⟩
  refine ⟨hfails, fun hends => ?_, fun hback => ?_⟩
  · exact hnever (attempts_end.mp (hends.attempts refused_takesDirect))
  · exact hnever (((givesBack_iff hfails).mp hback).settles refused_takesDirect)

end Surroundings

end ProxyHandler

end NextDBM
