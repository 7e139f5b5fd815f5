import NextDBM.Access.WorkerCommands

/-!
# Proofs: the commands of a user

The permission is asked for the whole id in every round. The rounds only delete, so a permission that
is given once is given again, and the rounds delete the commands of all parts, whoever owns them.
-/

namespace NextDBM

open Relational

variable {commands commands' : Commands} {calls : CommandCalls} {userId id part : String}
  {served : Bool} {command : Command}

namespace WorkCommandApi

open PropertyCache (serve)

/-! ## The permission -/

/-- The permission is given when the read succeeds and finds no command of another user. -/
theorem checkPermission_iff :
    checkPermission served commands userId id = true ↔
      served = true ∧ ∀ command ∈ commands, command.id = id → command.owner = userId := by
  unfold checkPermission
  cases served with
  | false => exact iff_of_false Bool.false_ne_true fun h => absurd h.1 Bool.false_ne_true
  | true =>
    unfold CommandRepository.findById
    cases hfind : commands.findById id with
    | none =>
      refine iff_of_true rfl ⟨rfl, fun command hmem hid => ?_⟩
      exact absurd hid (Table.findById_eq_none.mp hfind command hmem)
    | some command =>
      obtain ⟨hmem, hid⟩ := Table.findById_eq_some.mp hfind
      show (command.owner == userId) = true ↔ _
      rw [beq_iff_eq]
      constructor
      · intro howner
        refine ⟨rfl, fun other hother hid' => ?_⟩
        rw [Table.eq_of_key hother hmem (hid'.trans hid.symm)]
        exact howner
      · intro h
        exact h.2 command hmem hid

/-- A permission stays when commands are deleted. -/
theorem checkPermission_mono (hsub : ∀ command ∈ commands', command ∈ commands)
    (h : checkPermission true commands userId id = true) :
    checkPermission true commands' userId id = true := by
  obtain ⟨-, hown⟩ := checkPermission_iff.mp h
  exact checkPermission_iff.mpr ⟨rfl, fun command hmem => hown command (hsub command hmem)⟩

theorem mem_deleteById :
    command ∈ CommandRepository.deleteById commands part ↔
      command ∈ commands ∧ command.id ≠ part := by
  simp [CommandRepository.deleteById]

/-! ## The loop of the delete endpoint -/

/-- A command that no part names is not deleted. -/
theorem mem_deleteParts_of_ne {parts : List (String × Nat)} (hmem : command ∈ commands)
    (hne : ∀ part ∈ parts, command.id ≠ part.1) :
    command ∈ (deleteParts calls userId id commands parts).1 := by
  induction parts generalizing commands with
  | nil => exact hmem
  | cons part parts ih =>
    rw [deleteParts]
    split
    · exact hmem
    · split
      · exact hmem
      · refine ih (mem_deleteById.mpr ⟨hmem, hne part List.mem_cons_self⟩) ?_
        exact fun part' hpart' => hne part' (List.mem_cons_of_mem _ hpart')

/-- The loop adds no command. -/
theorem mem_of_mem_deleteParts {parts : List (String × Nat)}
    (h : command ∈ (deleteParts calls userId id commands parts).1) : command ∈ commands := by
  induction parts generalizing commands with
  | nil => exact h
  | cons part parts ih =>
    rw [deleteParts] at h
    split at h
    · exact h
    · split at h
      · exact h
      · exact (mem_deleteById.mp (ih h)).1

/-- With the permission and every statement served, each part is deleted. -/
theorem ne_of_mem_deleteParts {parts : List (String × Nat)}
    (hpermitted : checkPermission true commands userId id = true)
    (h : command ∈ (deleteParts {} userId id commands parts).1) :
    ∀ part ∈ parts, command.id ≠ part.1 := by
  induction parts generalizing commands with
  | nil => exact fun part hpart => absurd hpart List.not_mem_nil
  | cons part parts ih =>
    have hround : (deleteParts {} userId id commands (part :: parts)) =
        deleteParts {} userId id (CommandRepository.deleteById commands part.1) parts := by
      rw [deleteParts, hpermitted]
      rfl
    rw [hround] at h
    have hstays : checkPermission true (CommandRepository.deleteById commands part.1) userId id =
        true :=
      checkPermission_mono (fun command hmem => (mem_deleteById.mp hmem).1) hpermitted
    intro part' hpart'
    rcases List.mem_cons.mp hpart' with rfl | hpart'
    · exact (mem_deleteById.mp (mem_of_mem_deleteParts h)).2
    · exact ih hstays h part' hpart'

/-- Without the permission nothing is deleted. -/
theorem deleteParts_denied {parts : List (String × Nat)}
    (h : checkPermission true commands userId id ≠ true) :
    (deleteParts calls userId id commands parts).1 = commands := by
  cases parts with
  | nil => rfl
  | cons part parts =>
    have hdenied : checkPermission (calls.check part.2) commands userId id = false := by
      refine Bool.eq_false_iff.mpr fun hpermitted => h ?_
      exact checkPermission_iff.mpr ⟨rfl, (checkPermission_iff.mp hpermitted).2⟩
    rw [deleteParts, hdenied]
    rfl

theorem command_ne_deleteParts {parts : List (String × Nat)} (item : Command) :
    (deleteParts calls userId id commands parts).2 ≠ .command item := by
  induction parts generalizing commands with
  | nil => exact fun h => nomatch h
  | cons part parts ih =>
    rw [deleteParts]
    split
    · exact fun h => nomatch h
    · split
      · exact fun h => nomatch h
      · exact ih

/-! ## The endpoints -/

/-- A get leaves the table as it is and returns the command that the permission was asked for. -/
theorem commandGet_ownOnly : OwnOnly commands userId (.get id) := by
  intro calls
  show (∀ command, (commandGet calls commands userId id).2 = _ → _) ∧
    ∀ command ∈ commands, command.owner ≠ userId →
      command ∈ (commandGet calls commands userId id).1
  unfold commandGet
  split
  · exact ⟨fun command h => (nomatch h), fun command hmem _ => hmem⟩
  · next hpermitted =>
    rw [Bool.not_eq_true', Bool.not_eq_false] at hpermitted
    obtain ⟨-, hown⟩ := checkPermission_iff.mp hpermitted
    split
    · next item hitem =>
      refine ⟨fun command hcommand => ?_, fun command hmem _ => hmem⟩
      obtain rfl := CommandResponse.command.inj hcommand
      obtain ⟨hmem, hid⟩ : item ∈ commands ∧ item.id = id := by
        unfold serve CommandRepository.findById at hitem
        split at hitem
        · cases hfind : commands.findById id with
          | none =>
            rw [hfind] at hitem
            cases hitem
          | some found =>
            rw [hfind] at hitem
            obtain rfl := Except.ok.inj hitem
            exact Table.findById_eq_some.mp hfind
        · cases hitem
      exact ⟨hmem, hown item hmem hid⟩
    · exact ⟨fun command h => (nomatch h), fun command hmem _ => hmem⟩

/-- An update writes only the command that the permission was asked for. -/
theorem commandUpdate_ownOnly (item : Except Error Command) :
    OwnOnly commands userId (.update id item) := by
  intro calls
  show (∀ command, (commandUpdate calls commands userId id item).2 = _ → _) ∧
    ∀ command ∈ commands, command.owner ≠ userId →
      command ∈ (commandUpdate calls commands userId id item).1
  unfold commandUpdate
  split
  · exact ⟨fun command h => (nomatch h), fun command hmem _ => hmem⟩
  · next hpermitted =>
    rw [Bool.not_eq_true', Bool.not_eq_false] at hpermitted
    obtain ⟨-, hown⟩ := checkPermission_iff.mp hpermitted
    cases item with
    | error err => exact ⟨fun command h => (nomatch h), fun command hmem _ => hmem⟩
    | ok item =>
      simp only
      split
      · next commands' hupdate =>
        refine ⟨fun command h => (nomatch h), fun command hmem hother => ?_⟩
        unfold serve CommandRepository.updateById at hupdate
        split at hupdate
        · split at hupdate
          · cases hupdate
          · obtain rfl := Except.ok.inj hupdate
            refine Table.mem_updateById_of_ne hmem (fun hid => ?_) _
              (CommandRepository.assign_id item)
            exact hother (hown command hmem hid)
        · cases hupdate
      · exact ⟨fun command h => (nomatch h), fun command hmem _ => hmem⟩

/-- A delete keeps to the commands of the user exactly when its id is deletable. -/
theorem commandDelete_ownOnly_iff :
    OwnOnly commands userId (.delete id) ↔ Deletable commands userId id := by
  have hparts : ∀ parts : List String, ∀ part ∈ parts, ∃ i, (part, i) ∈ parts.zipIdx := by
    intro parts part hpart
    obtain ⟨i, hi, rfl⟩ := List.getElem_of_mem hpart
    exact ⟨i, List.mk_mem_zipIdx_iff_getElem?.mpr (List.getElem?_eq_getElem hi)⟩
  constructor
  · intro h
    by_cases hpermitted : checkPermission true commands userId id = true
    · refine .inr fun part hpart command hmem hid => ?_
      by_contra hother
      have hkept := (h {}).2 command hmem hother
      obtain ⟨i, hi⟩ := hparts _ part hpart
      exact ne_of_mem_deleteParts hpermitted hkept (part, i) hi hid
    · left
      by_contra hnone
      refine hpermitted (checkPermission_iff.mpr ⟨rfl, fun command hmem hid => ?_⟩)
      by_contra hother
      exact hnone ⟨command, hmem, hid, hother⟩
  · intro h calls
    refine ⟨fun command hcommand => absurd hcommand (command_ne_deleteParts command),
      fun command hmem hother => ?_⟩
    show command ∈ (deleteParts calls userId id commands _).1
    rcases h with ⟨other, hmem', hid, howner⟩ | hown
    · rw [deleteParts_denied]
      · exact hmem
      · exact fun hpermitted => howner ((checkPermission_iff.mp hpermitted).2 other hmem' hid)
    · refine mem_deleteParts_of_ne hmem fun part hpart hid => hother ?_
      exact hown part.1 (List.fst_mem_of_mem_zipIdx hpart) command hmem hid

/-- **A request keeps to the commands of its user** exactly when it does not delete, or its id is
deletable. -/
theorem ownOnly_iff (commands : Commands) (userId : String) (request : CommandRequest) :
    OwnOnly commands userId request ↔ ∀ id, request = .delete id → Deletable commands userId id := by
  cases request with
  | get id => exact iff_of_true commandGet_ownOnly fun _ h => nomatch h
  | update id item => exact iff_of_true (commandUpdate_ownOnly item) fun _ h => nomatch h
  | delete id =>
    rw [commandDelete_ownOnly_iff]
    constructor
    · intro h id' hid
      obtain rfl := CommandRequest.delete.inj hid
      exact h
    · intro h
      exact h id rfl

/-- A command of each of two users. -/
def twoCommands : Commands :=
  ⟨[{ id := "c1", owner := "u1" }, { id := "c2", owner := "u2" }], by decide⟩

/-- The first user deletes the command of the second by a list of ids. -/
theorem not_ownOnly_twoCommands :
    ¬ ∀ (commands : Commands) (userId : String) (request : CommandRequest),
      OwnOnly commands userId request := by
  intro h
  have hkept := (h twoCommands "u1" (.delete "c1,c2") {}).2 { id := "c2", owner := "u2" }
    (List.mem_cons_of_mem _ List.mem_cons_self) (by decide)
  have hpermitted : checkPermission true twoCommands "u1" "c1,c2" = true := by decide
  exact ne_of_mem_deleteParts hpermitted hkept ("c2", 1) (by decide) rfl

end WorkCommandApi

end NextDBM
