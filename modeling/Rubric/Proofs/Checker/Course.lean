import Rubric.Proofs.Checker.Literals

/-!
# The course of a check run

A run checks clauses one after the other, each from the session that the one before has left.
Before a clause the equations and then the names in scope are forgotten. During the clause the
sessions are those before and after the calls of its trace, and between two calls nothing happens
but that a scope is opened and variables are taken. All these sessions are orderly: one clause
leaves an orderly session to the next, and the clause itself passes through orderly ones.
-/

namespace Rubric

namespace Setting

variable (setting : Setting)

/-- The sessions between the clauses of a run that starts with the first variable number. -/
inductive Between (first : Nat) : Session → Prop where
  | start : Between first { next := first }
  | clause {session : Session} (signature : Signature) (clause : Clause)
      (h : Between first session) :
      Between first ((setting.checkClause signature clause).run session.reset).2

/-- The sessions of a run: between clauses, when a clause is prepared, before and after the calls
of the clause, and on the way to the next call. -/
inductive Reached (first : Nat) : Session → Prop where
  | between {session : Session} (h : setting.Between first session) : Reached first session
  | reset {session : Session} (h : setting.Between first session) : Reached first session.reset
  | opened {session : Session} (h : setting.Between first session) :
      Reached first { session.reset with scopes := .empty }
  | before {session : Session} {signature : Signature} {clause : Clause} {moment : Moment}
      (h : setting.Between first session)
      (hmoment : moment ∈ setting.clauseTrace signature clause session.reset) :
      Reached first moment.session
  | after {session : Session} {signature : Signature} {clause : Clause} {moment : Moment}
      (h : setting.Between first session)
      (hmoment : moment ∈ setting.clauseTrace signature clause session.reset) :
      Reached first (setting.outcome moment)
  | pushed {session : Session} (h : Reached first session) :
      Reached first { session with scopes := session.scopes.push }
  | taken {session : Session} (h : Reached first session) (more : Nat) :
      Reached first { session with next := session.next + more }

variable {setting} {first : Nat}

namespace Between

variable {session : Session}

theorem checkClauses (h : setting.Between first session) (group : FunctionGroup)
    (signature : Signature) (number : Nat) (clauses : List Clause) :
    setting.Between first
      ((setting.checkClauses group signature number clauses).run session).2 := by
  induction clauses generalizing session number with
  | nil => exact h
  | cons clause rest ih => exact ih (h.clause signature clause) (number + 1)

/-- A run over some functions is a sequence of clauses. -/
theorem checkFunctions (h : setting.Between first session) (groups : List FunctionGroup) :
    setting.Between first ((setting.checkFunctions groups).run session).2 := by
  induction groups generalizing session with
  | nil => exact h
  | cons group rest ih =>
      have hgroup : setting.Between first ((setting.checkFunction group).run session).2 := by
        unfold checkFunction
        split
        · exact h
        · exact h.checkClauses group _ 1 group.clauses
      exact ih hgroup

end Between

end Setting

theorem Session.Orderly.reset {aliases : Aliases} {ledger : Ledger} {session : Session}
    (h : session.Orderly aliases ledger) : session.reset.Orderly aliases ledger :=
  ⟨h.next, h.bodies, Substitution.all_empty _, by simp [Session.reset], h.scopes,
    by simp [Session.reset], fun _ => Substitution.idempotent_empty⟩

namespace Program

variable (program : Program) {orders : Orders} {setting : Setting} {first : Nat}
  {session : Session}

theorem orderly_of_between
    (hsetting : Setting.ofGlobals (.collect program) orders = (setting, first))
    (h : setting.Between first session) :
    ∃ ledger, session.Orderly setting.aliases ledger := by
  induction h with
  | start =>
      have hle : (Setting.ofGlobals (.collect program) orders).2 ≤ first := by rw [hsetting]
      obtain ⟨ledger, rfl, hbodies⟩ := Ledger.exists_ofGlobals (.collect program) orders hle
      rw [hsetting] at hbodies
      exact ⟨ledger, Session.orderly_start hbodies⟩
  | clause signature clause _ ih =>
      obtain ⟨ledger, horderly⟩ := ih
      obtain ⟨later, hlater, _⟩ :=
        setting.orderly_clause signature clause horderly.bodies horderly.next
      exact ⟨later, hlater⟩

/-- Whatever a run comes to, everything that the session holds has been issued. -/
theorem orderly_of_reached
    (hsetting : Setting.ofGlobals (.collect program) orders = (setting, first))
    (h : setting.Reached first session) : ∃ ledger, session.Orderly setting.aliases ledger := by
  have hduring : ∀ {session signature clause moment}, setting.Between first session →
      moment ∈ setting.clauseTrace signature clause session.reset → setting.OrderlyAt moment := by
    intro session signature clause moment hbetween hmoment
    obtain ⟨ledger, horderly⟩ := program.orderly_of_between hsetting hbetween
    obtain ⟨_, _, hcalls⟩ :=
      setting.orderly_clause signature clause horderly.bodies horderly.next
    exact (hcalls moment hmoment).1
  induction h with
  | between hbetween => exact program.orderly_of_between hsetting hbetween
  | reset hbetween =>
      obtain ⟨ledger, horderly⟩ := program.orderly_of_between hsetting hbetween
      exact ⟨ledger, horderly.reset⟩
  | opened hbetween =>
      obtain ⟨ledger, horderly⟩ := program.orderly_of_between hsetting hbetween
      exact ⟨ledger, horderly.reset.rescope (Scopes.all_empty _)⟩
  | before hbetween hmoment =>
      obtain ⟨ledger, _, hbefore, _⟩ := hduring hbetween hmoment
      exact ⟨ledger, hbefore⟩
  | after hbetween hmoment =>
      obtain ⟨_, later, _, _, _, hafter⟩ := hduring hbetween hmoment
      exact ⟨later, hafter⟩
  | pushed _ ih =>
      obtain ⟨ledger, horderly⟩ := ih
      exact ⟨ledger, horderly.rescope horderly.scopes.push⟩
  | taken _ more ih =>
      obtain ⟨ledger, horderly⟩ := ih
      have hadvance := horderly.advance (List.prefix_append ledger (List.replicate more none))
      rw [List.length_append, List.length_replicate, ← horderly.next] at hadvance
      exact ⟨_, hadvance⟩

end Program

end Rubric
