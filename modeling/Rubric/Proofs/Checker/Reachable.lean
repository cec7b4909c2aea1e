import Rubric.Proofs.Checker.Literals

/-!
# Sessions that a check run can reach

Checking a clause comes to expressions, patterns, literals and equations one after the other.
The sessions that it can reach are those before and after each of these calls, for all
signatures, all clauses and all counters at which the clause may be started. The names in
scope are left open: any types over the variables taken so far are possible ones.
-/

namespace Rubric

namespace Setting

variable (setting : Setting)

/-- The sessions before and after the calls of a clause that is checked once the first numbers
have been taken. -/
inductive Reachable (first : Nat) : Session → Prop where
  | before {signature : Signature} {clause : Clause} {start : Session} {moment : Moment}
      {scopes : Scopes} : first ≤ start.next →
      moment ∈ setting.clauseTrace signature clause start.reset →
      (∀ name t, scopes.lookup name = some t → t.Below moment.session.next) →
      Reachable first { moment.session with scopes }
  | after {signature : Signature} {clause : Clause} {start : Session} {moment : Moment}
      {scopes : Scopes} : first ≤ start.next →
      moment ∈ setting.clauseTrace signature clause start.reset →
      (∀ name t, scopes.lookup name = some t → t.Below (setting.outcome moment).next) →
      Reachable first { setting.outcome moment with scopes }

end Setting

namespace Program

/-- Without variables in alias bodies every session that can be reached is tidy. -/
theorem tidy_of_reachable (program : Program) {orders : Orders} {setting : Setting} {first : Nat}
    {session : Session} (hsetting : Setting.ofGlobals (.collect program) orders = (setting, first))
    (hfree : setting.aliases.VarFree) (h : setting.Reachable first session) :
    session.Tidy setting.aliases := by
  have horderly : ∀ (signature : Signature) (clause : Clause) (start : Session),
      first ≤ start.next → ∀ moment ∈ setting.clauseTrace signature clause start.reset,
        setting.OrderlyAt moment := by
    intro signature clause start hfirst moment hmoment
    have hle : (Setting.ofGlobals (.collect program) orders).2 ≤ start.next := by
      rw [hsetting]
      exact hfirst
    obtain ⟨ledger, hnext, hbodies⟩ := Ledger.exists_ofGlobals (.collect program) orders hle
    rw [hsetting] at hbodies
    obtain ⟨_, _, hcalls⟩ := setting.orderly_clause signature clause hbodies hnext
    exact (hcalls moment hmoment).1
  cases h with
  | before hfirst hmoment hscopes =>
      obtain ⟨_, _, hbefore, _⟩ := horderly _ _ _ hfirst _ hmoment
      exact (Session.Step.rescope hscopes).tidy hfree (hbefore.tidy hfree)
  | after hfirst hmoment hscopes =>
      obtain ⟨_, _, _, _, _, hafter⟩ := horderly _ _ _ hfirst _ hmoment
      exact (Session.Step.rescope hscopes).tidy hfree (hafter.tidy hfree)

end Program

/-! ## An example

A literal pattern, which has become an amount by the time the result is looked at. The fields
of the data constructor share a variable:

    type Amount = Int
    data Move = Move [a] a

    settle : Amount -> Amount
    settle 0 = 1
-/

namespace Moving

def literal (value : Float) : Expression :=
  .primitive (.number "number" value {})

def signature : Signature where
  name := ⟨"settle", none, {}⟩
  inputs := [.con "Amount"]
  output := .con "Amount"

def clause : Clause :=
  .ofExpression [.literal (.number "number" 0 {})] (literal 1)

def fields : List Field :=
  [⟨none, .list (.var "a")⟩, ⟨none, .var "a"⟩]

def program : Program where
  declarations :=
    [.typeAlias ⟨⟨"Amount", none, {}⟩, .con "Int"⟩,
      .record ⟨⟨"Move", none, {}⟩, [⟨"Move", fields⟩]⟩, .signature signature,
      .function ⟨⟨"settle", none, {}⟩, [clause]⟩]

def setting : Setting where
  globals :=
    { signatures := .singleton "settle" signature
      aliases := .singleton "Amount" (.con "Int")
      constructors := .singleton "Move" ⟨"Move", fields⟩ }
  aliases := .ofList [("Amount", .con "Int")]

theorem ofGlobals_program : Setting.ofGlobals (.collect program) = (setting, 0) := by
  rw [Globals.collect_eq]
  rfl

theorem varFree : setting.aliases.VarFree :=
  Aliases.varFree_empty.insert Ty.all_con

/-- The session before the result. -/
def session : Session where
  next := 1
  subst := .singleton ⟨0, none⟩ (.con "Amount")
  numeric := [⟨0, none⟩]

theorem reachable_session : setting.Reachable 0 session := by
  have hmoment : ⟨.expression (literal 1), session⟩ ∈
      setting.clauseTrace signature clause (Session.reset {}) :=
    List.mem_of_getElem? (i := 3) rfl
  refine .before (Nat.zero_le _) hmoment ?_
  intro name t ht
  cases ht

end Moving

end Rubric
