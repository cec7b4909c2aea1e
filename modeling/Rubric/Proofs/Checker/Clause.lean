import Rubric.Proofs.Checker.Soundness

/-!
# Clauses without errors

Errors never end the check of a clause, so its result is a list. The list is empty exactly
when the same requirements, put one after the other, all succeed. Soundness of inference
then says that the clause has an instance of its signature.
-/

namespace Rubric

namespace Setting

open Check

variable (setting : Setting)

/-! ## Requirements -/

/-- Require every guard to have a truth value as its condition and a result of one type. -/
def requireGuards (expected : Ty) : List Guard → Check Unit
  | [] => pure ()
  | guard :: rest => do
      setting.checkExpression "guard condition" .bool guard.condition
      setting.checkExpression "guard result" expected guard.result
      requireGuards expected rest

/-- Require a right-hand side to have a type. -/
def requireResult (expected : Ty) : ClauseBody → Check Unit
  | .unguarded e => setting.checkExpression "return value" expected e
  | .guarded guards => setting.requireGuards expected guards

/-- Require a clause to take the leading inputs apart and to give what is left. -/
def requireClause (clause : Clause) (inputs : List Ty) (output : Ty) : Check Unit := do
  setting.bindAll clause.parameters inputs
  setting.requireResult (.curried (inputs.drop clause.parameters.length) output) clause.result

/-- Report the error of a step, or else what there is to report after it. -/
def reporting (step : Check Unit) (rest : StateM Session (List TypeError)) :
    StateM Session (List TypeError) := do
  match ← ExceptT.run step with
  | .error error => pure [error]
  | .ok _ => rest

/-- The errors of a clause from its lowered signature on. -/
def checkAgainst (clause : Clause) (inputs : List Ty) (output : Ty) :
    StateM Session (List TypeError) :=
  if inputs.length < clause.parameters.length then
    pure [.tooManyParameters inputs.length clause.parameters.length]
  else
    reporting (setting.bindAll clause.parameters inputs)
      (setting.checkResult (.curried (inputs.drop clause.parameters.length) output) clause.result)

section Reporting

variable {step : Check Unit} {rest : StateM Session (List TypeError)} {before after : Session}

theorem run_reporting (h : step.Gives before () after) :
    (reporting step rest).run before = rest.run after := by
  unfold reporting
  rw [run_bind, show (ExceptT.run step).run before = (.ok (), after) from h]

theorem run_reporting_error {error : TypeError} (h : runOn step before = (.error error, after)) :
    (reporting step rest).run before = ([error], after) := by
  unfold reporting
  rw [run_bind, show (ExceptT.run step).run before = (.error error, after) from h]
  rfl

theorem reporting_eq_nil :
    (reporting step rest).run before = ([], after) ↔
      ∃ middle, step.Gives before () middle ∧ rest.run middle = ([], after) := by
  rcases hrun : runOn step before with ⟨outcome, middle⟩
  cases outcome with
  | ok u =>
      have hgives : step.Gives before () middle := hrun
      rw [run_reporting hgives]
      constructor
      · intro h
        exact ⟨middle, hgives, h⟩
      · rintro ⟨_, hgives', h⟩
        obtain ⟨_, rfl⟩ := hgives.unique hgives'
        exact h
  | error error =>
      rw [run_reporting_error hrun]
      constructor
      · intro h
        cases h
      · rintro ⟨_, hgives, _⟩
        cases hrun.symm.trans hgives

theorem failure_eq_reporting (step : Check Unit) : failure step = reporting step (pure []) := by
  funext session
  show (failure step).run session = (reporting step _).run session
  unfold failure reporting
  rw [run_bind, run_bind]
  cases ((ExceptT.run step).run session).1 <;> rfl

theorem failure_eq_nil :
    (failure step).run before = ([], after) ↔ step.Gives before () after := by
  rw [failure_eq_reporting, reporting_eq_nil]
  constructor
  · rintro ⟨middle, hgives, hpure⟩
    cases hpure
    exact hgives
  · intro h
    exact ⟨after, h, rfl⟩

end Reporting

theorem checkGuards_eq_nil {expected : Ty} {guards : List Guard} {before after : Session} :
    (setting.checkGuards expected guards).run before = ([], after) ↔
      (setting.requireGuards expected guards).Gives before () after := by
  induction guards generalizing before with
  | nil =>
      show (([], before) : List TypeError × Session) = ([], after) ↔ _
      simp [requireGuards]
  | cons guard rest ih =>
      rw [checkGuards, requireGuards, run_bind, run_bind, run_bind]
      show ((_ ++ _ ++ _, _) : List TypeError × Session) = ([], after) ↔ _
      rw [Prod.mk.injEq, List.append_eq_nil_iff, List.append_eq_nil_iff]
      constructor
      · rintro ⟨⟨⟨hcondition, hresult⟩, hrest⟩, hafter⟩
        refine gives_bind.mpr ⟨(), _, failure_eq_nil.mp (Prod.ext hcondition rfl), ?_⟩
        refine gives_bind.mpr ⟨(), _, failure_eq_nil.mp (Prod.ext hresult rfl), ?_⟩
        exact ih.mp (Prod.ext hrest hafter)
      · intro h
        obtain ⟨_, _, hcondition, h⟩ := gives_bind.mp h
        obtain ⟨_, _, hresult, hrest⟩ := gives_bind.mp h
        rw [failure_eq_nil.mpr hcondition, failure_eq_nil.mpr hresult, ih.mpr hrest]
        exact ⟨⟨⟨rfl, rfl⟩, rfl⟩, rfl⟩

theorem checkResult_eq_nil {expected : Ty} {body : ClauseBody} {before after : Session} :
    (setting.checkResult expected body).run before = ([], after) ↔
      (setting.requireResult expected body).Gives before () after := by
  cases body with
  | unguarded e => exact failure_eq_nil
  | guarded guards => exact setting.checkGuards_eq_nil

theorem run_checkClause (signature : Signature) (clause : Clause) (session : Session)
    {inputs : List Ty} {output : Ty} {naming : Naming}
    (hlower : signature.lower.run ⟨{}, session.next⟩ = ((inputs, output), naming)) :
    (setting.checkClause signature clause).run session =
      (setting.checkAgainst clause inputs output).run
        { session with scopes := .empty, next := naming.next } := by
  have hinputs : (signature.lower.run ⟨{}, session.next⟩).1.1 = inputs := by rw [hlower]
  have houtput : (signature.lower.run ⟨{}, session.next⟩).1.2 = output := by rw [hlower]
  have hnaming : (signature.lower.run ⟨{}, session.next⟩).2 = naming := by rw [hlower]
  rw [← hinputs, ← houtput, ← hnaming]
  rfl

/-- A clause has no errors exactly when its requirements succeed. -/
theorem run_checkClause_eq_nil {signature : Signature} {clause : Clause} {session after : Session}
    {inputs : List Ty} {output : Ty} {naming : Naming}
    (hlower : signature.lower.run ⟨{}, session.next⟩ = ((inputs, output), naming)) :
    (setting.checkClause signature clause).run session = ([], after) ↔
      clause.parameters.length ≤ inputs.length ∧
        (setting.requireClause clause inputs output).Gives
          { session with scopes := .empty, next := naming.next } () after := by
  rw [setting.run_checkClause signature clause session hlower, checkAgainst]
  split
  · next hmany =>
      constructor
      · intro h
        cases h
      · rintro ⟨hfew, _⟩
        omega
  · next hfew =>
      unfold requireClause
      simp only [reporting_eq_nil, checkResult_eq_nil, gives_bind]
      constructor
      · rintro ⟨middle, hbind, hresult⟩
        exact ⟨Nat.le_of_not_lt hfew, (), middle, hbind, hresult⟩
      · rintro ⟨_, _, middle, hbind, hresult⟩
        exact ⟨middle, hbind, hresult⟩

theorem checkClause_eq_nil {signature : Signature} {clause : Clause} {session : Session}
    {inputs : List Ty} {output : Ty} {naming : Naming}
    (hlower : signature.lower.run ⟨{}, session.next⟩ = ((inputs, output), naming)) :
    ((setting.checkClause signature clause).run session).1 = [] ↔
      clause.parameters.length ≤ inputs.length ∧
        ∃ after, (setting.requireClause clause inputs output).Gives
          { session with scopes := .empty, next := naming.next } () after := by
  constructor
  · intro h
    obtain ⟨hlength, hgives⟩ := (setting.run_checkClause_eq_nil hlower).mp (Prod.ext h rfl)
    exact ⟨hlength, _, hgives⟩
  · rintro ⟨hlength, after, hgives⟩
    rw [(setting.run_checkClause_eq_nil hlower).mpr ⟨hlength, hgives⟩]

/-! ## Soundness of clauses -/

theorem ensures_checkExpression (hfree : setting.aliases.VarFree) (context : String) {n : Nat}
    {expected : Ty} (e : Expression) (hexpected : expected.Below n) :
    (setting.checkExpression context expected e).Ensures setting.aliases n (fun _ _ => True)
      fun σ before after _ => after = before ∧ setting.TypedUnder σ before e expected := by
  refine (setting.ensures_inferExpression hfree e n).bind hfree fun m found hm hfound => ?_
  refine (setting.ensures_constrainIn hfree context (hexpected.of_le hm) hfound).mono ?_
  rintro σ _ _ _ ⟨rfl, hequal⟩ _ ⟨rfl, htyped⟩
  exact ⟨rfl, .convert htyped hequal.symm⟩

theorem ensures_requireGuards (hfree : setting.aliases.VarFree) {n : Nat} {expected : Ty}
    (guards : List Guard) (hexpected : expected.Below n) :
    (setting.requireGuards expected guards).Ensures setting.aliases n (fun _ _ => True)
      fun σ before _ _ => ∀ guard ∈ guards,
        setting.TypedUnder σ before guard.condition .bool ∧
          setting.TypedUnder σ before guard.result expected := by
  induction guards generalizing n with
  | nil => exact .pure (fun _ _ => trivial) (by simp)
  | cons guard rest ih =>
      refine (setting.ensures_checkExpression hfree _ guard.condition Ty.all_con).bind hfree
        fun m _ hm _ => ?_
      refine (setting.ensures_checkExpression hfree _ guard.result (hexpected.of_le hm)).bind hfree
        fun k _ hk _ => ?_
      refine (ih (hexpected.of_le (Nat.le_trans hm hk))).mono ?_
      rintro σ _ _ _ hrest _ ⟨rfl, hresult⟩ _ ⟨rfl, hcondition⟩
      exact List.forall_mem_cons.mpr ⟨⟨hcondition, hresult⟩, hrest⟩

theorem ensures_requireResult (hfree : setting.aliases.VarFree) {n : Nat} {expected : Ty}
    (body : ClauseBody) (hexpected : expected.Below n) :
    (setting.requireResult expected body).Ensures setting.aliases n (fun _ _ => True)
      fun σ before _ _ => BodyTyped (.lenient setting.aliases) setting (before.under σ)
        (expected.subst σ) body := by
  cases body with
  | unguarded e =>
      exact (setting.ensures_checkExpression hfree _ e hexpected).mono fun _ _ _ _ h => h.2
  | guarded guards => exact setting.ensures_requireGuards hfree guards hexpected

theorem ensures_requireClause (hfree : setting.aliases.VarFree) {n : Nat} {inputs : List Ty}
    {output : Ty} (clause : Clause) (hinputs : ∀ t ∈ inputs, t.Below n) (houtput : output.Below n)
    (hfew : clause.parameters.length ≤ inputs.length) :
    (setting.requireClause clause inputs output).Ensures setting.aliases n (fun _ _ => True)
      fun σ before _ _ => ∃ Γ,
        MatchesAll (.lenient setting.aliases) setting (before.under σ) clause.parameters
          (Ty.substAll σ (inputs.take clause.parameters.length)) Γ ∧
        BodyTyped (.lenient setting.aliases) setting Γ
          ((Ty.curried (inputs.drop clause.parameters.length) output).subst σ) clause.result := by
  refine (setting.ensures_bindAll hfree clause.parameters hinputs).bind hfree fun m _ hm _ => ?_
  have hexpected : (Ty.curried (inputs.drop clause.parameters.length) output).Below m :=
    Ty.all_curried (fun t ht => (hinputs t (List.mem_of_mem_drop ht)).of_le hm) (houtput.of_le hm)
  refine (setting.ensures_requireResult hfree clause.result hexpected).mono ?_
  intro σ middle after _ hbody before hmatches
  exact ⟨middle.under σ, hmatches hfew, hbody⟩

/-- A clause that is checked without an error has an instance of its signature, however far
the session had come before. -/
theorem clauseTyped_of_checkClause (hfree : setting.aliases.VarFree) (signature : Signature)
    (clause : Clause) (session : Session)
    (h : ((setting.checkClause signature clause).run session.reset).1 = []) :
    ClauseTyped (.lenient setting.aliases) setting signature clause := by
  obtain ⟨⟨⟨inputs, output⟩, naming⟩, hlower⟩ :
      ∃ lowered, signature.lower.run ⟨{}, session.reset.next⟩ = lowered := ⟨_, rfl⟩
  obtain ⟨hfew, after, hgives⟩ := (setting.checkClause_eq_nil hlower).mp h
  obtain ⟨hinputs, houtput⟩ :=
    signature.below_lower ⟨{}, session.reset.next⟩ (below_no_names _)
  have hinstances := signature.instances_lower ⟨{}, session.reset.next⟩
    (Naming.values_valueOf (signature.lower.run ⟨{}, session.reset.next⟩).2 after.subst.image)
  rw [hlower] at hinputs houtput hinstances
  have htidy := Session.tidy_start setting.aliases session naming.next
  obtain ⟨hreaches, _, hclause⟩ :=
    setting.ensures_requireClause hfree clause hinputs houtput hfew _ _ _ (Nat.le_refl _) htidy
      hgives
  -- The session at the end is solved by its own substitution.
  obtain ⟨Γ, hmatches, hbody⟩ :=
    hclause after.subst.image ((hreaches.tidy hfree htidy).solves_image hfree)
  rw [Ty.subst_curried, List.map_drop] at hbody
  rw [Ty.substAll_eq_map] at hmatches
  rw [Ty.substAll_eq_map] at hinstances
  refine ⟨_, _, _, Γ, hinstances.1, hinstances.2, by simpa using hfew, ?_, hbody⟩
  rw [← List.map_take]
  exact hmatches

/-- The clause of `rotate` has its declared type. -/
theorem clauseTyped_rotation :
    ((Rotation.setting.checkClause Rotation.signature Rotation.clause).run
        (Session.reset { next := 7 })).1 = [] ∧
      ClauseTyped (.lenient Rotation.setting.aliases) Rotation.setting Rotation.signature
        Rotation.clause := by
  have h : ((Rotation.setting.checkClause Rotation.signature Rotation.clause).run
      (Session.reset { next := 7 })).1 = [] := by decide +kernel
  exact ⟨h, clauseTyped_of_checkClause _ Rotation.varFree _ _ _ h⟩

end Setting

end Rubric
