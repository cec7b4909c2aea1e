import Mathlib.Data.List.Forall2
import Rubric.Proofs.Checker.Clause
import Rubric.Proofs.Checker.Renaming
import Rubric.Proofs.Tree.Declarations

/-!
# What a clause takes over from other clauses

Each clause starts without equations, without numeric literals and without names in scope.
What it takes over from the clauses before it is the next variable number. The checker looks
at that in one place only: the order in which it goes through the literals may depend on
their numbers, and if an equation gives several literals types that are not numeric, it is
the first one that is named.

So the errors of a clause in a whole program are those of the clause checked alone against
the other declarations, up to one offset of the variable numbers and with a suitable order of
the literals. Whatever the order is, the errors are the same but for the types that they name
for literals. With one and the same order they may differ in that.

Variables in alias bodies are left out. With them a run need not end.
-/

namespace Rubric

/-! ## Errors of a clause -/

namespace Renumbering

variable {setting : Setting} (r : Renumbering setting)

/-- The second computation reports on a related session the corresponding errors. -/
def Reports (x x' : StateM Session (List TypeError)) : Prop :=
  Mirrored r.Related (List.Forall₂ r.Matches) x x'

end Renumbering

namespace Setting

variable (setting : Setting) (r : Renumbering setting)

open Renumbering

theorem mirrored_checkExpression (context : String) (expected : Ty) (e : Expression) :
    r.Steps id (setting.checkExpression context expected e)
      (r.other.checkExpression context (r.type expected) e) :=
  (setting.mirrored_inferExpression r e).bind fun found =>
    setting.mirrored_constrainIn r context expected found

theorem reports_failure {step step' : Check Unit} (h : r.Steps id step step') :
    r.Reports (failure step) (failure step') := by
  refine Mirrored.bind h ?_
  rintro _ _ (_ | herror)
  · exact mirrored_pure .nil
  · exact mirrored_pure (.cons herror .nil)

theorem reports_checkGuards (expected : Ty) (guards : List Guard) :
    r.Reports (setting.checkGuards expected guards)
      (r.other.checkGuards (r.type expected) guards) := by
  induction guards with
  | nil => exact mirrored_pure .nil
  | cons guard rest ih =>
      have hcondition := setting.mirrored_checkExpression r "guard condition" .bool guard.condition
      have hresult := setting.mirrored_checkExpression r "guard result" expected guard.result
      refine Mirrored.bind (setting.reports_failure r hcondition) fun _ _ hfirst => ?_
      refine Mirrored.bind (setting.reports_failure r hresult) fun _ _ hsecond => ?_
      refine Mirrored.bind ih fun _ _ hrest => mirrored_pure ?_
      exact List.rel_append (List.rel_append hfirst hsecond) hrest

theorem reports_checkResult (expected : Ty) (body : ClauseBody) :
    r.Reports (setting.checkResult expected body)
      (r.other.checkResult (r.type expected) body) := by
  cases body with
  | unguarded e =>
      exact setting.reports_failure r (setting.mirrored_checkExpression r _ expected e)
  | guarded guards => exact setting.reports_checkGuards r expected guards

theorem reports_checkClause (signature : Signature) (clause : Clause) :
    r.Reports (setting.checkClause signature clause) (r.other.checkClause signature clause) := by
  intro session session' hrelated
  obtain ⟨⟨⟨inputs, output⟩, naming⟩, hlower⟩ :
      ∃ lowered, signature.lower.run ⟨{}, session.next⟩ = lowered := ⟨_, rfl⟩
  obtain ⟨⟨answer, naming'⟩, hlower'⟩ :
      ∃ lowered, signature.lower.run ⟨{}, session'.next⟩ = lowered := ⟨_, rfl⟩
  obtain ⟨hanswer, hnamings⟩ := r.lowers_signature signature ⟨{}, session.next⟩
    ⟨{}, session'.next⟩ ⟨r.names_nothing, hrelated.counts⟩
  rw [hlower, hlower'] at hanswer hnamings
  cases hanswer
  rw [setting.run_checkClause signature clause session hlower,
    r.other.run_checkClause signature clause session' hlower']
  -- From here on the two runs differ in the inputs, the output and the session only.
  unfold checkAgainst
  rw [List.length_map, ← List.map_drop, r.curried_type]
  refine (?_ : r.Reports _ _) { session with scopes := .empty, next := naming.next }
    { session' with scopes := .empty, next := naming'.next }
    ⟨hnamings.counts, hrelated.subst, hrelated.numeric, fun _ => rfl⟩
  split
  · exact mirrored_pure (.cons (.inl rfl) .nil)
  · refine Mirrored.bind (setting.mirrored_bindAll r clause.parameters inputs) ?_
    rintro _ _ (_ | herror)
    · exact setting.reports_checkResult r _ clause.result
    · exact mirrored_pure (.cons herror .nil)

end Setting

/-! ## One offset for all numbers -/

namespace TypeVar

/-- Add an offset to the number of a variable. -/
def raise (offset : Nat) (v : TypeVar) : TypeVar :=
  { v with id := v.id + offset }

def lower (offset : Nat) (v : TypeVar) : TypeVar :=
  { v with id := v.id - offset }

theorem lower_raise (offset : Nat) (v : TypeVar) : (v.raise offset).lower offset = v :=
  congrArg (TypeVar.mk · v.name) (Nat.add_sub_cancel v.id offset)

theorem raise_injective (offset : Nat) : Function.Injective (raise offset) :=
  Function.LeftInverse.injective (lower_raise offset)

end TypeVar

namespace Arrangement

variable (order : Arrangement TypeVar) (offset : Nat)

theorem perm_map_lower (vs : List TypeVar) :
    ((order.arrange (vs.map (.raise offset))).map (.lower offset)).Perm vs := by
  have hperm := (order.perm (vs.map (.raise offset))).map (TypeVar.lower offset)
  rwa [List.map_map, show TypeVar.lower offset ∘ TypeVar.raise offset = id from
    funext (TypeVar.lower_raise offset), List.map_id] at hperm

/-- The order of a run as it looks before an offset is added to the numbers. -/
def lowered : Arrangement TypeVar where
  arrange vs := (order.arrange (vs.map (.raise offset))).map (.lower offset)
  perm := order.perm_map_lower offset

theorem map_raise_lowered (vs : List TypeVar) :
    ((order.lowered offset).arrange vs).map (.raise offset) =
      order.arrange (vs.map (.raise offset)) := by
  show ((order.arrange _).map _).map _ = _
  rw [List.map_map]
  refine (List.map_congr_left fun v hv => ?_).trans (List.map_id _)
  obtain ⟨w, _, rfl⟩ := List.mem_map.mp ((order.mem_arrange _ v).mp hv)
  exact congrArg (TypeVar.raise offset) (w.lower_raise offset)

end Arrangement

namespace Renumbering

variable {setting : Setting} (hfree : setting.aliases.VarFree) (first offset : Nat)

/-- The second session is the first one with an offset added to all numbers, and its literals
are gone through in any order. -/
def raising (literals : Arrangement TypeVar) : Renumbering setting where
  first := first
  target := first + offset
  rename := TypeVar.raise offset
  moves n name := congrArg (TypeVar.mk · name) (Nat.add_right_comm first n offset)
  injective := TypeVar.raise_injective offset
  fixes := hfree.all _
  alike s s' := s' = s.rename (TypeVar.raise offset)
  apply_alike := by
    rintro s _ rfl t
    exact Substitution.apply_rename (TypeVar.raise_injective offset) s t
  compose_alike := by
    rintro s _ _ _ solution rfl _
    exact Substitution.compose_rename (TypeVar.raise_injective offset) s solution
  literals := literals
  named _ _ := True
  named_of_refused _ _ _ _ _ _ _ _ := trivial

theorem nonNumeric?_rename (r : Renumbering setting) (numeric : List TypeVar)
    {subst subst' : Substitution} (h : r.alike subst subst') :
    Session.nonNumeric? setting.aliases (numeric.map r.rename) subst' =
      (Session.nonNumeric? setting.aliases numeric subst).map r.type := by
  have hresolved : (numeric.map r.rename).map (fun v => subst'.apply (.var v)) =
      (numeric.map fun v => subst.apply (.var v)).map r.type := by
    rw [List.map_map, List.map_map]
    exact List.map_congr_left fun v _ => r.apply_alike _ _ h (.var v)
  unfold Session.nonNumeric?
  rw [hresolved, List.find?_map]
  simp only [Function.comp_def, r.mayBeNumeric_type]

include hfree in
theorem nonNumeric?_lowered (literals : Arrangement TypeVar) (numeric : List TypeVar)
    (subst : Substitution) :
    Session.nonNumeric? setting.aliases (literals.arrange (numeric.map (.raise offset)))
        (subst.rename (.raise offset)) =
      (Session.nonNumeric? setting.aliases ((literals.lowered offset).arrange numeric) subst).map
        (Ty.rename (.raise offset)) := by
  rw [← literals.map_raise_lowered]
  exact (raising hfree 0 offset literals).nonNumeric?_rename _ rfl

/-- If the first run goes through its literals in the order of the second, both name the
same literal. -/
def matching (literals : Arrangement TypeVar) :
    Renumbering (setting.visiting (literals.lowered offset)) :=
  { (raising hfree first offset literals :
      Renumbering (setting.visiting (literals.lowered offset))) with
    named := fun t t' => t' = t.rename (TypeVar.raise offset)
    named_of_refused := by
      rintro s _ numeric t t' rfl hfirst hsecond
      have hsame := nonNumeric?_lowered hfree offset literals numeric s
      exact Option.some.inj (hsecond.symm.trans
        (hsame.trans (congrArg (Option.map (Ty.rename (.raise offset))) hfirst))) }

theorem matches_matching {literals : Arrangement TypeVar} {error error' : TypeError}
    (h : (matching hfree first offset literals).Matches error error') :
    error' = error.rename (.raise offset) := by
  rcases h with h | ⟨t, t', rfl, rfl, hnamed⟩
  · exact h
  · exact congrArg TypeError.nonNumericLiteral hnamed

end Renumbering

namespace TypeError

/-- The errors are the same, or both name a literal. -/
def SameButLiteral (error error' : TypeError) : Prop :=
  error' = error ∨ ∃ t t', error = .nonNumericLiteral t ∧ error' = .nonNumericLiteral t'

theorem rename_raise_zero (error : TypeError) : error.rename (.raise 0) = error := by
  have hsame : ∀ t : Ty, t.rename (.raise 0) = t := fun t => Ty.rename_eq_self fun _ _ => rfl
  cases error <;> simp [rename, hsame, TypeVar.raise]

end TypeError

/-- Diagnostics of one clause with the same error but for the type named for a literal. -/
def Diagnostic.SameButLiteral (diagnostic diagnostic' : Diagnostic) : Prop :=
  diagnostic' = { diagnostic with error := diagnostic'.error } ∧
    diagnostic.error.SameButLiteral diagnostic'.error

namespace Setting

variable (setting : Setting)

theorem globals_visiting (literals : Arrangement TypeVar) :
    (setting.visiting literals).globals = setting.globals := rfl

theorem ofGlobals_literals (globals : Globals) (orders : Orders) (literals : Arrangement TypeVar) :
    ofGlobals globals { orders with literals } =
      ((ofGlobals globals orders).1.visiting literals, (ofGlobals globals orders).2) := rfl

/-- The errors of a clause that nothing was checked before. -/
def errorsAlone (first : Nat) (signature : Signature) (clause : Clause) : List TypeError :=
  ((setting.checkClause signature clause).run { next := first }).1

variable {first : Nat} (signature : Signature) (clause : Clause)

/-- The order of the literals decides which of them is named, and nothing else. -/
theorem errorsAlone_visiting (hfree : setting.aliases.VarFree) (literals : Arrangement TypeVar) :
    List.Forall₂ TypeError.SameButLiteral (setting.errorsAlone first signature clause)
      ((setting.visiting literals).errorsAlone first signature clause) := by
  let r := Renumbering.raising hfree first 0 literals
  have hreports := setting.reports_checkClause r signature clause { next := first }
    { next := first } ⟨r.counts_first, rfl, rfl, fun _ => rfl⟩
  refine hreports.1.imp fun error error' h => ?_
  rcases h with rfl | ⟨t, t', rfl, rfl, _⟩
  · exact .inl error.rename_raise_zero
  · exact .inr ⟨t, t', rfl, rfl⟩

/-- In a session that has checked other clauses before, the errors are those of the clause
alone for a suitable order of the literals, with the numbers of all variables moved. -/
theorem run_checkClause_reset (hfree : setting.aliases.VarFree) {session : Session}
    (hsession : first ≤ session.next) :
    first ≤ ((setting.checkClause signature clause).run session.reset).2.next ∧
      ((setting.checkClause signature clause).run session.reset).1 =
        ((setting.visiting (setting.literals.lowered (session.next - first))).errorsAlone first
          signature clause).map (TypeError.rename (.raise (session.next - first))) := by
  let r := Renumbering.matching hfree first (session.next - first) setting.literals
  have hnext : first + (session.next - first) = session.next := by omega
  -- The names in scope are dropped at the start of a clause.
  have hstart : (setting.checkClause signature clause).run session.reset =
      (setting.checkClause signature clause).run { next := first + (session.next - first) } := by
    rw [hnext]
    rfl
  obtain ⟨herrors, hrelated⟩ := reports_checkClause _ r signature clause { next := first }
    { next := first + (session.next - first) } ⟨r.counts_first, rfl, rfl, fun _ => rfl⟩
  obtain ⟨taken, _, htaken⟩ := hrelated.counts
  have hother : r.other = setting := rfl
  rw [hother] at herrors htaken
  rw [hstart]
  refine ⟨?_, ?_⟩
  · have htarget : r.target = first + (session.next - first) := rfl
    omega
  · rw [← List.forall₂_eq_eq_eq, List.forall₂_map_right_iff]
    exact herrors.flip.imp fun _ _ h => Renumbering.matches_matching hfree _ _ h

/-- What is chosen for the first entry and for the later ones is chosen by position. -/
theorem exists_flatMap_zipIdx_cons {α β γ : Type} (block : α → Nat → γ → List β) (x : α)
    (rest : List α) (start : Nat) (choice : γ) (choices : Nat → γ) :
    ∃ choices' : Nat → γ,
      ((x :: rest).zipIdx start).flatMap (fun entry => block entry.1 entry.2 (choices' entry.2)) =
        block x start choice ++ (rest.zipIdx (start + 1)).flatMap fun entry =>
          block entry.1 entry.2 (choices entry.2) := by
  refine ⟨fun i => if i = start then choice else choices i, ?_⟩
  rw [List.zipIdx_cons, List.flatMap_cons]
  dsimp only
  rw [if_pos rfl]
  refine congrArg (block x start choice ++ ·) (List.flatMap_congr fun entry hentry => ?_)
  have hle := List.le_snd_of_mem_zipIdx hentry
  rw [if_neg (by omega)]

/-- The diagnostics of a clause with a number, from the errors of the clause alone for an
order of the literals. -/
def diagnosticsAlone (first : Nat) (name : Symbol) (number offset : Nat)
    (literals : Arrangement TypeVar) (clause : Clause) : List Diagnostic :=
  match setting.globals.signatures.get? name.value with
  | none => []
  | some signature =>
      ((setting.visiting literals).errorsAlone first signature clause).map fun error =>
        ⟨name.value, number, name.loc, error.rename (.raise offset)⟩

theorem run_checkClauses (hfree : setting.aliases.VarFree)
    {group : FunctionGroup} (hsignature :
      setting.globals.signatures.get? group.name.value = some signature)
    (clauses : List Clause) (number : Nat) {session : Session} (hsession : first ≤ session.next) :
    first ≤ ((setting.checkClauses group signature number clauses).run session).2.next ∧
      ∃ choice : Nat → Nat × Arrangement TypeVar,
        ((setting.checkClauses group signature number clauses).run session).1 =
          (clauses.zipIdx number).flatMap fun entry => setting.diagnosticsAlone first group.name
            entry.2 (choice entry.2).1 (choice entry.2).2 entry.1 := by
  induction clauses generalizing number session with
  | nil => exact ⟨hsession, fun _ => (0, .listed), rfl⟩
  | cons clause rest ih =>
      let offset := session.next - first
      obtain ⟨hnext, herrors⟩ := setting.run_checkClause_reset signature clause hfree hsession
      obtain ⟨hlast, choice, hrest⟩ := ih (number + 1) hnext
      have hfirst : (((setting.checkClause signature clause).run session.reset).1).map
          (Diagnostic.mk group.name.value number group.name.loc) =
            setting.diagnosticsAlone first group.name number offset
              (setting.literals.lowered offset) clause := by
        rw [herrors, diagnosticsAlone, hsignature, List.map_map]
        rfl
      obtain ⟨choice', hchoice⟩ := exists_flatMap_zipIdx_cons
        (fun clause number (choice : Nat × Arrangement TypeVar) =>
          setting.diagnosticsAlone first group.name number choice.1 choice.2 clause)
        clause rest number (offset, setting.literals.lowered offset) choice
      refine ⟨hlast, choice', ?_⟩
      rw [hchoice, ← hrest, ← hfirst]
      rfl

theorem run_checkFunction (hfree : setting.aliases.VarFree) (group : FunctionGroup)
    {session : Session} (hsession : first ≤ session.next) :
    first ≤ ((setting.checkFunction group).run session).2.next ∧
      ∃ choice : Nat → Nat × Arrangement TypeVar,
        ((setting.checkFunction group).run session).1 =
          (group.clauses.zipIdx 1).flatMap fun entry => setting.diagnosticsAlone first group.name
            entry.2 (choice entry.2).1 (choice entry.2).2 entry.1 := by
  unfold checkFunction
  cases hsignature : setting.globals.signatures.get? group.name.value with
  | some signature => exact setting.run_checkClauses signature hfree hsignature _ _ hsession
  | none =>
      refine ⟨hsession, fun _ => (0, .listed), ?_⟩
      have hnone : ∀ number clause,
          setting.diagnosticsAlone first group.name number 0 .listed clause = [] := by
        intro number clause
        rw [diagnosticsAlone, hsignature]
      have hall : (group.clauses.zipIdx 1).flatMap (fun entry =>
          setting.diagnosticsAlone first group.name entry.2 0 .listed entry.1) = [] :=
        List.flatMap_eq_nil_iff.mpr fun entry _ => hnone entry.2 entry.1
      rw [hall]
      rfl

theorem run_checkFunctions (hfree : setting.aliases.VarFree) (groups : List FunctionGroup)
    (index : Nat) {session : Session} (hsession : first ≤ session.next) :
    ∃ choice : Nat → Nat → Nat × Arrangement TypeVar,
      ((setting.checkFunctions groups).run session).1 =
        (groups.zipIdx index).flatMap fun group =>
          (group.1.clauses.zipIdx 1).flatMap fun entry =>
            setting.diagnosticsAlone first group.1.name entry.2 (choice group.2 entry.2).1
              (choice group.2 entry.2).2 entry.1 := by
  induction groups generalizing index session with
  | nil => exact ⟨fun _ _ => (0, .listed), rfl⟩
  | cons group rest ih =>
      obtain ⟨hnext, choice, hgroup⟩ := setting.run_checkFunction hfree group hsession
      obtain ⟨choices, hrest⟩ := ih (index + 1) hnext
      obtain ⟨choices', hchoices⟩ := exists_flatMap_zipIdx_cons
        (fun (group : FunctionGroup) _ (choice : Nat → Nat × Arrangement TypeVar) =>
          (group.clauses.zipIdx 1).flatMap fun entry => setting.diagnosticsAlone first group.name
            entry.2 (choice entry.2).1 (choice entry.2).2 entry.1)
        group rest index choice choices
      refine ⟨choices', ?_⟩
      rw [hchoices, ← hrest, ← hgroup]
      rfl

theorem run_checkFunctions_single (name : Symbol) :
    ((setting.checkFunctions [⟨name, [clause]⟩]).run { next := first }).1 =
      match setting.globals.signatures.get? name.value with
      | none => []
      | some signature => (setting.errorsAlone first signature clause).map
          (Diagnostic.mk name.value 1 name.loc) := by
  rw [checkFunctions, run_bind, run_bind, checkFunctions, checkFunction]
  cases setting.globals.signatures.get? name.value with
  | none => rfl
  | some signature =>
      show ((setting.errorsAlone first signature clause).map _ ++ []) ++ [] = _
      rw [List.append_nil, List.append_nil]

theorem checkFunctions_visiting (hfree : setting.aliases.VarFree)
    (literals : Arrangement TypeVar) (name : Symbol) :
    List.Forall₂ Diagnostic.SameButLiteral
      ((setting.checkFunctions [⟨name, [clause]⟩]).run { next := first }).1
      (((setting.visiting literals).checkFunctions [⟨name, [clause]⟩]).run
        { next := first }).1 := by
  rw [run_checkFunctions_single, run_checkFunctions_single, globals_visiting]
  cases setting.globals.signatures.get? name.value with
  | none => exact .nil
  | some signature =>
      rw [List.forall₂_map_left_iff, List.forall₂_map_right_iff]
      exact (setting.errorsAlone_visiting signature clause hfree literals).imp fun _ _ h => ⟨rfl, h⟩

end Setting

/-! ## Programs -/

namespace Program

/-- The declarations of a program that are no functions. -/
def background (program : Program) : List Declaration :=
  program.declarations.filter fun d => d.asFunction?.isNone

/-- A program with one clause of one function and the given other declarations. -/
def withClause (background : List Declaration) (name : Symbol) (clause : Clause) : Program :=
  ⟨background ++ [.function ⟨name, [clause]⟩]⟩

/-- The diagnostics of a clause that stands alone among the declarations that are no
functions, with the number of the clause and with an offset added to all variable numbers. -/
def clauseDiagnostics (program : Program) (orders : Orders) (name : Symbol) (clause : Clause)
    (number offset : Nat) : List Diagnostic :=
  ((withClause program.background name clause).diagnostics orders).map fun diagnostic =>
    { diagnostic with
      clause := number
      error := diagnostic.error.rename (.raise offset) }

/-- The diagnostics of all clauses of a program, each taken alone with an order of the
literals and an offset of its own. -/
def clausewise (program : Program) (orders : Orders) (offset : Nat → Nat → Nat)
    (literals : Nat → Nat → Arrangement TypeVar) : List Diagnostic :=
  program.functions.zipIdx.flatMap fun group =>
    (group.1.clauses.zipIdx 1).flatMap fun clause =>
      program.clauseDiagnostics { orders with literals := literals group.2 clause.2 }
        group.1.name clause.1 clause.2 (offset group.2 clause.2)

/-- Functions declare nothing that is collected. -/
theorem collect_withClause (program : Program) (name : Symbol) (clause : Clause) :
    Globals.collect (withClause program.background name clause) = Globals.collect program := by
  rw [Globals.collect_eq, Globals.collect_eq, withClause, background, List.foldl_append,
    List.foldl_filter]
  show program.declarations.foldl _ _ = _
  refine List.foldl_ext _ _ _ fun globals d _ => ?_
  cases d <;> rfl

theorem functions_withClause (program : Program) (name : Symbol) (clause : Clause) :
    (withClause program.background name clause).functions = [⟨name, [clause]⟩] := by
  have hnone : program.background.filterMap Declaration.asFunction? = [] := by
    refine List.filterMap_eq_nil_iff.mpr fun d hd => ?_
    simpa using (List.mem_filter.mp hd).2
  simp [withClause, functions, hnone, Declaration.asFunction?]

theorem diagnostics_withClause (program : Program) (orders : Orders) (name : Symbol)
    (clause : Clause) :
    (withClause program.background name clause).diagnostics orders =
      (((Setting.ofGlobals (.collect program) orders).1.checkFunctions [⟨name, [clause]⟩]).run
        { next := (Setting.ofGlobals (.collect program) orders).2 }).1 := by
  rw [diagnostics, Node.filterMap_asFunction?, functions_withClause, diagnosticsOf,
    collect_withClause]

theorem clauseDiagnostics_eq (program : Program) (orders : Orders) (name : Symbol)
    (clause : Clause) (number offset : Nat) (literals : Arrangement TypeVar) :
    program.clauseDiagnostics { orders with literals } name clause number offset =
      (Setting.ofGlobals (.collect program) orders).1.diagnosticsAlone
        (Setting.ofGlobals (.collect program) orders).2 name number offset literals clause := by
  let setting := (Setting.ofGlobals (.collect program) orders).1
  rw [clauseDiagnostics, diagnostics_withClause, Setting.ofGlobals_literals,
    Setting.run_checkFunctions_single, Setting.globals_visiting, Setting.diagnosticsAlone]
  cases setting.globals.signatures.get? name.value with
  | none => rfl
  | some signature =>
      rw [List.map_map]
      rfl

/-- The diagnostics of a program are those of its clauses. Each clause has those that it has
alone, up to one offset of the variable numbers, if its literals are gone through in a suitable
order. For any two orders, the diagnostics of a clause alone are the same but for the types
named for literals. -/
theorem diagnostics_of_clauses (program : Program) (orders : Orders)
    (hfree : (Setting.ofGlobals (.collect program) orders).1.aliases.VarFree) :
    (∃ offset literals, program.diagnostics orders = program.clausewise orders offset literals) ∧
    ∀ name clause literals, List.Forall₂ Diagnostic.SameButLiteral
      ((withClause program.background name clause).diagnostics orders)
      ((withClause program.background name clause).diagnostics { orders with literals }) := by
  let start : Session := { next := (Setting.ofGlobals (.collect program) orders).2 }
  refine ⟨?_, ?_⟩
  · obtain ⟨choice, hrun⟩ := Setting.run_checkFunctions _ hfree program.functions 0
      (Nat.le_refl start.next)
    refine ⟨fun index number => (choice index number).1,
      fun index number => (choice index number).2, ?_⟩
    simp only [clausewise, clauseDiagnostics_eq]
    rw [diagnostics, Node.filterMap_asFunction?]
    exact hrun
  · intro name clause literals
    rw [diagnostics_withClause, diagnostics_withClause, Setting.ofGlobals_literals]
    exact Setting.checkFunctions_visiting _ clause hfree literals name

end Program

/-! ## An example

The two literals of `f` both get types that are not numeric, and by one equation:

    g : Int
    f : (String, Bool)

    g = undefined
    f = (1, 2)

The order of the literals is one that a table of few places has for small numbers.
-/

namespace Blaming

def literal (value : Float) : Expression :=
  .primitive (.number "number" value {})

def program : Program where
  declarations :=
    [.signature ⟨⟨"g", none, {}⟩, [], [], .con "Int"⟩,
      .signature ⟨⟨"f", none, {}⟩, [], [], .tuple [.con "String", .con "Bool"]⟩,
      .function ⟨⟨"g", none, {}⟩, [.ofExpression [] (.primitive (.undefined {}))]⟩,
      .function ⟨⟨"f", none, {}⟩, [.ofExpression [] (.tuple [literal 1, literal 2])]⟩]

def evenFirst : Arrangement TypeVar where
  arrange vs := vs.filter (fun v => v.id % 2 == 0) ++ vs.filter fun v => !(v.id % 2 == 0)
  perm vs := List.filter_append_perm _ vs

def orders : Orders := { literals := evenFirst }

theorem varFree : (Setting.ofGlobals (.collect program) orders).1.aliases.VarFree := by
  rw [Globals.collect_eq]
  exact Aliases.varFree_empty

theorem diagnostics_eq :
    program.diagnostics orders = [⟨"f", 1, {}, .nonNumericLiteral (.con "Bool")⟩] := by
  rw [Program.diagnostics, Node.filterMap_asFunction?, Program.diagnosticsOf, Globals.collect_eq]
  rfl

theorem diagnostics_of_clauses_pair :
    (Setting.ofGlobals (.collect program) orders).1.aliases.VarFree ∧
      program.diagnostics orders = [⟨"f", 1, {}, .nonNumericLiteral (.con "Bool")⟩] ∧
      ∃ offset literals, program.diagnostics orders =
        program.clausewise orders offset literals :=
  ⟨varFree, diagnostics_eq, (Program.diagnostics_of_clauses program orders varFree).1⟩

/-- With one and the same order, the whole program names the type of the second literal of `f`
and the clause alone that of the first. No offset makes up for that. -/
theorem diagnostics_ne_clausewise :
    program.diagnostics orders = [⟨"f", 1, {}, .nonNumericLiteral (.con "Bool")⟩] ∧
      ∀ offset, program.clausewise orders offset (fun _ _ => orders.literals) =
        [⟨"f", 1, {}, .nonNumericLiteral (.con "String")⟩] := by
  refine ⟨diagnostics_eq, fun offset => ?_⟩
  simp only [Program.clausewise, Program.clauseDiagnostics, Program.diagnostics_withClause]
  rw [Globals.collect_eq]
  rfl

end Blaming

end Rubric
