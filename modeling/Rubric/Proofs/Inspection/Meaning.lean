import Rubric.Proofs.Inspection.Unread

/-!
# What the inspections of a function mean

An inspection that asks for a feature looks at the first function of the given name. The answer
is yes exactly if a clause of that function shows the feature; the question for the use of a text
is also answered by the name of the function itself. Nothing else in the program has a part in
the answer, and of the function only what is left of it when it is made bare.
-/

namespace Rubric

namespace Program

/-- A function is the first one of its name in a program. -/
def First (program : Program) (name : String) (group : FunctionGroup) : Prop :=
  group.name.value = name ∧ ∃ before after,
    program.declarations = before ++ .function group :: after ∧
    ∀ earlier, .function earlier ∈ before → earlier.name.value ≠ name

theorem function?_eq_some {program : Program} {name : String} {group : FunctionGroup} :
    program.function? name = some group ↔ program.First name group := by
  rw [function?, functions, List.find?_filterMap]
  simp only [Option.bind_eq_some_iff, List.find?_eq_some_iff_append]
  constructor
  · rintro ⟨d, ⟨hname, before, after, hprogram, hbefore⟩, hd⟩
    cases d <;> cases hd
    refine ⟨by simpa [Declaration.asFunction?] using hname, before, after, hprogram, ?_⟩
    intro earlier hmem
    simpa [Declaration.asFunction?] using hbefore _ hmem
  · rintro ⟨hname, before, after, hprogram, hbefore⟩
    refine ⟨.function group, ⟨by simpa [Declaration.asFunction?] using hname, before, after,
      hprogram, ?_⟩, rfl⟩
    intro d hmem
    cases d with
    | function earlier => simpa [Declaration.asFunction?] using hbefore earlier hmem
    | _ => rfl

end Program

namespace Builtin

/-- The feature that an inspection asks for. -/
def feature? (args : Arguments) : Builtin → Option Feature
  | usesAnonymousVariable => some .wildcard
  | uses => args.usage?.map .text
  | hasLambdaExpression => some .lambda
  | hasArithmetic => some .arithmetic
  | hasComposition => some .composition
  | hasBinding | usesGuards | hasPatternMatching => none

variable {program : Program} {args : Arguments} {name : String} {builtin : Builtin}
  {feature : Feature}

theorem evaluate_eq_below (hname : args.name? = some name)
    (hfeature : builtin.feature? args = some feature) :
    builtin.evaluate program args = below program name feature.isAt := by
  rw [evaluate, hname]
  cases builtin with
  | uses =>
      obtain ⟨usage, husage, rfl⟩ := Option.map_eq_some_iff.mp hfeature
      simp only [holds, husage]
      rfl
  | _ => cases hfeature <;> rfl

/-- The answer is yes if the first function of the name shows the feature. -/
theorem evaluate_eq_true_iff (hname : args.name? = some name)
    (hfeature : builtin.feature? args = some feature) :
    builtin.evaluate program args = true ↔ ∃ group, program.First name group ∧
      (feature = .text group.name.value ∨ ∃ c ∈ group.clauses, c.Shows feature) := by
  rw [evaluate_eq_below hname hfeature, below, Option.any_eq_true]
  exact exists_congr fun group =>
    and_congr Program.function?_eq_some (Node.any_subtree_iff (.function group) rfl)

/-- First functions that are the same when made bare are answered alike. -/
theorem evaluate_eq_of_bare (hname : args.name? = some name)
    (hfeature : builtin.feature? args = some feature) {other : Program}
    {group group' : FunctionGroup} (hgroup : program.First name group)
    (hgroup' : other.First name group') (hbare : group'.bare = group.bare) :
    builtin.evaluate other args = builtin.evaluate program args := by
  rw [evaluate_eq_below hname hfeature, evaluate_eq_below hname hfeature, below, below,
    Program.function?_eq_some.mpr hgroup, Program.function?_eq_some.mpr hgroup']
  have hany : ∀ g : FunctionGroup, (Node.function g).subtree.any feature.isAt =
      (Node.function g.bare).subtree.any feature.isAt :=
    fun g => (Node.any_subtree_bare feature (.function g) rfl).symm
  rw [Option.any_some, Option.any_some, hany group', hany group, hbare]

/-- The inspections that look for a lambda, an arithmetic operation, a composition or a wildcard
pattern say yes exactly if there is a function of the name and a clause of the first one has it,
at any depth. The one that looks for the use of a text says yes exactly if the first function has
it as its name or in a clause. None of them sees another declaration, or the texts that a bare
function is without. -/
theorem inspections_find_features (program : Program) (args : Arguments) (name : String)
    (hname : args.get? "name" = some (.string name)) :
    ((hasLambdaExpression.evaluate program args = true ↔
        ∃ group, program.First name group ∧ ∃ c ∈ group.clauses, c.Shows .lambda) ∧
      (hasArithmetic.evaluate program args = true ↔
        ∃ group, program.First name group ∧ ∃ c ∈ group.clauses, c.Shows .arithmetic) ∧
      (hasComposition.evaluate program args = true ↔
        ∃ group, program.First name group ∧ ∃ c ∈ group.clauses, c.Shows .composition) ∧
      (usesAnonymousVariable.evaluate program args = true ↔
        ∃ group, program.First name group ∧ ∃ c ∈ group.clauses, c.Shows .wildcard)) ∧
    (∀ usage, args.get? "usage" = some (.string usage) →
      (uses.evaluate program args = true ↔ ∃ group, program.First name group ∧
        (usage = group.name.value ∨ ∃ c ∈ group.clauses, c.Shows (.text usage)))) ∧
    ∀ builtin ∈ [hasLambdaExpression, hasArithmetic, hasComposition, usesAnonymousVariable, uses],
      ∀ other group group', program.First name group → other.First name group' →
        group'.bare = group.bare →
        builtin.evaluate other args = builtin.evaluate program args := by
  have hbinding : args.name? = some name := by rw [Arguments.name?, Arguments.string?, hname]; rfl
  have htext : ∀ usage, args.get? "usage" = some (.string usage) →
      uses.feature? args = some (.text usage) := by
    intro usage husage
    rw [feature?, Arguments.usage?, Arguments.string?, husage]
    rfl
  have hfind := fun builtin feature (hfeature : builtin.feature? args = some feature) =>
    @evaluate_eq_true_iff program args name builtin feature hbinding hfeature
  refine ⟨⟨?_, ?_, ?_, ?_⟩, fun usage husage => ?_, ?_⟩
  · simpa using hfind hasLambdaExpression _ rfl
  · simpa using hfind hasArithmetic _ rfl
  · simpa using hfind hasComposition _ rfl
  · simpa using hfind usesAnonymousVariable _ rfl
  · simpa using hfind uses _ (htext usage husage)
  · intro builtin hmem other group group' hgroup hgroup' hbare
    cases hfeature : builtin.feature? args with
    | some feature => exact evaluate_eq_of_bare hbinding hfeature hgroup hgroup' hbare
    | none =>
        -- only the use of a text can be asked for without a feature, and then the answer is no
        simp only [List.mem_cons, List.not_mem_nil, or_false] at hmem
        rcases hmem with rfl | rfl | rfl | rfl | rfl <;> try cases hfeature
        have husage : args.usage? = none := Option.map_eq_none_iff.mp hfeature
        simp only [evaluate, hbinding, holds, husage]

/-- A function `safe` with one guarded clause. It matches a pair of a list and anything, and its
guarded result is a lambda around a sum. -/
def sampleGroup : FunctionGroup :=
  let sum : Expression := .binary (.arithmetic .add) (.ofName "x") (.ofName "y")
  let result : Expression := .lambda [.var ⟨"y", none, {}⟩] sum
  ⟨⟨"safe", none, {}⟩,
    [{ parameters := [.constructor "Pair" [.literal (.list [.ofName "x"] {}), .wildcard]]
       body := .guarded [⟨.ofName "ready", result, result⟩]
       result := .guarded [⟨.ofName "ready", result, result⟩]
       attributes := ["guarded"] }]⟩

/-- A program that declares `safe` twice. -/
def sample : Program :=
  ⟨[.function sampleGroup, .function ⟨⟨"safe", none, {}⟩, []⟩]⟩

/-- The arguments that ask for the use of `x` in `safe`. -/
def sampleArgs : Arguments :=
  .ofList [("name", .string "safe"), ("usage", .string "x")]

/-- The lambda behind the guard is found, and the name in the list of the pattern. -/
theorem inspections_find_features_sample :
    sampleArgs.get? "name" = some (.string "safe") ∧
    sampleArgs.get? "usage" = some (.string "x") ∧
    hasLambdaExpression.evaluate sample sampleArgs = true ∧
    uses.evaluate sample sampleArgs = true := by
  have hname : sampleArgs.get? "name" = some (.string "safe") := rfl
  have husage : sampleArgs.get? "usage" = some (.string "x") := rfl
  have hfirst : sample.First "safe" sampleGroup := Program.function?_eq_some.mp rfl
  obtain ⟨⟨hlambda, -⟩, huses, -⟩ := inspections_find_features sample sampleArgs "safe" hname
  refine ⟨hname, husage, hlambda.mpr ?_, (huses "x" husage).mpr ?_⟩
  · exact ⟨sampleGroup, hfirst, _, .head _, .inr (.inl ⟨_, .head _, .inr (.inl .lambda)⟩)⟩
  · refine ⟨sampleGroup, hfirst, .inr ⟨_, .head _, .inl ⟨_, .head _, ?_⟩⟩⟩
    have hx : (Expression.ofName "x").Shows (.text "x") :=
      .primitive (@Primitive.Shows.symbol ⟨"x", none, {}⟩)
    exact .constructor (.head _) (.literal (.element (.head _) hx))

end Builtin

end Rubric
