import Rubric.Proofs.Checker.Clause
import Rubric.Proofs.Checker.Outline
import Rubric.Proofs.Tree.Collection

/-!
# Signatures are curried

A signature with several inputs and one whose last inputs stand in a function type on the
right use up the same variable numbers and give the same type to every use of their name.
They can differ only for a clause with more parameters than the shorter one has inputs.
-/

namespace Rubric

theorem Ty.curried_append (first second : List Ty) (output : Ty) :
    Ty.curried (first ++ second) output = Ty.curried first (Ty.curried second output) := by
  induction first with
  | nil => rfl
  | cons t rest ih => exact congrArg (Ty.func t) ih

/-! ## Lowering -/

namespace TypeTerm

theorem run_lowerAll_append (first second : List TypeTerm) (naming : Naming) :
    (lowerAll (first ++ second)).run naming =
      let lowered := (lowerAll first).run naming
      let others := (lowerAll second).run lowered.2
      (lowered.1 ++ others.1, others.2) := by
  induction first generalizing naming with
  | nil => rfl
  | cons term rest ih =>
      have hrest := ih (term.lower.run naming).2
      rw [List.cons_append, lowerAll, lowerAll]
      exact congrArg (fun row => ((term.lower.run naming).1 :: row.1, row.2)) hrest

theorem length_lowerAll (terms : List TypeTerm) (naming : Naming) :
    ((lowerAll terms).run naming).1.length = terms.length := by
  induction terms generalizing naming with
  | nil => rfl
  | cons term rest ih =>
      rw [lowerAll]
      exact congrArg (· + 1) (ih _)

end TypeTerm

namespace Signature

/-- What is left of lowered inputs and their output when only some inputs count as such. -/
def splitRow (count : Nat) (row : List Ty × Ty) : List Ty × Ty :=
  (row.1.take count, .curried (row.1.drop count) row.2)

/-- The second signature takes a number of the inputs of the first and has the function of
the others as its output. -/
structure Splits (count : Nat) (whole split : Signature) : Prop where
  count_le : count ≤ whole.inputs.length
  lower : split.lower = splitRow count <$> whole.lower

/-- The inputs are numbered from left to right and the output comes last, on either side of
the arrow. -/
theorem splits_arrow (name : Symbol) (constraints : List Constraint)
    (inputs others : List TypeTerm) (output : TypeTerm) :
    Splits inputs.length ⟨name, constraints, inputs ++ others, output⟩
      ⟨name, constraints, inputs, .arrow others output⟩ where
  count_le := by simp
  lower := by
    have hwhole : ∀ naming, (lower ⟨name, constraints, inputs ++ others, output⟩).run naming =
        let row := (TypeTerm.lowerAll (inputs ++ others)).run naming
        let last := output.lower.run row.2
        ((row.1, last.1), last.2) := fun _ => rfl
    funext naming
    have hlength := TypeTerm.length_lowerAll inputs naming
    refine Eq.trans ?_ (congrArg (fun row => (splitRow inputs.length row.1, row.2))
      (hwhole naming)).symm
    rw [TypeTerm.run_lowerAll_append]
    dsimp only [splitRow]
    rw [← hlength, List.take_left, List.drop_left, lower]
    dsimp only
    rw [TypeTerm.lower]
    rfl

theorem length_lower (signature : Signature) (naming : Naming) :
    (signature.lower.run naming).1.1.length = signature.inputs.length :=
  TypeTerm.length_lowerAll signature.inputs naming

end Signature

theorem Check.lowering_map {α β : Type} (f : α → β) (names : Table String TypeVar)
    (term : StateM Naming α) :
    Check.lowering names (f <$> term) =
      (fun lowered => (f lowered.1, lowered.2)) <$> Check.lowering names term :=
  rfl

/-! ## Declarations -/

namespace Globals

/-- Declarations that differ in the signature of one name at most, of which the inputs are
split after a number of them. -/
structure Splits (name : String) (count : Nat) (whole split : Globals) : Prop where
  aliases : split.aliases = whole.aliases
  constructors : split.constructors = whole.constructors
  signatures : ∀ key, split.signatures.get? key = whole.signatures.get? key ∨
    key = name ∧ ∃ s s', whole.signatures.get? key = some s ∧
      split.signatures.get? key = some s' ∧ s.Splits count s'

variable {name : String} {count : Nat} {whole split : Globals}

/-- A declaration after the two signatures replaces both or neither. -/
theorem Splits.note (h : Splits name count whole split) (d : Declaration) :
    Splits name count (whole.note (.ofDeclaration d)) (split.note (.ofDeclaration d)) := by
  cases d with
  | typeAlias a => exact ⟨congrArg (·.insert a.name.value a.value) h.aliases, h.constructors,
      h.signatures⟩
  | function => exact h
  | record r =>
      simp only [Node.ofDeclaration, Globals.note, addConstructors_eq, h.constructors]
      exact ⟨h.aliases, rfl, h.signatures⟩
  | signature s =>
      refine ⟨h.aliases, h.constructors, fun key => ?_⟩
      simp only [Node.ofDeclaration, Globals.note, Table.get?_insert]
      by_cases hkey : s.name.value = key
      · simp [hkey]
      · simpa [hkey] using h.signatures key

theorem splits_collect (before after : List Declaration) {s s' : Signature}
    (hname : s'.name = s.name) (h : s.Splits count s') :
    Splits s.name.value count (collect ⟨before ++ .signature s :: after⟩)
      (collect ⟨before ++ .signature s' :: after⟩) := by
  have hafter : ∀ (declarations : List Declaration) (whole split : Globals),
      Splits s.name.value count whole split →
      Splits s.name.value count
        (declarations.foldl (fun globals d => globals.note (.ofDeclaration d)) whole)
        (declarations.foldl (fun globals d => globals.note (.ofDeclaration d)) split) := by
    intro declarations
    induction declarations with
    | nil => exact fun _ _ h => h
    | cons d rest ih => exact fun _ _ h => ih _ _ (h.note d)
  simp only [collect_eq, List.foldl_append, List.foldl_cons]
  refine hafter after _ _ ⟨rfl, rfl, fun key => ?_⟩
  simp only [Node.ofDeclaration, Globals.note, Table.get?_insert, hname]
  by_cases hkey : s.name.value = key
  · simp [hkey, h]
  · simp [hkey]

end Globals

/-! ## Checking -/

namespace Setting

variable {setting : Setting} {name : String} {count : Nat} {split : Globals}

/-- Every use of the name has the same type, and leaves the same variable numbers. -/
theorem lookup_withGlobals (h : setting.globals.Splits name count split) (key : String) :
    (setting.withGlobals split).lookup key = setting.lookup key := by
  have hglobals : (setting.withGlobals split).globals = split := rfl
  unfold lookup
  rw [hglobals, h.constructors]
  rcases h.signatures key with hsame | ⟨-, s, s', hs, hs', hsplits⟩
  · rw [hsame]
  · rw [hs, hs']
    simp only [hsplits.lower, Check.lowering_map, bind_map_left, Signature.splitRow,
      ← Ty.curried_append, List.take_append_drop]

theorem declares_withGlobals (h : setting.globals.Splits name count split) (scopes : Scopes)
    (key : String) :
    (setting.withGlobals split).declares scopes key = setting.declares scopes key := by
  have hglobals : (setting.withGlobals split).globals = split := rfl
  have hbound : split.signatures.contains key = setting.globals.signatures.contains key := by
    unfold Table.contains
    rcases h.signatures key with hsame | ⟨-, s, s', hs, hs', -⟩
    · rw [hsame]
    · rw [hs, hs']
      rfl
  unfold declares
  rw [hglobals, h.constructors, hbound]

theorem outlines_withGlobals (h : setting.globals.Splits name count split) :
    setting.Outlines split.outline where
  lookup key := ((setting.withGlobals split).lookup_outline key).trans (lookup_withGlobals h key)
  declares scopes key :=
    ((setting.withGlobals split).declares_outline scopes key).trans
      (declares_withGlobals h scopes key)
  constructors key := by
    refine ((setting.withGlobals split).get?_constructors_outline key).trans ?_
    exact congrArg (fun table => (table.get? key).map ConstructorInfo.outline) h.constructors

theorem checkClauses_withGlobals (h : setting.globals.Splits name count split)
    (group : FunctionGroup) (signature : Signature) (number : Nat) (clauses : List Clause) :
    (setting.withGlobals split).checkClauses group signature number clauses =
      setting.checkClauses group signature number clauses := by
  rw [← checkClauses_outline (outlines_withGlobals h) group signature number clauses]
  exact (checkClauses_outline (setting.withGlobals split).outlines_outline
    group signature number clauses).symm

/-- Patterns take no more types than there are patterns. -/
theorem bindAll_take (setting : Setting) (patterns : List Pattern) (types : List Ty) {count : Nat}
    (h : patterns.length ≤ count) :
    setting.bindAll patterns (types.take count) = setting.bindAll patterns types := by
  induction patterns generalizing types count with
  | nil =>
      rw [bindAll, bindAll]
      · simp
      · simp
  | cons pattern rest ih =>
      cases types with
      | nil => rw [List.take_nil]
      | cons t ts =>
          cases count with
          | zero => cases h
          | succ count =>
              rw [List.take_succ_cons, bindAll, bindAll, ih ts (Nat.le_of_succ_le_succ h)]

/-- The parameters are matched against inputs that both signatures have. What the shorter one
leaves of its inputs and has in its output is what the longer one leaves. -/
theorem checkClause_split {s s' : Signature} (h : s.Splits count s') (clause : Clause)
    (hfew : clause.parameters.length ≤ count) :
    setting.checkClause s' clause = setting.checkClause s clause := by
  funext session
  rcases hlower : s.lower.run ⟨{}, session.next⟩ with ⟨⟨inputs, output⟩, naming⟩
  have hlower' : s'.lower.run ⟨{}, session.next⟩ =
      ((inputs.take count, .curried (inputs.drop count) output), naming) := by
    rw [h.lower, StateT.run_map, hlower]
    rfl
  have hcount : count ≤ inputs.length := by
    have hlength := s.length_lower ⟨{}, session.next⟩
    rw [hlower] at hlength
    exact hlength ▸ h.count_le
  have htake : (inputs.take count).length = count := List.length_take_of_le hcount
  have hleft : (inputs.take count).drop clause.parameters.length ++ inputs.drop count =
      inputs.drop clause.parameters.length := by
    rw [← List.drop_append_of_le_length (by omega), List.take_append_drop]
  have hshort := setting.run_checkClause s' clause session hlower'
  have hlong := setting.run_checkClause s clause session hlower
  rw [checkAgainst, if_neg (by omega), bindAll_take setting _ _ hfew, ← Ty.curried_append,
    hleft] at hshort
  rw [checkAgainst, if_neg (by omega)] at hlong
  exact hshort.trans hlong.symm

theorem checkClauses_split {s s' : Signature} (h : s.Splits count s') (group : FunctionGroup)
    (number : Nat) (clauses : List Clause)
    (hfew : ∀ clause ∈ clauses, clause.parameters.length ≤ count) :
    setting.checkClauses group s' number clauses = setting.checkClauses group s number clauses := by
  induction clauses generalizing number with
  | nil => rfl
  | cons clause rest ih =>
      rw [checkClauses, checkClauses, checkClause_split h clause (hfew clause (by simp)), ih]
      intro other hmem
      exact hfew other (List.mem_cons_of_mem _ hmem)

theorem checkFunction_withGlobals (h : setting.globals.Splits name count split)
    (group : FunctionGroup) (hfew : group.name.value = name →
      ∀ clause ∈ group.clauses, clause.parameters.length ≤ count) :
    (setting.withGlobals split).checkFunction group = setting.checkFunction group := by
  have hglobals : (setting.withGlobals split).globals = split := rfl
  unfold checkFunction
  rw [hglobals]
  simp only [checkClauses_withGlobals h]
  rcases h.signatures group.name.value with hsame | ⟨hname, s, s', hs, hs', hsplits⟩
  · rw [hsame]
  · rw [hs, hs']
    exact checkClauses_split hsplits group 1 group.clauses (hfew hname)

theorem checkFunctions_withGlobals (h : setting.globals.Splits name count split)
    (groups : List FunctionGroup)
    (hfew : ∀ group ∈ groups, group.name.value = name →
      ∀ clause ∈ group.clauses, clause.parameters.length ≤ count) :
    (setting.withGlobals split).checkFunctions groups = setting.checkFunctions groups := by
  induction groups with
  | nil => rfl
  | cons group rest ih =>
      rw [checkFunctions, checkFunctions, checkFunction_withGlobals h group (hfew group (by simp)),
        ih]
      intro other hmem
      exact hfew other (List.mem_cons_of_mem _ hmem)

theorem ofGlobals_splits {whole : Globals} (h : whole.Splits name count split)
    (orders : Orders) :
    ofGlobals split orders =
      ((ofGlobals whole orders).1.withGlobals split, (ofGlobals whole orders).2) := by
  unfold ofGlobals
  rw [h.aliases]
  rfl

end Setting

namespace Program

/-- Moving the last inputs of a signature into a function type on the right changes no
diagnostic, not even the numbers of type variables, as long as no clause of a function of that
name has more parameters than there are inputs left. -/
theorem diagnostics_curried_signature (orders : Orders) (before after : List Declaration)
    (name : Symbol) (constraints : List Constraint) (inputs others : List TypeTerm)
    (output : TypeTerm)
    (hfew : ∀ group, .function group ∈ before ++ after → group.name.value = name.value →
      ∀ clause ∈ group.clauses, clause.parameters.length ≤ inputs.length) :
    diagnostics ⟨before ++
        .signature ⟨name, constraints, inputs, .arrow others output⟩ :: after⟩ orders =
      diagnostics ⟨before ++
        .signature ⟨name, constraints, inputs ++ others, output⟩ :: after⟩ orders := by
  have harrow := Signature.splits_arrow name constraints inputs others output
  have hsplits := Globals.splits_collect before after (by rfl) harrow
  have hfunctions : ∀ s : Signature,
      functions ⟨before ++ .signature s :: after⟩ = functions ⟨before ++ after⟩ := by
    intro s
    rw [functions, functions, List.filterMap_append, List.filterMap_append]
    rfl
  have hgroups : ∀ group ∈ functions ⟨before ++ after⟩, group.name.value = name.value →
      ∀ clause ∈ group.clauses, clause.parameters.length ≤ inputs.length := by
    intro group hmem
    obtain ⟨d, hd, hgroup⟩ := List.mem_filterMap.mp hmem
    cases d with
    | function g =>
        cases hgroup
        exact hfew group hd
    | _ => cases hgroup
  unfold diagnostics diagnosticsOf
  simp only [Node.filterMap_asFunction?, hfunctions, Setting.ofGlobals_splits hsplits]
  rw [Setting.checkFunctions_withGlobals hsplits _ hgroups]

/-- A function that answers its first parameter although it takes two, and a use of it that
leaves out the second. -/
def selection (inputs : List TypeTerm) (output : TypeTerm) : Program :=
  ⟨[.signature ⟨⟨"select", none, {}⟩, [], inputs, output⟩,
    .function ⟨⟨"select", none, {}⟩,
      [⟨[.var ⟨"x", none, {}⟩], .guarded [], .unguarded (.ofName "x"), []⟩]⟩,
    .signature ⟨⟨"chosen", none, {}⟩, [], [], .con "Bool"⟩,
    .function ⟨⟨"chosen", none, {}⟩, [⟨[], .guarded [],
      .unguarded (.application (.ofName "select") (.ofName "missing")), []⟩]⟩]⟩

theorem diagnostics_selection_curried :
    let split := selection [.var "a"] (.arrow [.var "b"] (.var "a"))
    split.diagnostics = (selection ([.var "a"] ++ [.var "b"]) (.var "a")).diagnostics ∧
      split.diagnostics =
        [⟨"select", 1, {}, .occurs ⟨0, some "a"⟩
            (.func (.var ⟨1, some "b"⟩) (.var ⟨0, some "a"⟩))⟩,
          ⟨"chosen", 1, {}, .mismatch (.con "Bool")
            (.func (.var ⟨3, some "b"⟩) (.var ⟨4, none⟩)) (some "return value")⟩] := by
  refine ⟨diagnostics_curried_signature {} [] _ _ _ [.var "a"] [.var "b"] _ ?_, ?_⟩
  · intro group hgroup hname clause hclause
    simp only [List.nil_append, List.mem_cons, Declaration.function.injEq, reduceCtorEq,
      false_or, List.not_mem_nil, or_false] at hgroup
    rcases hgroup with rfl | rfl
    · simp only [List.mem_singleton] at hclause
      rw [hclause]
      rfl
    · simp at hname
  · rw [diagnostics, Node.filterMap_asFunction?, diagnosticsOf, Globals.collect_eq]
    decide +kernel

end Program

end Rubric
