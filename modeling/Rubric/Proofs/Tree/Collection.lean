import Rubric.Inspection.Builtin
import Rubric.Proofs.Data.Rank
import Rubric.Proofs.Tree.Declarations

/-!
# What visitors collect

Declarations are collected, functions are checked and bindings are looked for by visitors
that walk the whole tree of a program. Nothing below a declaration calls one of their
handlers, so each of the three walks comes to a pass over the list of declarations. Tables
filled on such a pass hold the last binding of every key.
-/

namespace Rubric

/-! ## Tables filled from a list -/

section LastBindings

variable {κ α : Type}

/-- A binding after which its key is not bound again. -/
def LastBinding (bindings : List (κ × α)) (key : κ) (value : α) : Prop :=
  ∃ before after, bindings = before ++ (key, value) :: after ∧ ∀ later ∈ after, later.1 ≠ key

theorem lastBinding_append_singleton {bindings : List (κ × α)} {key k : κ} {value v : α} :
    LastBinding (bindings ++ [(k, v)]) key value ↔
      (k = key ∧ v = value) ∨ (k ≠ key ∧ LastBinding bindings key value) := by
  constructor
  · rintro ⟨before, after, heq, hlater⟩
    induction after using List.reverseRecOn with
    | nil =>
        obtain ⟨-, hlast⟩ := List.append_inj' heq rfl
        cases hlast
        exact .inl ⟨rfl, rfl⟩
    | append_singleton after last _ =>
        rw [← List.cons_append, ← List.append_assoc] at heq
        obtain ⟨hbindings, hlast⟩ := List.append_inj' heq rfl
        cases hlast
        refine .inr ⟨hlater (k, v) (by simp), before, after, hbindings, ?_⟩
        intro later hmem
        exact hlater later (List.mem_append_left _ hmem)
  · rintro (⟨rfl, rfl⟩ | ⟨hne, before, after, rfl, hlater⟩)
    · exact ⟨bindings, [], rfl, by simp⟩
    · refine ⟨before, after ++ [(k, v)], by simp, ?_⟩
      intro later hmem
      rcases List.mem_append.mp hmem with hmem | hmem
      · exact hlater later hmem
      · rw [List.mem_singleton] at hmem
        rw [hmem]
        exact hne

namespace Table

variable [DecidableEq κ]

/-- The table has the last binding of every key of a list, and nothing else. -/
structure Holds (table : Table κ α) (bindings : List (κ × α)) : Prop where
  get?_iff : ∀ key value, table.get? key = some value ↔ LastBinding bindings key value
  mem_iff : ∀ key value, (key, value) ∈ table.entries ↔ LastBinding bindings key value
  nodup : table.keys.Nodup

theorem holds_empty : Holds (empty : Table κ α) [] where
  get?_iff key value := by simp [LastBinding]
  mem_iff key value := by simp [empty, LastBinding]
  nodup := List.nodup_nil

theorem Holds.insert {table : Table κ α} {bindings : List (κ × α)} (h : table.Holds bindings)
    (k : κ) (v : α) : (table.insert k v).Holds (bindings ++ [(k, v)]) where
  get?_iff key value := by
    rw [get?_insert, lastBinding_append_singleton, ← h.get?_iff]
    by_cases hk : k = key <;> simp [hk]
  mem_iff key value := by
    rw [lastBinding_append_singleton, ← h.mem_iff]
    simp only [Table.insert, erase, List.mem_cons, List.mem_filter, Prod.mk.injEq]
    grind
  nodup := by
    have hsub : (table.erase k).keys.Sublist table.keys := List.filter_sublist.map Prod.fst
    have hfree : k ∉ (table.erase k).keys := by
      intro hmem
      obtain ⟨entry, hentry, rfl⟩ := List.mem_map.mp hmem
      simpa using (List.mem_filter.mp hentry).2
    exact List.nodup_cons.mpr ⟨hfree, h.nodup.sublist hsub⟩

theorem holds_ofList (bindings : List (κ × α)) : (ofList bindings).Holds bindings := by
  induction bindings using List.reverseRecOn with
  | nil => exact holds_empty
  | append_singleton bindings last ih =>
      rw [ofList, List.foldl_append]
      exact ih.insert last.1 last.2

end Table

end LastBindings

/-! ## Declarations -/

namespace Declaration

/-- The name that is declared. -/
def name : Declaration → Symbol
  | typeAlias a => a.name
  | signature s => s.name
  | function g => g.name
  | record r => r.name

/-- The signature of a declaration, by the name it is for. -/
def signatures : Declaration → List (String × Signature)
  | signature s => [(s.name.value, s)]
  | _ => []

/-- The alias of a declaration. -/
def aliases : Declaration → List (String × TypeTerm)
  | typeAlias a => [(a.name.value, a.value)]
  | _ => []

/-- The data constructors of a declaration, in the order in which they are listed. -/
def constructors : Declaration → List (String × ConstructorInfo)
  | record r => r.constructors.map fun c => (c.name, ⟨r.name.value, c.fields⟩)
  | _ => []

end Declaration

namespace Program

/-- The signatures of a program, in declaration order. -/
def signatures (program : Program) : List (String × Signature) :=
  program.declarations.flatMap Declaration.signatures

/-- The aliases of a program, in declaration order. -/
def aliases (program : Program) : List (String × TypeTerm) :=
  program.declarations.flatMap Declaration.aliases

/-- The data constructors of a program, in declaration order. -/
def constructors (program : Program) : List (String × ConstructorInfo) :=
  program.declarations.flatMap Declaration.constructors

end Program

/-- A walk whose handlers do not look at the parent is a fold over the nodes. -/
theorem walk_eq_foldl {σ : Type} {visitor : Visitor σ} {step : σ → Node → σ}
    (h : ∀ node parent state, visitor.handle node parent state = step state node)
    (node : Node) (state : σ) : walk visitor node state = node.subtree.foldl step state := by
  rw [walk, traverse_eq_foldl, Node.subtree, List.foldl_map]
  simp only [h]

namespace Globals

/-- The visitor that records signatures, aliases and data constructors. -/
def collector : Visitor Globals where
  signature s _ globals :=
    { globals with signatures := globals.signatures.insert s.name.value s }
  typeAlias a _ globals :=
    { globals with aliases := globals.aliases.insert a.name.value a.value }
  record r _ globals := r.constructors.foldl (addConstructor r.name.value) globals

theorem walk_collector (program : Program) :
    walk collector (.program program) {} = collect program := by
  refine walk_eq_foldl (fun node parent globals => ?_) _ _
  cases node <;> rfl

theorem addConstructors_eq (record : String) (constructors : List Constructor)
    (globals : Globals) :
    constructors.foldl (addConstructor record) globals =
      { globals with
        constructors := (constructors.map fun c => (c.name, ⟨record, c.fields⟩)).foldl
          (fun table entry => table.insert entry.1 entry.2) globals.constructors } := by
  induction constructors generalizing globals with
  | nil => rfl
  | cons c rest ih => exact ih (globals.addConstructor record c)

/-- A table that every declaration adds its own bindings to is filled with all of them. -/
theorem collect_table {α : Type} (table : Globals → Table String α)
    (bindings : Declaration → List (String × α)) (hempty : table {} = .empty)
    (hnote : ∀ globals d, table (globals.note (.ofDeclaration d)) =
      (bindings d).foldl (fun table entry => table.insert entry.1 entry.2) (table globals))
    (program : Program) :
    (table (collect program)).Holds (program.declarations.flatMap bindings) := by
  have hfold : ∀ (declarations : List Declaration) (globals : Globals),
      table (declarations.foldl (fun globals d => globals.note (.ofDeclaration d)) globals) =
        (declarations.flatMap bindings).foldl (fun table entry => table.insert entry.1 entry.2)
          (table globals) := by
    intro declarations
    induction declarations with
    | nil => exact fun _ => rfl
    | cons d rest ih =>
        intro globals
        rw [List.foldl_cons, ih, hnote, List.flatMap_cons, List.foldl_append]
  rw [collect_eq, hfold, hempty]
  exact Table.holds_ofList _

theorem holds_signatures (program : Program) :
    (collect program).signatures.Holds program.signatures := by
  refine collect_table signatures Declaration.signatures rfl (fun globals d => ?_) program
  cases d with
  | record r =>
      rw [Node.ofDeclaration, note, addConstructors_eq]
      rfl
  | _ => rfl

theorem holds_aliases (program : Program) :
    (collect program).aliases.Holds program.aliases := by
  refine collect_table aliases Declaration.aliases rfl (fun globals d => ?_) program
  cases d with
  | record r =>
      rw [Node.ofDeclaration, note, addConstructors_eq]
      rfl
  | _ => rfl

theorem holds_constructors (program : Program) :
    (collect program).constructors.Holds program.constructors := by
  refine collect_table constructors Declaration.constructors rfl (fun globals d => ?_) program
  cases d with
  | record r =>
      rw [Node.ofDeclaration, note, addConstructors_eq]
      rfl
  | _ => rfl

end Globals

/-! ## Functions -/

namespace Setting

variable (setting : Setting)

/-- Check a clause after the equations of the clause before it were dropped. -/
def checkAfresh (signature : Signature) (clause : Clause) : StateM Session (List TypeError) := do
  modify Session.reset
  setting.checkClause signature clause

/-- The errors of the clauses of a function as diagnostics, numbered from a given number
on. -/
def report (group : FunctionGroup) (number : Nat) (errors : List (List TypeError)) :
    List Diagnostic :=
  (errors.zipIdx number).flatMap fun entry =>
    entry.1.map (Diagnostic.mk group.name.value entry.2 group.name.loc)

theorem checkClauses_eq (group : FunctionGroup) (signature : Signature) (number : Nat)
    (clauses : List Clause) :
    setting.checkClauses group signature number clauses =
      report group number <$> clauses.mapM (setting.checkAfresh signature) := by
  induction clauses generalizing number with
  | nil => rfl
  | cons clause rest ih =>
      rw [checkClauses, List.mapM_cons, ih]
      rfl

theorem checkFunctions_eq (groups : List FunctionGroup) :
    setting.checkFunctions groups = List.flatten <$> groups.mapM setting.checkFunction := by
  induction groups with
  | nil => rfl
  | cons group rest ih =>
      rw [checkFunctions, List.mapM_cons, ih]
      rfl

theorem run_checkFunction_eq (group : FunctionGroup) (session : Session) :
    (setting.checkFunction group).run session =
      (setting.globals.signatures.get? group.name.value).elim ([], session) fun signature =>
        let rows := (group.clauses.mapM (setting.checkAfresh signature)).run session
        (report group 1 rows.1, rows.2) := by
  unfold checkFunction
  cases setting.globals.signatures.get? group.name.value with
  | none => rfl
  | some signature =>
      dsimp only [Option.elim_some]
      rw [checkClauses_eq]
      rfl

/-- The visitor that checks functions. Its state is the session and what was reported so
far. -/
def checker : Visitor (Session × List Diagnostic) where
  function group _ state :=
    let result := (setting.checkFunction group).run state.1
    (result.2, state.2 ++ result.1)

theorem walk_checker (node : Node) (session : Session) :
    (walk setting.checker node (session, [])).2 =
      ((setting.checkFunctions (node.subtree.filterMap Node.asFunction?)).run session).1 := by
  -- The state after some nodes, whatever was reported before them.
  have hrun : ∀ (nodes : List Node) (session : Session) (reported : List Diagnostic),
      nodes.foldl (fun state node => setting.checker.handle node none state)
          (session, reported) =
        let result := (setting.checkFunctions (nodes.filterMap Node.asFunction?)).run session
        (result.2, reported ++ result.1) := by
    intro nodes
    induction nodes with
    | nil =>
        intro session reported
        exact congrArg (Prod.mk session) (List.append_nil reported).symm
    | cons node rest ih =>
        intro session reported
        rw [List.foldl_cons]
        cases node with
        | function group =>
            refine (ih _ _).trans (congrArg (Prod.mk _) ?_)
            exact List.append_assoc _ _ _
        | _ => exact ih session reported
  rw [walk_eq_foldl (fun node parent state => ?_), hrun]
  · exact List.nil_append _
  · cases node <;> rfl

end Setting

/-! ## Bindings -/

namespace Builtin

/-- The visitor that looks for a declaration of a name. -/
def finder (name : String) : Visitor Bool where
  function g _ found := found || g.name.value == name
  typeAlias a _ found := found || a.name.value == name
  record r _ found := found || r.name.value == name
  signature s _ found := found || s.name.value == name

theorem walk_finder (program : Program) (name : String) :
    walk (finder name) (.program program) false = isBound program name := by
  have hstep : ∀ node parent found,
      (finder name).handle node parent found = (found || declares name node) := by
    intro node parent found
    cases node with
    | function | typeAlias | record | signature => rfl
    | _ => exact (Bool.or_false found).symm
  have hany : ∀ (nodes : List Node) (found : Bool),
      nodes.foldl (fun found node => found || declares name node) found =
        (found || nodes.any (declares name)) := by
    intro nodes
    induction nodes with
    | nil => simp
    | cons node rest ih =>
        intro found
        rw [List.foldl_cons, ih, List.any_cons, Bool.or_assoc]
  rw [walk_eq_foldl hstep, hany, Bool.false_or, isBound]

theorem isBound_iff (program : Program) (name : String) :
    isBound program name = true ↔ ∃ d ∈ program.declarations, d.name.value = name := by
  have hdeclares : ∀ node, declares name node = (node.isDeclaration && declares name node) := by
    intro node
    cases node <;> rfl
  have hname : declares name ∘ Node.ofDeclaration = fun d => d.name.value == name := by
    funext d
    cases d <;> rfl
  have hskip : isBound program name =
      ((Node.program program).subtree.filter Node.isDeclaration).any (declares name) := by
    rw [List.any_filter, isBound]
    exact congrArg _ (funext hdeclares)
  rw [hskip, Node.filter_subtree_program, List.any_cons, List.any_map, hname]
  simp [declares]

end Builtin

/-- Visitors that walk a whole program see its declarations only. The tables of signatures,
aliases and data constructors have the last declaration of every name and nothing else. The
diagnostics are those of the functions in declaration order, within one session: a function
without a signature reports nothing and leaves the session alone, and the clauses of any other
are numbered from one. A name is bound if a declaration has that name. -/
theorem visitors_see_declarations (program : Program) (orders : Orders) :
    let globals := Globals.collect program
    let setting := (Setting.ofGlobals globals orders).1
    let start : Session := { next := (Setting.ofGlobals globals orders).2 }
    (walk Globals.collector (.program program) {} = globals ∧
      globals.signatures.Holds program.signatures ∧
      globals.aliases.Holds program.aliases ∧
      globals.constructors.Holds program.constructors) ∧
    ((walk setting.checker (.program program) (start, [])).2 = program.diagnostics orders ∧
      program.diagnostics orders =
        ((program.functions.mapM setting.checkFunction).run start).1.flatten ∧
      ∀ group session, (setting.checkFunction group).run session =
        (globals.signatures.get? group.name.value).elim ([], session) fun signature =>
          let rows := (group.clauses.mapM (setting.checkAfresh signature)).run session
          (Setting.report group 1 rows.1, rows.2)) ∧
    ((∀ name, walk (Builtin.finder name) (.program program) false =
        Builtin.isBound program name) ∧
      ∀ args, Builtin.hasBinding.evaluate program args = true ↔
        ∃ d ∈ program.declarations, args.name? = some d.name.value) := by
  intro globals setting start
  have hdiagnostics : program.diagnostics orders =
      ((setting.checkFunctions program.functions).run start).1 := by
    rw [Program.diagnostics, Node.filterMap_asFunction?]
    rfl
  refine ⟨⟨Globals.walk_collector program, Globals.holds_signatures program,
    Globals.holds_aliases program, Globals.holds_constructors program⟩, ⟨?_, ?_, ?_⟩, ?_, ?_⟩
  · rw [setting.walk_checker, Node.filterMap_asFunction?, hdiagnostics]
  · rw [hdiagnostics, setting.checkFunctions_eq]
    rfl
  · exact fun group session => setting.run_checkFunction_eq group session
  · exact Builtin.walk_finder program
  · intro args
    unfold Builtin.evaluate
    cases args.name? with
    | none => simp
    | some name =>
        refine (Builtin.isBound_iff program name).trans ?_
        simp only [Option.some.injEq, eq_comm]

end Rubric
