import Rubric.Proofs.Checker.Ensures
import Rubric.Proofs.Checker.History
import Rubric.Proofs.Tree.Collection

/-!
# What patterns bind

Matching a pattern against a type takes the type apart on the way and gives every variable
of the pattern the part that it stands for. Which parts these are depends on the session.
The names do not: they are those that the pattern lists, in order, and a step that fails
has come to some place in that list. Expressions inside of literals have scopes of their
own, which are closed again, so nothing else is bound and no outer scope is touched.
-/

namespace Rubric

/-! ## Binding one name after the other -/

theorem exists_lastBinding {κ α : Type} {bindings : List (κ × α)} {key : κ}
    (h : key ∈ bindings.map Prod.fst) : ∃ value, LastBinding bindings key value := by
  induction bindings using List.reverseRecOn with
  | nil => simp at h
  | append_singleton bindings last ih =>
      obtain ⟨k, v⟩ := last
      by_cases hk : k = key
      · exact ⟨v, lastBinding_append_singleton.mpr (.inl ⟨hk, rfl⟩)⟩
      · have hmem : key ∈ bindings.map Prod.fst := by
          simpa [Ne.symm hk] using h
        obtain ⟨value, hvalue⟩ := ih hmem
        exact ⟨value, lastBinding_append_singleton.mpr (.inr ⟨hk, hvalue⟩)⟩

namespace Scopes

/-- Bind names in the innermost scope, one after the other. -/
def insertAll (scopes : Scopes) (bindings : List (String × Ty)) : Scopes :=
  bindings.foldl (fun scopes binding => scopes.insert binding.1 binding.2) scopes

variable (scopes : Scopes) {bindings : List (String × Ty)} {name : String}

theorem insertAll_append (bindings bindings' : List (String × Ty)) :
    scopes.insertAll (bindings ++ bindings') =
      (scopes.insertAll bindings).insertAll bindings' :=
  List.foldl_append

theorem outer_insertAll (bindings : List (String × Ty)) :
    (scopes.insertAll bindings).outer = scopes.outer := by
  induction bindings generalizing scopes with
  | nil => rfl
  | cons binding rest ih => exact ih (scopes.insert binding.1 binding.2)

theorem lookup_insertAll (h : name ∉ bindings.map Prod.fst) :
    (scopes.insertAll bindings).lookup name = scopes.lookup name := by
  induction bindings generalizing scopes with
  | nil => rfl
  | cons binding rest ih =>
      rw [List.map_cons, List.mem_cons, not_or] at h
      obtain ⟨hhead, hrest⟩ := h
      calc
        (scopes.insertAll (binding :: rest)).lookup name
            = (scopes.insert binding.1 binding.2).lookup name := ih _ hrest
        _ = scopes.lookup name := by rw [lookup_insert, if_neg (Ne.symm hhead)]

/-- The last binding of a name is the one that counts. -/
theorem get?_inner_insertAll {t : Ty} (h : LastBinding bindings name t) :
    (scopes.insertAll bindings).inner.get? name = some t := by
  induction bindings using List.reverseRecOn with
  | nil =>
      obtain ⟨before, after, heq, _⟩ := h
      simp at heq
  | append_singleton bindings last ih =>
      obtain ⟨n, u⟩ := last
      have hlast : (scopes.insertAll (bindings ++ [(n, u)])).inner.get? name =
          if n = name then some u else (scopes.insertAll bindings).inner.get? name := by
        rw [insertAll_append]
        exact Table.get?_insert _ n name u
      rw [hlast]
      rcases lastBinding_append_singleton.mp h with ⟨rfl, rfl⟩ | ⟨hne, hearlier⟩
      · rw [if_pos rfl]
      · rw [if_neg hne, ih hearlier]

end Scopes

/-! ## Steps that leave the scopes alone -/

namespace Check

variable {α β : Type} {step : Check α}

/-- The names in scope are the same after a step, whether it succeeds or not. -/
def KeepsScopes (step : Check α) : Prop :=
  ∀ s, (runOn step s).2.scopes = s.scopes

namespace KeepsScopes

theorem bind {next : α → Check β} (hstep : step.KeepsScopes)
    (hnext : ∀ a, (next a).KeepsScopes) : (step >>= next).KeepsScopes := by
  intro s
  have hfirst := hstep s
  rw [runOn_bind]
  rcases hrun : runOn step s with ⟨outcome, middle⟩
  rw [hrun] at hfirst
  cases outcome with
  | ok a => exact (hnext a middle).trans hfirst
  | error error => exact hfirst

theorem pure (a : α) : (Pure.pure a : Check α).KeepsScopes :=
  fun _ => rfl

theorem throw (error : TypeError) : (MonadExcept.throw error : Check α).KeepsScopes :=
  fun _ => rfl

theorem inContext (h : step.KeepsScopes) (context : String) :
    (Check.inContext context step).KeepsScopes :=
  h

/-- A step that looks at the session first need only be right for that session. -/
theorem get {next : Session → Check β} (h : ∀ s, (runOn (next s) s).2.scopes = s.scopes) :
    (MonadState.get >>= next : Check β).KeepsScopes :=
  h

end KeepsScopes

/-- A scope of its own is closed again, whatever was bound in it. -/
theorem keepsScopes_inNewScope (step : Check α) : (inNewScope step).KeepsScopes :=
  fun _ => rfl

theorem keepsScopes_freshNumeric : freshNumeric.KeepsScopes :=
  fun _ => rfl

theorem keepsScopes_fresh : fresh.KeepsScopes :=
  fun _ => rfl

theorem keepsScopes_freshFor (xs : List α) : (freshFor xs).KeepsScopes := by
  induction xs with
  | nil => exact .pure []
  | cons x xs ih => exact keepsScopes_fresh.bind fun t => ih.bind fun ts => .pure (t :: ts)

theorem keepsScopes_lowering (names : Table String TypeVar) (term : StateM Naming α) :
    (lowering names term).KeepsScopes :=
  fun _ => rfl

theorem keepsScopes_resolve (t : Ty) : (resolve t).KeepsScopes :=
  fun _ => rfl

theorem keepsScopes_constrain (aliases : Aliases) (literals : Arrangement TypeVar)
    (expected found : Ty) : (constrain aliases literals expected found).KeepsScopes := by
  intro s
  rw [Session.runOn_constrain]
  cases s.equate aliases literals expected found <;> rfl

end Check

namespace Setting

open Check

variable (setting : Setting)

theorem keepsScopes_lookup (name : String) : (setting.lookup name).KeepsScopes := by
  refine KeepsScopes.get fun s => ?_
  cases s.scopes.lookup name with
  | some t => rfl
  | none =>
      cases setting.globals.signatures.get? name with
      | some signature => rfl
      | none =>
          cases setting.globals.constructors.get? name with
          | some info => rfl
          | none =>
              cases Prelude.builtin? name with
              | some scheme =>
                  exact (keepsScopes_freshFor (List.range scheme.arity)).bind (fun _ => .pure _) s
              | none => rfl

theorem keepsScopes_constrainIn (context : String) (expected found : Ty) :
    (setting.constrainIn context expected found).KeepsScopes :=
  (keepsScopes_constrain setting.aliases setting.literals expected found).inContext context

theorem keepsScopes_checkOperand (operator : String) (operand : Ty) (allowed : Ty → Bool) :
    (setting.checkOperand operator operand allowed).KeepsScopes := by
  refine (keepsScopes_resolve operand).bind fun resolved => ?_
  split
  · exact .pure resolved
  · split
    · exact .pure resolved
    · exact .throw _

theorem keepsScopes_joined (operator : String) (left right : Ty) :
    (setting.joined operator left right).KeepsScopes :=
  (setting.keepsScopes_constrainIn _ left right).bind fun _ =>
    setting.keepsScopes_checkOperand operator left _

theorem keepsScopes_operated (operator : Operator) (left right : Ty) :
    (setting.operated operator left right).KeepsScopes := by
  cases operator with
  | arithmetic operator | bitwise operator =>
      exact (setting.keepsScopes_constrainIn _ left right).bind fun _ =>
        setting.keepsScopes_checkOperand _ left _
  | comparison operator =>
      exact (setting.keepsScopes_constrainIn _ left right).bind fun _ => .pure _
  | logical operator =>
      exact (setting.keepsScopes_constrainIn _ _ left).bind fun _ =>
        (setting.keepsScopes_constrainIn _ _ right).bind fun _ => .pure _
  | concat => exact setting.keepsScopes_joined _ left right

theorem keepsScopes_constructorFor (name : String) (given : Nat) :
    (setting.constructorFor name given).KeepsScopes := by
  unfold constructorFor
  split
  · exact .throw _
  · split
    · exact .pure _
    · exact .throw _

mutual

theorem keepsScopes_inferExpression : (e : Expression) →
    (setting.inferExpression e).KeepsScopes
  | .primitive p => by
      rw [inferExpression]
      exact keepsScopes_inferPrimitive p
  | .operation o => by
      rw [inferExpression]
      exact keepsScopes_inferOperation o
  | .tuple elements => by
      rw [inferExpression]
      exact (keepsScopes_inferAll elements).bind fun types => .pure _
  | .conditional condition yes no => by
      rw [inferExpression]
      refine (keepsScopes_inferExpression condition).bind fun conditionType => ?_
      refine (setting.keepsScopes_constrainIn _ _ conditionType).bind fun _ => ?_
      refine (keepsScopes_inferExpression yes).bind fun yesType => ?_
      refine (keepsScopes_inferExpression no).bind fun noType => ?_
      exact (setting.keepsScopes_constrainIn _ yesType noType).bind fun _ =>
        keepsScopes_resolve yesType
  | .cons head tail => by
      rw [inferExpression]
      refine (keepsScopes_inferExpression head).bind fun headType => ?_
      refine (keepsScopes_inferExpression tail).bind fun tailType => ?_
      exact (setting.keepsScopes_constrainIn _ _ tailType).bind fun _ => keepsScopes_resolve _
  | .data name fields => by
      rw [inferExpression]
      split
      · exact .throw _
      · split
        · exact .throw _
        · exact (keepsScopes_inferFields name.value _ fields 0 {}).bind fun _ => .pure _
  | .composition left right => by
      rw [inferExpression]
      refine (keepsScopes_inferExpression left).bind fun leftType => ?_
      refine (keepsScopes_inferExpression right).bind fun rightType => ?_
      refine keepsScopes_fresh.bind fun a => keepsScopes_fresh.bind fun b =>
        keepsScopes_fresh.bind fun c => ?_
      refine (setting.keepsScopes_constrainIn _ _ leftType).bind fun _ => ?_
      exact (setting.keepsScopes_constrainIn _ _ rightType).bind fun _ => keepsScopes_resolve _
  | .lambda parameters body => by
      rw [inferExpression]
      exact keepsScopes_inNewScope _
  | .application f argument => by
      rw [inferExpression]
      refine (keepsScopes_inferExpression f).bind fun functionType => ?_
      refine (keepsScopes_inferExpression argument).bind fun argumentType => ?_
      refine keepsScopes_fresh.bind fun result => ?_
      exact (setting.keepsScopes_constrainIn _ functionType _).bind fun _ =>
        keepsScopes_resolve result
  | .infixed operator left right => by
      rw [inferExpression]
      refine KeepsScopes.get fun s => ?_
      split
      · refine KeepsScopes.bind (keepsScopes_inferExpression left) (fun leftType => ?_) s
        refine (keepsScopes_inferExpression right).bind fun rightType => ?_
        exact setting.keepsScopes_joined _ leftType rightType
      · refine KeepsScopes.bind (setting.keepsScopes_lookup _) (fun operatorType => ?_) s
        refine (keepsScopes_inferExpression left).bind fun leftType => ?_
        refine (keepsScopes_inferExpression right).bind fun rightType => ?_
        refine keepsScopes_fresh.bind fun result => ?_
        exact (setting.keepsScopes_constrainIn _ operatorType _).bind fun _ =>
          keepsScopes_resolve result

theorem keepsScopes_inferPrimitive : (p : Primitive) → (setting.inferPrimitive p).KeepsScopes
  | .number kind value loc => by
      rw [inferPrimitive]
      split
      · exact keepsScopes_freshNumeric
      · exact .pure _
  | .boolean .. | .char .. | .string .. => by
      rw [inferPrimitive]
      exact .pure _
  | .null .. | .undefined .. => by
      rw [inferPrimitive]
      exact keepsScopes_fresh
  | .symbol name => by
      rw [inferPrimitive]
      exact setting.keepsScopes_lookup name.value
  | .list elements loc => by
      rw [inferPrimitive]
      refine keepsScopes_fresh.bind fun element => ?_
      exact (keepsScopes_inferElements element elements).bind fun _ => keepsScopes_resolve _

theorem keepsScopes_inferOperation : (o : Operation) → (setting.inferOperation o).KeepsScopes
  | ⟨operator, left, right, _⟩ => by
      rw [inferOperation]
      refine (keepsScopes_inferExpression left).bind fun leftType => ?_
      refine (keepsScopes_inferExpression right).bind fun rightType => ?_
      exact setting.keepsScopes_operated operator leftType rightType

theorem keepsScopes_inferAll : (es : List Expression) → (setting.inferAll es).KeepsScopes
  | [] => by
      rw [inferAll]
      exact .pure []
  | e :: rest => by
      rw [inferAll]
      exact (keepsScopes_inferExpression e).bind fun t =>
        (keepsScopes_inferAll rest).bind fun ts => .pure (t :: ts)

theorem keepsScopes_inferElements (element : Ty) : (es : List Expression) →
    (setting.inferElements element es).KeepsScopes
  | [] => by
      rw [inferElements]
      exact .pure ()
  | e :: rest => by
      rw [inferElements]
      refine (keepsScopes_inferExpression e).bind fun found => ?_
      exact (setting.keepsScopes_constrainIn _ element found).bind fun _ =>
        keepsScopes_inferElements element rest

theorem keepsScopes_inferFields (name : String) (info : ConstructorInfo) :
    (fields : List FieldExpression) → (position : Nat) → (names : Table String TypeVar) →
    (setting.inferFields name info fields position names).KeepsScopes
  | [], _, _ => by
      rw [inferFields]
      exact .pure ()
  | ⟨fieldName, value⟩ :: rest, position, names => by
      rw [inferFields]
      split
      · exact .throw _
      · refine (keepsScopes_lowering names _).bind fun answer => ?_
        refine (keepsScopes_inferExpression value).bind fun found => ?_
        exact (setting.keepsScopes_constrainIn _ answer.1 found).bind fun _ =>
          keepsScopes_inferFields name info rest (position + 1) answer.2

end

end Setting

/-! ## The bindings of a pattern -/

namespace Setting

open Check

variable (setting : Setting)

mutual

/-- The names that a pattern binds from a session on, each with the type that it is given
there. -/
def patternBindings : Pattern → Ty → Session → List (String × Ty)
  | .wildcard, _, _ => []
  | .literal _, _, _ => []
  | .var symbol, expected, _ => [(symbol.value, expected)]
  | .constructor name patterns, expected, s =>
      if (name = "True" || name = "False") && patterns.isEmpty then []
      else
        (setting.constructorFor name patterns.length).upon s fun info s =>
          (setting.constrainIn ("pattern `" ++ name ++ "`") expected (.con info.record)).upon s
            fun _ s => fieldBindings patterns info.fields {} s
  | .list elements, expected, s =>
      fresh.upon s fun element s =>
        (setting.constrainIn "list pattern" expected (.list element)).upon s fun _ s =>
          eachBindings elements element s
  | .cons head tail, expected, s =>
      fresh.upon s fun element s =>
        (setting.constrainIn "cons pattern" expected (.list element)).upon s fun _ s =>
          patternBindings head element s ++
            (setting.bindPattern head element).upon s fun _ s =>
              patternBindings tail (.list element) s
  | .as whole pattern, expected, s =>
      patternBindings whole expected s ++
        (setting.bindPattern whole expected).upon s fun _ s => patternBindings pattern expected s
  | .tuple elements, expected, s =>
      (freshFor elements).upon s fun types s =>
        (setting.constrainIn "tuple pattern" expected (.tuple types)).upon s fun _ s =>
          rowBindings elements types s

def fieldBindings :
    List Pattern → List Field → Table String TypeVar → Session → List (String × Ty)
  | pattern :: rest, field :: fields, names, s =>
      (lowering names field.value.lower).upon s fun answer s =>
        patternBindings pattern answer.1 s ++
          (setting.bindPattern pattern answer.1).upon s fun _ s =>
            fieldBindings rest fields answer.2 s
  | _, _, _, _ => []

def eachBindings : List Pattern → Ty → Session → List (String × Ty)
  | [], _, _ => []
  | pattern :: rest, expected, s =>
      patternBindings pattern expected s ++
        (setting.bindPattern pattern expected).upon s fun _ s => eachBindings rest expected s

def rowBindings : List Pattern → List Ty → Session → List (String × Ty)
  | pattern :: rest, expected :: types, s =>
      patternBindings pattern expected s ++
        (setting.bindPattern pattern expected).upon s fun _ s => rowBindings rest types s
  | _, _, _ => []

end

end Setting

namespace Check

variable {α β : Type} {step : Check α} {names names' : List String}
  {bindings : Session → List (String × Ty)}

/-- A step binds names in the innermost scope and nothing else. They are those of a list if
it succeeds, and in any case the first ones of the list. -/
structure Introduces (step : Check α) (names : List String)
    (bindings : Session → List (String × Ty)) : Prop where
  scopes : ∀ s, (runOn step s).2.scopes = s.scopes.insertAll (bindings s)
  leading : ∀ s, (bindings s).map Prod.fst <+: names
  complete : ∀ s a after, step.Gives s a after → (bindings s).map Prod.fst = names

theorem KeepsScopes.introduces (h : step.KeepsScopes) : step.Introduces [] fun _ => [] where
  scopes := h
  leading _ := List.prefix_rfl
  complete _ _ _ _ := rfl

theorem introduces_bindName (name : String) (t : Ty) :
    (bindName name t).Introduces [name] fun _ => [(name, t)] where
  scopes _ := rfl
  leading _ := List.prefix_rfl
  complete _ _ _ _ := rfl

namespace Introduces

theorem bind {next : α → Check β} {bindings' : α → Session → List (String × Ty)}
    (hstep : step.Introduces names bindings)
    (hnext : ∀ a, (∃ s after, step.Gives s a after) →
      (next a).Introduces names' (bindings' a)) :
    (step >>= next).Introduces (names ++ names') fun s =>
      bindings s ++ step.upon s bindings' := by
  -- After a failure of the first step nothing follows its bindings.
  have hfailed : ∀ s error middle, runOn step s = (.error error, middle) →
      step.upon s bindings' = [] := by
    intro s error middle hrun
    rw [upon, hrun]
  refine ⟨?_, ?_, ?_⟩
  · intro s
    have hscopes := hstep.scopes s
    rw [runOn_bind]
    rcases hrun : runOn step s with ⟨outcome, middle⟩
    rw [hrun] at hscopes
    cases outcome with
    | error error =>
        rw [hfailed s error middle hrun, List.append_nil]
        exact hscopes
    | ok a =>
        rw [Gives.upon_eq hrun, Scopes.insertAll_append, ← hscopes]
        exact (hnext a ⟨s, middle, hrun⟩).scopes middle
  · intro s
    rw [List.map_append]
    rcases hrun : runOn step s with ⟨outcome, middle⟩
    cases outcome with
    | error error =>
        rw [hfailed s error middle hrun, List.map_nil, List.append_nil]
        exact (hstep.leading s).trans (List.prefix_append _ _)
    | ok a =>
        rw [Gives.upon_eq hrun, hstep.complete s a middle hrun, List.prefix_append_right_inj]
        exact (hnext a ⟨s, middle, hrun⟩).leading middle
  · intro s b after h
    obtain ⟨a, middle, hfirst, hsecond⟩ := gives_bind.mp h
    rw [List.map_append, hfirst.upon_eq, hstep.complete s a middle hfirst,
      (hnext a ⟨s, middle, hfirst⟩).complete middle b after hsecond]

/-- What follows a step that binds nothing. -/
theorem after {next : α → Check β} {bindings' : α → Session → List (String × Ty)}
    (hstep : step.KeepsScopes)
    (hnext : ∀ a, (∃ s after, step.Gives s a after) →
      (next a).Introduces names' (bindings' a)) :
    (step >>= next).Introduces names' fun s => step.upon s bindings' := by
  have h := hstep.introduces.bind hnext
  simpa only [List.nil_append] using h

end Introduces

end Check

namespace Setting

open Check

variable (setting : Setting)

mutual

theorem introduces_bindPattern : (p : Pattern) → (expected : Ty) →
    (setting.bindPattern p expected).Introduces p.boundNames (setting.patternBindings p expected)
  | .wildcard, _ => by
      rw [bindPattern, Pattern.boundNames]
      simpa only [patternBindings] using (KeepsScopes.pure ()).introduces
  | .literal p, expected => by
      have hliteral : (setting.bindPattern (.literal p) expected).KeepsScopes := by
        rw [bindPattern]
        exact (setting.keepsScopes_inferPrimitive p).bind fun found =>
          setting.keepsScopes_constrainIn _ expected found
      rw [Pattern.boundNames]
      simpa only [patternBindings] using hliteral.introduces
  | .var symbol, expected => by
      rw [bindPattern, Pattern.boundNames]
      simpa only [patternBindings] using introduces_bindName symbol.value expected
  | .constructor name patterns, expected => by
      rw [bindPattern, Pattern.boundNames]
      simp only [patternBindings]
      by_cases htruth : ((name = "True" || name = "False") && patterns.isEmpty) = true
      · obtain ⟨_, hempty⟩ := Bool.and_eq_true_iff.mp htruth
        obtain rfl := List.isEmpty_iff.mp hempty
        simp only [if_pos htruth]
        exact (keepsScopes_constrain setting.aliases setting.literals expected .bool).introduces
      · simp only [if_neg htruth]
        refine .after (setting.keepsScopes_constructorFor _ _) fun info hinfo => ?_
        refine .after (setting.keepsScopes_constrainIn _ _ _) fun _ _ => ?_
        obtain ⟨_, _, hgives⟩ := hinfo
        obtain ⟨⟨_, hlength⟩, _⟩ := setting.gives_constructorFor.mp hgives
        exact introduces_bindFields patterns info.fields {} (Nat.le_of_eq hlength.symm)
  | .list elements, expected => by
      rw [bindPattern, Pattern.boundNames]
      simp only [patternBindings]
      refine .after keepsScopes_fresh fun element _ => ?_
      refine .after (setting.keepsScopes_constrainIn _ _ _) fun _ _ => ?_
      exact introduces_bindEach elements element
  | .cons head tail, expected => by
      rw [bindPattern, Pattern.boundNames]
      simp only [patternBindings]
      refine .after keepsScopes_fresh fun element _ => ?_
      refine .after (setting.keepsScopes_constrainIn _ _ _) fun _ _ => ?_
      exact (introduces_bindPattern head element).bind fun _ _ =>
        introduces_bindPattern tail (.list element)
  | .as whole pattern, expected => by
      rw [bindPattern, Pattern.boundNames]
      simp only [patternBindings]
      exact (introduces_bindPattern whole expected).bind fun _ _ =>
        introduces_bindPattern pattern expected
  | .tuple elements, expected => by
      rw [bindPattern, Pattern.boundNames]
      simp only [patternBindings]
      refine .after (keepsScopes_freshFor elements) fun types htypes => ?_
      refine .after (setting.keepsScopes_constrainIn _ _ _) fun _ _ => ?_
      obtain ⟨_, _, hgives⟩ := htypes
      exact introduces_bindAll elements types (Nat.le_of_eq (length_of_freshFor hgives).symm)

theorem introduces_bindFields : (patterns : List Pattern) → (fields : List Field) →
    (names : Table String TypeVar) → patterns.length ≤ fields.length →
    (setting.bindFields patterns fields names).Introduces (Pattern.boundNamesAll patterns)
      (setting.fieldBindings patterns fields names)
  | [], fields, names, _ => by
      simpa [bindFields, Pattern.boundNamesAll, fieldBindings] using
        (KeepsScopes.pure ()).introduces
  | pattern :: rest, [], _, hlength => by simp at hlength
  | pattern :: rest, field :: fields, names, hlength => by
      rw [bindFields, Pattern.boundNamesAll]
      simp only [fieldBindings]
      refine .after (keepsScopes_lowering names _) fun answer _ => ?_
      exact (introduces_bindPattern pattern answer.1).bind fun _ _ =>
        introduces_bindFields rest fields answer.2 (Nat.le_of_succ_le_succ hlength)

theorem introduces_bindEach : (patterns : List Pattern) → (expected : Ty) →
    (setting.bindEach patterns expected).Introduces (Pattern.boundNamesAll patterns)
      (setting.eachBindings patterns expected)
  | [], expected => by
      simpa [bindEach, Pattern.boundNamesAll, eachBindings] using
        (KeepsScopes.pure ()).introduces
  | pattern :: rest, expected => by
      rw [bindEach, Pattern.boundNamesAll]
      simp only [eachBindings]
      exact (introduces_bindPattern pattern expected).bind fun _ _ =>
        introduces_bindEach rest expected

theorem introduces_bindAll : (patterns : List Pattern) → (types : List Ty) →
    patterns.length ≤ types.length →
    (setting.bindAll patterns types).Introduces (Pattern.boundNamesAll patterns)
      (setting.rowBindings patterns types)
  | [], types, _ => by
      simpa [bindAll, Pattern.boundNamesAll, rowBindings] using
        (KeepsScopes.pure ()).introduces
  | pattern :: rest, [], hlength => by simp at hlength
  | pattern :: rest, expected :: types, hlength => by
      rw [bindAll, Pattern.boundNamesAll]
      simp only [rowBindings]
      exact (introduces_bindPattern pattern expected).bind fun _ _ =>
        introduces_bindAll rest types (Nat.le_of_succ_le_succ hlength)

end

/-- Matching a pattern leaves all outer scopes and the look-up of every other name as they
are, whether it succeeds or not. If it succeeds, each name that the pattern lists was given
a type, in the order of the list, and the innermost scope has the type that the name was
given last. If it fails, only the first names of the list were given types. -/
theorem bindPattern_binds_boundNames (p : Pattern) (expected : Ty) (before : Session) :
    let run := runOn (setting.bindPattern p expected) before
    let given := setting.patternBindings p expected before
    run.2.scopes.outer = before.scopes.outer ∧
    (∀ name, name ∉ p.boundNames → run.2.scopes.lookup name = before.scopes.lookup name) ∧
    given.map Prod.fst <+: p.boundNames ∧
    (run.1 = .ok () → given.map Prod.fst = p.boundNames ∧
      ∀ name ∈ p.boundNames, ∃ t, LastBinding given name t ∧
        run.2.scopes.inner.get? name = some t) := by
  intro run given
  have hbinds := setting.introduces_bindPattern p expected
  have hscopes : run.2.scopes = before.scopes.insertAll given := hbinds.scopes before
  have hleading : given.map Prod.fst <+: p.boundNames := hbinds.leading before
  refine ⟨?_, ?_, hleading, ?_⟩
  · rw [hscopes, Scopes.outer_insertAll]
  · intro name hname
    have hother : name ∉ given.map Prod.fst := fun hmem => hname (hleading.subset hmem)
    rw [hscopes, Scopes.lookup_insertAll _ hother]
  · intro hok
    have hgives : (setting.bindPattern p expected).Gives before () run.2 :=
      Prod.ext hok rfl
    have hnames : given.map Prod.fst = p.boundNames := hbinds.complete before () run.2 hgives
    refine ⟨hnames, ?_⟩
    intro name hname
    rw [← hnames] at hname
    obtain ⟨t, hlast⟩ := exists_lastBinding hname
    refine ⟨t, hlast, ?_⟩
    rw [hscopes]
    exact Scopes.get?_inner_insertAll _ hlast

/-- A name that stands twice in a pair and is also bound further out. It gets the type of the
second component, and the outer scope keeps the other one. -/
theorem bindPattern_binds_boundNames_twice :
    let pair : Pattern := .tuple [.var ⟨"x", none, {}⟩, .var ⟨"x", none, {}⟩]
    let before : Session := { scopes := (Scopes.empty.insert "x" .char).push }
    let run := runOn (bindPattern {} pair (.tuple [.con "Int", .bool])) before
    run.1 = .ok () ∧ pair.boundNames = ["x", "x"] ∧
      LastBinding (patternBindings {} pair (.tuple [.con "Int", .bool]) before) "x"
        (.var ⟨1, none⟩) ∧
      run.2.scopes.inner.get? "x" = some (.var ⟨1, none⟩) ∧
      run.2.subst.apply (.var ⟨1, none⟩) = .bool ∧
      run.2.scopes.outer = before.scopes.outer := by
  intro pair before run
  have hok : run.1 = .ok () := rfl
  obtain ⟨houter, _, _, hbinds⟩ :=
    bindPattern_binds_boundNames {} pair (.tuple [.con "Int", .bool]) before
  obtain ⟨t, hlast, hget⟩ := (hbinds hok).2 "x" (List.mem_cons_self)
  have hcomponent : run.2.scopes.inner.get? "x" = some (.var ⟨1, none⟩) := rfl
  have hbool : run.2.subst.apply (.var ⟨1, none⟩) = .bool := rfl
  obtain rfl : t = .var ⟨1, none⟩ := Option.some.inj (hget.symm.trans hcomponent)
  exact ⟨hok, rfl, hlast, hget, hbool, houter⟩

end Setting

end Rubric
