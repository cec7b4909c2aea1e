import Rubric.Proofs.Checker.Equations
import Rubric.Proofs.Checker.Lowering
import Rubric.Proofs.Unification.Renaming
import Rubric.Typing.Checking

/-!
# Checking does not look at variable numbers

The numbers of new variables go on from clause to clause, and nothing else of what came
before a clause reaches it. A renumbering leaves the variables of alias bodies alone and
moves all numbers from one on by the same amount. Started on corresponding sessions, each
step of the checker ends in the renumbered outcome and leaves corresponding sessions.

The checker looks at a substitution only to resolve types, so sessions may correspond whose
substitutions are not renamed copies of each other. What they have in common is left open
here. It has to fix how renamed types are resolved, and it has to last when a unifier and
the renamed unifier are added.

The order in which literals are looked at may depend on their numbers, so the two runs may
go through them differently. Then they refuse the same equations, and what is left open is
how the types correspond that they name for a literal.

The statement is closed under sequencing, so each function of the checker is treated part by
part. What carries the induction is that the counters of the two sessions are equally far
behind the first number that is moved: then the new variables of the two runs correspond.
-/

namespace Rubric

/-- A renaming of variables that moves all numbers from one on, together. -/
structure Shift where
  first : Nat
  /-- Where the first number is moved to. -/
  target : Nat
  rename : TypeVar → TypeVar
  moves : ∀ n name, rename ⟨first + n, name⟩ = ⟨target + n, name⟩

/-- The same setting with another order of the literals. -/
def Setting.visiting (setting : Setting) (literals : Arrangement TypeVar) : Setting :=
  { setting with literals }

/-- A renaming of variables that the checker cannot tell from the identity, with an order of
the literals for the second run. -/
structure Renumbering (setting : Setting) extends Shift where
  injective : Function.Injective rename
  fixes : setting.aliases.All fun v => rename v = v
  /-- What the substitutions of the two runs have in common. -/
  alike : Substitution → Substitution → Prop
  apply_alike : ∀ s s', alike s s' →
    ∀ t, s'.apply (t.rename rename) = (s.apply t).rename rename
  compose_alike : ∀ s s' a b solution, alike s s' →
    unify setting.aliases (s.apply a) (s.apply b) = .ok solution →
    alike (s.compose solution) (s'.compose (solution.rename rename))
  literals : Arrangement TypeVar
  /-- How the types correspond that the two runs name for a literal. -/
  named : Ty → Ty → Prop
  named_of_refused : ∀ s s' numeric t t', alike s s' →
    Session.nonNumeric? setting.aliases (setting.literals.arrange numeric) s = some t →
    Session.nonNumeric? setting.aliases (literals.arrange (numeric.map rename)) s' = some t' →
    named t t'

/-! ## Computations that mirror each other -/

section Mirrored

variable {σ α β : Type}

/-- On related states the second computation answers what corresponds to the answer of the
first one, and it leaves related states. -/
def Mirrored (related : σ → σ → Prop) (answers : α → α → Prop) (x x' : StateM σ α) : Prop :=
  ∀ s s', related s s' →
    answers (x.run s).1 (x'.run s').1 ∧ related (x.run s).2 (x'.run s').2

variable {related : σ → σ → Prop} {answers : α → α → Prop} {answers' : β → β → Prop}

theorem Mirrored.bind {x x' : StateM σ α} {f f' : α → StateM σ β}
    (h : Mirrored related answers x x')
    (hnext : ∀ a a', answers a a' → Mirrored related answers' (f a) (f' a')) :
    Mirrored related answers' (x >>= f) (x' >>= f') := by
  intro s s' hs
  obtain ⟨hanswer, hmiddle⟩ := h s s' hs
  rw [run_bind, run_bind]
  exact hnext _ _ hanswer _ _ hmiddle

theorem mirrored_pure {a a' : α} (h : answers a a') :
    Mirrored related answers (pure a) (pure a') :=
  fun _ _ hs => ⟨h, hs⟩

end Mirrored

/-! ## Errors -/

namespace TypeError

/-- Rename the variables in an error. -/
def rename (ρ : TypeVar → TypeVar) : TypeError → TypeError
  | mismatch expected found context => mismatch (expected.rename ρ) (found.rename ρ) context
  | occurs v t => occurs (ρ v) (t.rename ρ)
  | unsupportedOperand operator found => unsupportedOperand operator (found.rename ρ)
  | nonNumericLiteral found => nonNumericLiteral (found.rename ρ)
  | error => error

theorem rename_withContext (ρ : TypeVar → TypeVar) (context : String) (error : TypeError) :
    (error.withContext context).rename ρ = (error.rename ρ).withContext context := by
  cases error <;> rfl

end TypeError

/-! ## Lowering -/

namespace Shift

variable (r : Shift)

def type (t : Ty) : Ty :=
  t.rename r.rename

theorem curried_type (inputs : List Ty) (output : Ty) :
    Ty.curried (inputs.map r.type) (r.type output) = r.type (Ty.curried inputs output) :=
  (Ty.rename_curried inputs output).symm

/-- The counters of two runs are equally far behind the first number that is moved. -/
def Counts (n n' : Nat) : Prop :=
  ∃ taken, n = r.first + taken ∧ n' = r.target + taken

theorem counts_first : r.Counts r.first r.target :=
  ⟨0, rfl, rfl⟩

variable {r}

theorem Counts.advance {n n' : Nat} (h : r.Counts n n') (more : Nat) :
    r.Counts (n + more) (n' + more) := by
  obtain ⟨taken, rfl, rfl⟩ := h
  exact ⟨taken + more, Nat.add_assoc _ _ _, Nat.add_assoc _ _ _⟩

/-- New variables of the two runs correspond. -/
theorem Counts.moves {n n' : Nat} (h : r.Counts n n') (more : Nat) (name : Option String) :
    r.rename ⟨n + more, name⟩ = ⟨n' + more, name⟩ := by
  obtain ⟨taken, rfl, rfl⟩ := h
  rw [Nat.add_assoc, r.moves, Nat.add_assoc]

variable (r)

/-- Written names have corresponding variables. -/
def Names (names names' : Table String TypeVar) : Prop :=
  ∀ name, names'.get? name = (names.get? name).map r.rename

theorem names_nothing : r.Names {} {} :=
  fun _ => rfl

/-- Two uses of a declaration that go on in the same way. -/
structure Namings (naming naming' : Naming) : Prop where
  names : r.Names naming.names naming'.names
  counts : r.Counts naming.next naming'.next

/-- The second computation lowers with corresponding names what the first one lowers. -/
def Lowers {α : Type} (act : α → α) (x x' : StateM Naming α) : Prop :=
  Mirrored r.Namings (fun a a' => a' = act a) x x'

theorem Lowers.bind {α β : Type} {r : Shift} {act : α → α} {act' : β → β}
    {x x' : StateM Naming α} {f f' : α → StateM Naming β} (h : r.Lowers act x x')
    (hnext : ∀ a, r.Lowers act' (f a) (f' (act a))) : r.Lowers act' (x >>= f) (x' >>= f') := by
  refine Mirrored.bind h ?_
  rintro a _ rfl
  exact hnext a

theorem lowers_fresh : r.Lowers r.rename Naming.fresh Naming.fresh := by
  intro naming naming' h
  exact ⟨(h.counts.moves 0 none).symm, h.names, h.counts.advance 1⟩

theorem lowers_named (name : String) :
    r.Lowers r.rename (Naming.named name) (Naming.named name) := by
  intro naming naming' h
  have hget := h.names name
  cases hname : naming.names.get? name with
  | some v =>
      rw [hname, Option.map_some] at hget
      rw [Naming.run_named_of_some hname, Naming.run_named_of_some hget]
      exact ⟨rfl, h⟩
  | none =>
      have hmoves := h.counts.moves 0 (some name)
      rw [hname, Option.map_none] at hget
      rw [Naming.run_named_of_none hname, Naming.run_named_of_none hget]
      refine ⟨hmoves.symm, ?_, h.counts.advance 1⟩
      intro other
      rw [Table.get?_insert, Table.get?_insert]
      split
      · exact congrArg some hmoves.symm
      · exact h.names other

mutual

theorem lowers_lower : (term : TypeTerm) → r.Lowers r.type term.lower term.lower
  | .var name => by
      rw [TypeTerm.lower]
      exact (r.lowers_named name).bind fun v => mirrored_pure rfl
  | .con name => by
      rw [TypeTerm.lower]
      exact mirrored_pure rfl
  | .constraint ⟨className, params⟩ => by
      rw [TypeTerm.lower]
      exact (lowers_lowerAll params).bind fun args =>
        mirrored_pure (Ty.rename_app (.con className) args).symm
  | .qualified context body => by
      rw [TypeTerm.lower]
      exact lowers_lower body
  | .arrow inputs output => by
      rw [TypeTerm.lower]
      exact (lowers_lowerAll inputs).bind fun inputs => (lowers_lower output).bind fun output =>
        mirrored_pure (r.curried_type inputs output)
  | .apply base args => by
      rw [TypeTerm.lower]
      exact (lowers_lower base).bind fun base => (lowers_lowerAll args).bind fun args =>
        mirrored_pure (Ty.rename_app _ _).symm
  | .list element => by
      rw [TypeTerm.lower]
      exact (lowers_lower element).bind fun element => mirrored_pure rfl
  | .tuple elements => by
      rw [TypeTerm.lower]
      exact (lowers_lowerAll elements).bind fun elements =>
        mirrored_pure (Ty.rename_tuple _).symm
  | .data name cases => by
      rw [TypeTerm.lower]
      exact mirrored_pure rfl
  | .conditional condition yes no => by
      rw [TypeTerm.lower]
      exact r.lowers_fresh.bind fun v => mirrored_pure rfl

theorem lowers_lowerAll : (terms : List TypeTerm) →
    r.Lowers (List.map r.type) (TypeTerm.lowerAll terms) (TypeTerm.lowerAll terms)
  | [] => by
      rw [TypeTerm.lowerAll]
      exact mirrored_pure rfl
  | term :: rest => by
      rw [TypeTerm.lowerAll]
      exact (lowers_lower term).bind fun t => (lowers_lowerAll rest).bind fun ts =>
        mirrored_pure rfl

end

theorem lowers_signature (signature : Signature) :
    r.Lowers (Prod.map (List.map r.type) r.type) signature.lower signature.lower :=
  (r.lowers_lowerAll signature.inputs).bind fun _ =>
    (r.lowers_lower signature.output).bind fun _ => mirrored_pure rfl

end Shift

/-! ## Steps of the checker -/

namespace Renumbering

variable {setting : Setting} (r : Renumbering setting)

/-- The sessions of two runs that have done the same. -/
structure Related (session session' : Session) : Prop where
  counts : r.Counts session.next session'.next
  subst : r.alike session.subst session'.subst
  numeric : session'.numeric = session.numeric.map r.rename
  scopes : ∀ name, session'.scopes.lookup name = (session.scopes.lookup name).map r.type

/-- The second error is the first one renamed, or both name a literal. -/
def Matches (error error' : TypeError) : Prop :=
  error' = error.rename r.rename ∨
    ∃ t t', error = .nonNumericLiteral t ∧ error' = .nonNumericLiteral t' ∧ r.named t t'

theorem Matches.withContext {r : Renumbering setting} {error error' : TypeError}
    (h : r.Matches error error') (context : String) :
    r.Matches (error.withContext context) (error'.withContext context) := by
  rcases h with rfl | ⟨t, t', rfl, rfl, hnamed⟩
  · exact .inl (TypeError.rename_withContext _ context error).symm
  · exact .inr ⟨t, t', rfl, rfl, hnamed⟩

/-- How the outcomes of a step correspond. -/
inductive Outcome {α : Type} (act : α → α) : Except TypeError α → Except TypeError α → Prop where
  | ok (a : α) : Outcome act (.ok a) (.ok (act a))
  | error {error error' : TypeError} : r.Matches error error' →
      Outcome act (.error error) (.error error')

/-- The setting of the second run. -/
abbrev other : Setting :=
  setting.visiting r.literals

theorem globals_other : r.other.globals = setting.globals := rfl

theorem aliases_other : r.other.aliases = setting.aliases := rfl

theorem expand_type (t : Ty) :
    setting.aliases.expand (r.type t) = r.type (setting.aliases.expand t) :=
  Aliases.expand_rename r.fixes t

/-- The second step does on a related session what the first one does. -/
def Steps {α : Type} (act : α → α) (step step' : Check α) : Prop :=
  Mirrored r.Related (r.Outcome act) step.run step'.run

section Steps

variable {α β : Type} {r} {act : α → α} {act' : β → β}

theorem Related.advance {session session' : Session} (h : r.Related session session')
    (more : Nat) :
    r.Related { session with next := session.next + more }
      { session' with next := session'.next + more } :=
  ⟨h.counts.advance more, h.subst, h.numeric, h.scopes⟩

theorem Related.apply {session session' : Session} (h : r.Related session session') (t : Ty) :
    session'.subst.apply (r.type t) = r.type (session.subst.apply t) :=
  r.apply_alike _ _ h.subst t

theorem Steps.bind {step step' : Check α} {next next' : α → Check β}
    (h : r.Steps act step step') (hnext : ∀ a, r.Steps act' (next a) (next' (act a))) :
    r.Steps act' (step >>= next) (step' >>= next') := by
  unfold Steps
  rw [ExceptT.run_bind, ExceptT.run_bind]
  refine Mirrored.bind h ?_
  rintro _ _ (a | herror)
  · exact hnext a
  · exact mirrored_pure (.error herror)

theorem steps_pure {a a' : α} (h : a' = act a) :
    r.Steps act (pure a : Check α) (pure a' : Check α) := by
  subst h
  exact mirrored_pure (.ok a)

theorem steps_throw {error error' : TypeError} (h : error' = error.rename r.rename) :
    r.Steps act (throw error : Check α) (throw error' : Check α) :=
  mirrored_pure (.error (.inl h))

theorem Steps.get {next next' : Session → Check β}
    (h : ∀ session session', r.Related session session' →
      r.Steps act' (next session) (next' session')) :
    r.Steps act' (MonadState.get >>= next) (MonadState.get >>= next') :=
  fun session session' hrelated => h session session' hrelated session session' hrelated

theorem steps_set {session session' : Session} (h : r.Related session session') :
    r.Steps id (set session : Check PUnit) (set session' : Check PUnit) :=
  fun _ _ _ => ⟨.ok (), h⟩

/-- A step that only changes the session. -/
theorem steps_of_change {step step' : Check α} {a a' : Session → α}
    {change change' : Session → Session}
    (hstep : ∀ session, step.runOn session = (.ok (a session), change session))
    (hstep' : ∀ session, step'.runOn session = (.ok (a' session), change' session))
    (h : ∀ session session', r.Related session session' →
      a' session' = act (a session) ∧ r.Related (change session) (change' session')) :
    r.Steps act step step' := by
  intro session session' hrelated
  have hrun : step.run.run session = (.ok (a session), change session) := hstep session
  have hrun' : step'.run.run session' = (.ok (a' session'), change' session') := hstep' session'
  obtain ⟨hanswer, hafter⟩ := h session session' hrelated
  rw [hrun, hrun', hanswer]
  exact ⟨.ok _, hafter⟩

theorem Steps.inContext {step step' : Check α} (h : r.Steps act step step') (context : String) :
    r.Steps act (Check.inContext context step) (Check.inContext context step') := by
  intro session session' hrelated
  obtain ⟨hanswer, hafter⟩ := h session session' hrelated
  have hcontext : ∀ (step : Check α) (session : Session),
      (Check.inContext context step).run.run session =
        (((step.run.run session).1.mapError (TypeError.withContext context)),
          (step.run.run session).2) := fun _ _ => rfl
  rw [hcontext, hcontext]
  refine ⟨?_, hafter⟩
  generalize (step.run.run session).1 = outcome at hanswer
  generalize (step'.run.run session').1 = outcome' at hanswer
  cases hanswer with
  | ok a => exact .ok a
  | error herror => exact .error (herror.withContext context)

theorem Steps.inNewScope {step step' : Check α} (h : r.Steps act step step') :
    r.Steps act (Check.inNewScope step) (Check.inNewScope step') := by
  intro session session' hrelated
  have hpush : r.Related { session with scopes := session.scopes.push }
      { session' with scopes := session'.scopes.push } := by
    refine ⟨hrelated.counts, hrelated.subst, hrelated.numeric, fun name => ?_⟩
    rw [Scopes.lookup_push, Scopes.lookup_push]
    exact hrelated.scopes name
  obtain ⟨hanswer, hafter⟩ := h _ _ hpush
  exact ⟨hanswer, hafter.counts, hafter.subst, hafter.numeric, hrelated.scopes⟩

/-- Lowering gives the answer and the names that the rest goes on with. -/
theorem Steps.lowering {term : StateM Naming α} {names names' : Table String TypeVar}
    {next next' : α × Table String TypeVar → Check β} (hterm : r.Lowers act term term)
    (hnames : r.Names names names')
    (hnext : ∀ a names names', r.Names names names' →
      r.Steps act' (next (a, names)) (next' (act a, names'))) :
    r.Steps act' (Check.lowering names term >>= next) (Check.lowering names' term >>= next') := by
  intro session session' hrelated
  obtain ⟨hanswer, hafter⟩ :=
    hterm ⟨names, session.next⟩ ⟨names', session'.next⟩ ⟨hnames, hrelated.counts⟩
  have hlower : ∀ (names : Table String TypeVar) (next : α × Table String TypeVar → Check β)
      (session : Session), (Check.lowering names term >>= next).run.run session =
        (next ((term.run ⟨names, session.next⟩).1,
          (term.run ⟨names, session.next⟩).2.names)).run.run
            { session with next := (term.run ⟨names, session.next⟩).2.next } :=
    fun _ _ _ => rfl
  rw [hlower, hlower, hanswer]
  refine hnext _ _ _ hafter.names _ _ ?_
  exact ⟨hafter.counts, hrelated.subst, hrelated.numeric, hrelated.scopes⟩

end Steps

theorem steps_freshVar : r.Steps r.rename Check.freshVar Check.freshVar :=
  steps_of_change (fun _ => rfl) (fun _ => rfl) fun _ _ hrelated =>
    ⟨(hrelated.counts.moves 0 none).symm, hrelated.advance 1⟩

theorem steps_fresh : r.Steps r.type Check.fresh Check.fresh :=
  r.steps_freshVar.bind fun _ => steps_pure rfl

theorem steps_freshFor {α : Type} (xs : List α) :
    r.Steps (List.map r.type) (Check.freshFor xs) (Check.freshFor xs) := by
  induction xs with
  | nil => exact steps_pure rfl
  | cons x xs ih => exact r.steps_fresh.bind fun t => ih.bind fun ts => steps_pure rfl

theorem steps_freshNumeric : r.Steps r.type Check.freshNumeric Check.freshNumeric := by
  refine r.steps_freshVar.bind fun v => ?_
  have hmodify : r.Steps id
      (modify fun session => { session with numeric := v :: session.numeric } : Check PUnit)
      (modify fun session => { session with numeric := r.rename v :: session.numeric }) :=
    steps_of_change (fun _ => rfl) (fun _ => rfl) fun _ _ h =>
      ⟨rfl, h.counts, h.subst, congrArg (r.rename v :: ·) h.numeric, h.scopes⟩
  exact hmodify.bind fun _ => steps_pure rfl

theorem steps_resolve (t : Ty) : r.Steps r.type (Check.resolve t) (Check.resolve (r.type t)) :=
  steps_of_change (fun _ => rfl) (fun _ => rfl) fun _ _ h => ⟨h.apply t, h⟩

theorem steps_bindName (name : String) (t : Ty) :
    r.Steps id (Check.bindName name t) (Check.bindName name (r.type t)) := by
  refine steps_of_change (fun _ => rfl) (fun _ => rfl) fun session session' h =>
    ⟨rfl, h.counts, h.subst, h.numeric, fun other => ?_⟩
  rw [Scopes.lookup_insert, Scopes.lookup_insert]
  split
  · rfl
  · exact h.scopes other

/-! ## Equations -/

theorem mayBeNumeric_type (t : Ty) :
    Session.mayBeNumeric setting.aliases (r.type t) = Session.mayBeNumeric setting.aliases t := by
  unfold Session.mayBeNumeric
  rw [r.expand_type]
  cases setting.aliases.expand t <;> simp [Shift.type]

/-- No literal is in the way of both solutions or of neither. -/
theorem nonNumeric?_eq_none_iff (numeric : List TypeVar) {subst subst' : Substitution}
    (h : r.alike subst subst') :
    Session.nonNumeric? setting.aliases (r.literals.arrange (numeric.map r.rename)) subst' =
        none ↔
      Session.nonNumeric? setting.aliases (setting.literals.arrange numeric) subst = none := by
  have hresolved : ∀ v, Session.mayBeNumeric setting.aliases (subst'.apply (.var (r.rename v))) =
      Session.mayBeNumeric setting.aliases (subst.apply (.var v)) := by
    intro v
    rw [← r.mayBeNumeric_type (subst.apply (.var v)), Shift.type, ← r.apply_alike _ _ h (.var v),
      Ty.rename_var]
  rw [Session.nonNumeric?_eq_none, Session.nonNumeric?_eq_none, List.forall_mem_map]
  simp only [hresolved]

/-- The renamed equation is accepted with a solution that is alike, or refused with a
corresponding error. -/
theorem steps_constrain (expected found : Ty) :
    r.Steps id (Check.constrain setting.aliases setting.literals expected found)
      (Check.constrain setting.aliases r.literals (r.type expected) (r.type found)) := by
  refine Steps.get fun session session' hrelated => ?_
  have hrenamed := Unification.unify_rename r.injective r.fixes
    (session.subst.apply expected) (session.subst.apply found)
  unfold Session.equate
  rw [hrelated.apply, hrelated.apply, hrelated.numeric]
  dsimp only [Shift.type]
  rw [hrenamed]
  cases hunify : unify setting.aliases (session.subst.apply expected)
      (session.subst.apply found) with
  | error error => cases error <;> exact steps_throw rfl
  | ok solution =>
      have halike := r.compose_alike _ _ _ _ _ hrelated.subst hunify
      have hnone := r.nonNumeric?_eq_none_iff session.numeric halike
      dsimp only [Unification.renamed]
      cases hfirst : Session.nonNumeric? setting.aliases
          (setting.literals.arrange session.numeric) (session.subst.compose solution) with
      | none =>
          rw [hnone.mpr hfirst]
          exact steps_set ⟨hrelated.counts, halike, rfl, hrelated.scopes⟩
      | some t =>
          rw [hfirst] at hnone
          obtain ⟨t', hsecond⟩ := Option.ne_none_iff_exists'.mp (mt hnone.mp (by simp))
          rw [hsecond]
          have hnamed := r.named_of_refused _ _ _ _ _ halike hfirst hsecond
          exact mirrored_pure (.error (.inr ⟨t, t', rfl, rfl, hnamed⟩))

end Renumbering

namespace Setting

variable (setting : Setting) (r : Renumbering setting)

open Check Renumbering

theorem mirrored_constrainIn (context : String) (expected found : Ty) :
    r.Steps id (setting.constrainIn context expected found)
      (r.other.constrainIn context (r.type expected) (r.type found)) :=
  (r.steps_constrain expected found).inContext context

theorem mirrored_checkOperand (operator : String) (operand : Ty) {allowed : Ty → Bool}
    (hallowed : ∀ t, allowed (r.type t) = allowed t) :
    r.Steps r.type (setting.checkOperand operator operand allowed)
      (r.other.checkOperand operator (r.type operand) allowed) := by
  refine (r.steps_resolve operand).bind fun resolved => ?_
  rw [r.aliases_other, r.expand_type]
  have hchecked : ∀ t, r.Steps r.type
      (if allowed t then pure resolved
        else throw (.unsupportedOperand operator resolved) : Check Ty)
      (if allowed (r.type t) then pure (r.type resolved)
        else throw (.unsupportedOperand operator (r.type resolved)) : Check Ty) := by
    intro t
    rw [hallowed]
    split
    · exact steps_pure rfl
    · exact steps_throw rfl
  cases h : setting.aliases.expand resolved with
  | var v => exact steps_pure rfl
  | con name => exact hchecked (.con name)
  | list element => exact hchecked (.list element)
  | func input output => exact hchecked (.func input output)
  | app base args =>
      have happ := hchecked (.app base args)
      rw [show r.type (.app base args) = _ from Ty.rename_app base args] at happ ⊢
      exact happ
  | tuple elements =>
      have htuple := hchecked (.tuple elements)
      rw [show r.type (.tuple elements) = _ from Ty.rename_tuple elements] at htuple ⊢
      exact htuple

theorem isOneOf_type (names : List String) (t : Ty) :
    isOneOf names (r.type t) = isOneOf names t := by
  cases t <;> simp [isOneOf, Shift.type]

theorem isJoinable_type (t : Ty) : isJoinable (r.type t) = isJoinable t := by
  cases t <;> simp [isJoinable, Shift.type]

theorem mirrored_joined (operator : String) (left right : Ty) :
    r.Steps r.type (setting.joined operator left right)
      (r.other.joined operator (r.type left) (r.type right)) :=
  (setting.mirrored_constrainIn r _ left right).bind fun _ =>
    setting.mirrored_checkOperand r operator left (setting.isJoinable_type r)

theorem mirrored_operated (operator : Operator) (left right : Ty) :
    r.Steps r.type (setting.operated operator left right)
      (r.other.operated operator (r.type left) (r.type right)) := by
  cases operator with
  | arithmetic operator | bitwise operator =>
      exact (setting.mirrored_constrainIn r _ left right).bind fun _ =>
        setting.mirrored_checkOperand r _ left (setting.isOneOf_type r _)
  | comparison operator =>
      exact (setting.mirrored_constrainIn r _ left right).bind fun _ => steps_pure rfl
  | logical operator =>
      exact (setting.mirrored_constrainIn r _ .bool left).bind fun _ =>
        (setting.mirrored_constrainIn r _ .bool right).bind fun _ => steps_pure rfl
  | concat => exact setting.mirrored_joined r _ left right

theorem mirrored_constructorFor (name : String) (given : Nat) :
    r.Steps id (setting.constructorFor name given) (r.other.constructorFor name given) := by
  unfold constructorFor
  rw [r.globals_other]
  cases setting.globals.constructors.get? name with
  | none => exact steps_throw rfl
  | some info =>
      dsimp only
      split
      · exact steps_pure rfl
      · exact steps_throw rfl

theorem type_instantiate (scheme : Scheme) (types : List Ty) :
    scheme.instantiate (types.map r.type) = r.type (scheme.instantiate types) := by
  unfold Scheme.instantiate Shift.type Ty.rename
  rw [Ty.subst_subst]
  refine Ty.subst_congr fun v _ => ?_
  rw [List.getD_eq_getElem?_getD, List.getD_eq_getElem?_getD, List.getElem?_map]
  cases types[v.id]? with
  | some t => rfl
  | none => exact (Ty.rename_tuple []).symm

theorem mirrored_lookup (name : String) :
    r.Steps r.type (setting.lookup name) (r.other.lookup name) := by
  refine Steps.get fun session session' hrelated => ?_
  rw [hrelated.scopes name, r.globals_other]
  cases session.scopes.lookup name with
  | some t => exact steps_pure rfl
  | none =>
      cases setting.globals.signatures.get? name with
      | some signature =>
          refine Steps.lowering (r.lowers_signature signature) r.names_nothing ?_
          intro lowered _ _ _
          exact steps_pure (r.curried_type lowered.1 lowered.2)
      | none =>
          cases setting.globals.constructors.get? name with
          | some info =>
              refine Steps.lowering (r.lowers_lowerAll _) r.names_nothing ?_
              intro fields _ _ _
              exact steps_pure (r.curried_type fields (.con info.record))
          | none =>
              cases Prelude.builtin? name with
              | none => exact r.steps_fresh
              | some scheme =>
                  refine (r.steps_freshFor _).bind fun types => ?_
                  exact steps_pure (setting.type_instantiate r scheme types)

theorem declares_related {session session' : Session} (h : r.Related session session')
    (name : String) :
    r.other.declares session'.scopes name = setting.declares session.scopes name := by
  simp [declares, h.scopes, r.globals_other]

/-! ## Expressions and patterns -/

mutual

theorem mirrored_inferExpression : (e : Expression) →
    r.Steps r.type (setting.inferExpression e) (r.other.inferExpression e)
  | .primitive p => by
      rw [inferExpression, inferExpression]
      exact mirrored_inferPrimitive p
  | .operation o => by
      rw [inferExpression, inferExpression]
      exact mirrored_inferOperation o
  | .tuple elements => by
      rw [inferExpression, inferExpression]
      exact (mirrored_inferAll elements).bind fun types => steps_pure (Ty.rename_tuple types).symm
  | .conditional condition yes no => by
      rw [inferExpression, inferExpression]
      refine (mirrored_inferExpression condition).bind fun conditionType => ?_
      refine (setting.mirrored_constrainIn r _ .bool conditionType).bind fun _ => ?_
      refine (mirrored_inferExpression yes).bind fun yesType => ?_
      refine (mirrored_inferExpression no).bind fun noType => ?_
      refine (setting.mirrored_constrainIn r _ yesType noType).bind fun _ => ?_
      exact r.steps_resolve yesType
  | .cons head tail => by
      rw [inferExpression, inferExpression]
      refine (mirrored_inferExpression head).bind fun headType => ?_
      refine (mirrored_inferExpression tail).bind fun tailType => ?_
      refine (setting.mirrored_constrainIn r _ (.list headType) tailType).bind fun _ => ?_
      exact r.steps_resolve (.list headType)
  | .data name fields => by
      rw [inferExpression, inferExpression, r.globals_other]
      cases setting.globals.constructors.get? name.value with
      | none => exact steps_throw rfl
      | some info =>
          dsimp only
          split
          · exact steps_throw rfl
          · exact (mirrored_inferFields name.value info fields 0 r.names_nothing).bind
              fun _ => steps_pure rfl
  | .composition left right => by
      rw [inferExpression, inferExpression]
      refine (mirrored_inferExpression left).bind fun leftType => ?_
      refine (mirrored_inferExpression right).bind fun rightType => ?_
      refine r.steps_fresh.bind fun a => r.steps_fresh.bind fun b => r.steps_fresh.bind fun c => ?_
      refine (setting.mirrored_constrainIn r _ (.func b c) leftType).bind fun _ => ?_
      refine (setting.mirrored_constrainIn r _ (.func a b) rightType).bind fun _ => ?_
      exact r.steps_resolve (.func a c)
  | .lambda parameters body => by
      rw [inferExpression, inferExpression]
      refine Steps.inNewScope ((mirrored_bindParameters parameters).bind fun inputs => ?_)
      refine (mirrored_inferExpression body).bind fun output => ?_
      rw [r.curried_type]
      exact r.steps_resolve (.curried inputs output)
  | .application f argument => by
      rw [inferExpression, inferExpression]
      refine (mirrored_inferExpression f).bind fun functionType => ?_
      refine (mirrored_inferExpression argument).bind fun argumentType => ?_
      refine r.steps_fresh.bind fun result => ?_
      refine (setting.mirrored_constrainIn r _ functionType (.func argumentType result)).bind
        fun _ => ?_
      exact r.steps_resolve result
  | .infixed operator left right => by
      rw [inferExpression, inferExpression]
      refine Steps.get fun session session' hrelated => ?_
      rw [setting.declares_related r hrelated]
      split
      · refine (mirrored_inferExpression left).bind fun leftType => ?_
        refine (mirrored_inferExpression right).bind fun rightType => ?_
        exact setting.mirrored_joined r _ leftType rightType
      · refine (setting.mirrored_lookup r operator.value).bind fun operatorType => ?_
        refine (mirrored_inferExpression left).bind fun leftType => ?_
        refine (mirrored_inferExpression right).bind fun rightType => ?_
        refine r.steps_fresh.bind fun result => ?_
        refine (setting.mirrored_constrainIn r _ operatorType
          (.curried [leftType, rightType] result)).bind fun _ => ?_
        exact r.steps_resolve result

theorem mirrored_inferPrimitive : (p : Primitive) →
    r.Steps r.type (setting.inferPrimitive p) (r.other.inferPrimitive p)
  | .number kind value loc => by
      rw [inferPrimitive, inferPrimitive]
      split
      · exact r.steps_freshNumeric
      · exact steps_pure rfl
  | .boolean .. | .char .. | .string .. => by
      rw [inferPrimitive, inferPrimitive]
      exact steps_pure rfl
  | .null .. | .undefined .. => by
      rw [inferPrimitive, inferPrimitive]
      exact r.steps_fresh
  | .symbol name => by
      rw [inferPrimitive, inferPrimitive]
      exact setting.mirrored_lookup r _
  | .list elements loc => by
      rw [inferPrimitive, inferPrimitive]
      refine r.steps_fresh.bind fun element => ?_
      refine (mirrored_inferElements element elements).bind fun _ => ?_
      exact r.steps_resolve (.list element)

theorem mirrored_inferOperation : (o : Operation) →
    r.Steps r.type (setting.inferOperation o) (r.other.inferOperation o)
  | ⟨operator, left, right, loc⟩ => by
      rw [inferOperation, inferOperation]
      refine (mirrored_inferExpression left).bind fun leftType => ?_
      refine (mirrored_inferExpression right).bind fun rightType => ?_
      exact setting.mirrored_operated r operator leftType rightType

theorem mirrored_inferAll : (es : List Expression) →
    r.Steps (List.map r.type) (setting.inferAll es) (r.other.inferAll es)
  | [] => by
      rw [inferAll, inferAll]
      exact steps_pure rfl
  | e :: rest => by
      rw [inferAll, inferAll]
      refine (mirrored_inferExpression e).bind fun t => ?_
      exact (mirrored_inferAll rest).bind fun ts => steps_pure rfl

theorem mirrored_inferElements (element : Ty) : (es : List Expression) →
    r.Steps id (setting.inferElements element es) (r.other.inferElements (r.type element) es)
  | [] => by
      rw [inferElements, inferElements]
      exact steps_pure rfl
  | e :: rest => by
      rw [inferElements, inferElements]
      refine (mirrored_inferExpression e).bind fun found => ?_
      refine (setting.mirrored_constrainIn r _ element found).bind fun _ => ?_
      exact mirrored_inferElements element rest

theorem mirrored_inferFields (name : String) (info : ConstructorInfo) :
    (fields : List FieldExpression) → (position : Nat) → {names names' : Table String TypeVar} →
    r.Names names names' →
    r.Steps id (setting.inferFields name info fields position names)
      (r.other.inferFields name info fields position names')
  | [], position, names, names', hnames => by
      rw [inferFields, inferFields]
      exact steps_pure rfl
  | ⟨fieldName, value⟩ :: rest, position, names, names', hnames => by
      rw [inferFields, inferFields]
      cases info.fieldFor? position fieldName.value with
      | none => exact steps_throw rfl
      | some field =>
          refine Steps.lowering (r.lowers_lower field.value) hnames ?_
          intro expected names names' hnames
          refine (mirrored_inferExpression value).bind fun found => ?_
          refine (setting.mirrored_constrainIn r _ expected found).bind fun _ => ?_
          exact mirrored_inferFields name info rest (position + 1) hnames

theorem mirrored_bindPattern : (p : Pattern) → (expected : Ty) →
    r.Steps id (setting.bindPattern p expected) (r.other.bindPattern p (r.type expected))
  | .wildcard, expected => by
      rw [bindPattern, bindPattern]
      exact steps_pure rfl
  | .literal p, expected => by
      rw [bindPattern, bindPattern]
      refine (mirrored_inferPrimitive p).bind fun found => ?_
      exact setting.mirrored_constrainIn r _ expected found
  | .var symbol, expected => by
      rw [bindPattern, bindPattern]
      exact r.steps_bindName symbol.value expected
  | .constructor name patterns, expected => by
      rw [bindPattern, bindPattern]
      split
      · exact r.steps_constrain expected .bool
      · refine (setting.mirrored_constructorFor r name patterns.length).bind fun info => ?_
        refine (setting.mirrored_constrainIn r _ expected (.con info.record)).bind fun _ => ?_
        exact mirrored_bindFields patterns info.fields r.names_nothing
  | .list elements, expected => by
      rw [bindPattern, bindPattern]
      refine r.steps_fresh.bind fun element => ?_
      refine (setting.mirrored_constrainIn r _ expected (.list element)).bind fun _ => ?_
      exact mirrored_bindEach elements element
  | .cons head tail, expected => by
      rw [bindPattern, bindPattern]
      refine r.steps_fresh.bind fun element => ?_
      refine (setting.mirrored_constrainIn r _ expected (.list element)).bind fun _ => ?_
      refine (mirrored_bindPattern head element).bind fun _ => ?_
      exact mirrored_bindPattern tail (.list element)
  | .as whole pattern, expected => by
      rw [bindPattern, bindPattern]
      refine (mirrored_bindPattern whole expected).bind fun _ => ?_
      exact mirrored_bindPattern pattern expected
  | .tuple elements, expected => by
      rw [bindPattern, bindPattern]
      refine (r.steps_freshFor elements).bind fun types => ?_
      have htuple : Ty.tuple (types.map r.type) = r.type (.tuple types) :=
        (Ty.rename_tuple types).symm
      rw [htuple]
      refine (setting.mirrored_constrainIn r _ expected (.tuple types)).bind fun _ => ?_
      exact mirrored_bindAll elements types

theorem mirrored_bindFields : (patterns : List Pattern) → (fields : List Field) →
    {names names' : Table String TypeVar} → r.Names names names' →
    r.Steps id (setting.bindFields patterns fields names)
      (r.other.bindFields patterns fields names')
  | [], fields, names, names', hnames => by
      rw [bindFields, bindFields]
      · exact steps_pure rfl
      · simp
      · simp
  | pattern :: rest, [], names, names', hnames => by
      rw [bindFields, bindFields]
      · exact steps_pure rfl
      · simp
      · simp
  | pattern :: rest, field :: fields, names, names', hnames => by
      rw [bindFields, bindFields]
      refine Steps.lowering (r.lowers_lower field.value) hnames ?_
      intro expected names names' hnames
      refine (mirrored_bindPattern pattern expected).bind fun _ => ?_
      exact mirrored_bindFields rest fields hnames

theorem mirrored_bindEach : (patterns : List Pattern) → (expected : Ty) →
    r.Steps id (setting.bindEach patterns expected) (r.other.bindEach patterns (r.type expected))
  | [], expected => by
      rw [bindEach, bindEach]
      exact steps_pure rfl
  | pattern :: rest, expected => by
      rw [bindEach, bindEach]
      refine (mirrored_bindPattern pattern expected).bind fun _ => ?_
      exact mirrored_bindEach rest expected

theorem mirrored_bindAll : (patterns : List Pattern) → (types : List Ty) →
    r.Steps id (setting.bindAll patterns types) (r.other.bindAll patterns (types.map r.type))
  | [], types => by
      rw [bindAll, bindAll]
      · exact steps_pure rfl
      · simp
      · simp
  | pattern :: rest, [] => by
      rw [List.map_nil, bindAll]
      · exact steps_pure rfl
      · simp
  | pattern :: rest, expected :: types => by
      rw [List.map_cons, bindAll, bindAll]
      refine (mirrored_bindPattern pattern expected).bind fun _ => ?_
      exact mirrored_bindAll rest types

theorem mirrored_bindParameters : (patterns : List Pattern) →
    r.Steps (List.map r.type) (setting.bindParameters patterns) (r.other.bindParameters patterns)
  | [] => by
      rw [bindParameters, bindParameters]
      exact steps_pure rfl
  | pattern :: rest => by
      rw [bindParameters, bindParameters]
      refine r.steps_fresh.bind fun t => ?_
      refine (mirrored_bindPattern pattern t).bind fun _ => ?_
      exact (mirrored_bindParameters rest).bind fun ts => steps_pure rfl

end

end Setting

end Rubric
