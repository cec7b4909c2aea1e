import Rubric.Proofs.Checker.Order
import Rubric.Proofs.Checker.Pairing

/-!
# Applying a function of a known type

An equation between two function types is accepted when the equations between their inputs
and between their outputs are, one after the other, and it leaves the same session. A literal
is then looked at less often, but a type that may be numeric in the end may be so before.

The equation by which an application is typed therefore amounts to one equation for each
argument. The new variable for the result is bound to what the function returns, and nothing
else is.
-/

namespace Rubric

/-! ## Equations between function types -/

namespace Unification

variable {aliases : Aliases} {s first second : Substitution} {a b c d : Ty}

/-- The unifier of a second equation is found under those of the earlier ones. -/
theorem compose_unifiers (hfree : aliases.VarFree) (hs : s.Idempotent)
    (hfirst : unify aliases (s.apply a) (s.apply b) = .ok first)
    (hsecond : unify aliases ((s.compose first).apply c) ((s.compose first).apply d) = .ok second) :
    (s.compose first).compose second = s.compose (first.compose second) ∧
      ∀ t, (s.compose (first.compose second)).apply t =
        second.apply ((s.compose first).apply t) := by
  have hunified := Unified.of_unify hfirst
  have hidempotent := hunified.idempotent hfree
  have hother := hunified.all_free hfree hs
  have hunified' := Unified.of_unify hsecond
  have hidempotent' := hunified'.idempotent hfree
  have hother' := hunified'.all_free hfree (hs.compose hidempotent hother)
  have hlater : second.All fun v => first.get? v = none :=
    hother'.mono fun v hv => (Substitution.compose_get?_none.mp hv).2
  have hassoc : (s.compose first).compose second = s.compose (first.compose second) :=
    Substitution.compose_assoc (Substitution.apply_compose hidempotent hidempotent' hlater)
  refine ⟨hassoc, fun t => ?_⟩
  rw [← hassoc]
  exact Substitution.apply_compose (hs.compose hidempotent hother) hidempotent' hother' t

end Unification

namespace Check

open Session

variable {aliases : Aliases} {literals : Arrangement TypeVar} {s after : Session}

theorem gives_constrain_func (hfree : aliases.VarFree) (hsolved : s.subst.Idempotent)
    {input output input' output' : Ty} :
    (constrain aliases literals (.func input output) (.func input' output')).Gives s () after ↔
      (constrain aliases literals input input' >>= fun _ =>
        constrain aliases literals output output').Gives s () after := by
  have hfunc : ∀ a b, s.subst.apply (.func a b) = .func (s.subst.apply a) (s.subst.apply b) :=
    fun _ _ => rfl
  have hresolved : ∀ first, unify aliases (s.subst.apply input) (s.subst.apply input') =
      .ok first → ∀ t, (s.subst.compose first).apply t = first.apply (s.subst.apply t) := by
    intro first hfirst
    have hunified := Unification.Unified.of_unify hfirst
    exact Substitution.apply_compose hsolved (hunified.idempotent hfree)
      (hunified.all_free hfree hsolved)
  rw [gives_bind]
  constructor
  · intro h
    obtain ⟨subst, hequate, rfl⟩ := gives_constrain.mp h
    obtain ⟨solution, hunify, rfl, hkinds⟩ := equate_eq_ok.mp hequate
    rw [hfunc, hfunc] at hunify
    obtain ⟨first, second, hfirst, hsecond, rfl⟩ := (Unification.unify_func_eq_ok hfree).mp hunify
    rw [← hresolved first hfirst, ← hresolved first hfirst] at hsecond
    obtain ⟨hassoc, happly⟩ := Unification.compose_unifiers hfree hsolved hfirst hsecond
    have hkinds' : ∀ v ∈ s.numeric,
        mayBeNumeric aliases ((s.subst.compose first).apply (.var v)) = true := by
      intro v hv
      have hkind := hkinds v hv
      rw [happly] at hkind
      exact mayBeNumeric_of_subst hkind
    refine ⟨(), { s with subst := s.subst.compose first }, gives_constrain.mpr ⟨_, ?_, rfl⟩,
      gives_constrain.mpr ⟨_, ?_, rfl⟩⟩
    · exact equate_eq_ok.mpr ⟨first, hfirst, rfl, hkinds'⟩
    · exact equate_eq_ok.mpr ⟨second, hsecond, hassoc.symm, hkinds⟩
  · rintro ⟨_, middle, h, h'⟩
    obtain ⟨subst, hequate, rfl⟩ := gives_constrain.mp h
    obtain ⟨first, hfirst, rfl, _⟩ := equate_eq_ok.mp hequate
    obtain ⟨subst, hequate', rfl⟩ := gives_constrain.mp h'
    obtain ⟨second, hsecond, rfl, hkinds⟩ := equate_eq_ok.mp hequate'
    dsimp only at hsecond hkinds ⊢
    obtain ⟨hassoc, _⟩ := Unification.compose_unifiers hfree hsolved hfirst hsecond
    rw [hresolved first hfirst, hresolved first hfirst] at hsecond
    rw [hassoc] at hkinds ⊢
    have hunify := (Unification.unify_func_eq_ok hfree).mpr ⟨first, second, hfirst, hsecond, rfl⟩
    rw [← hfunc, ← hfunc] at hunify
    exact gives_constrain.mpr ⟨_, equate_eq_ok.mpr ⟨_, hunify, rfl, hkinds⟩, rfl⟩

end Check

/-! ## A variable for a known type -/

namespace Session

/-- Take a new variable and bind it to a type as far as that is known. -/
def define (s : Session) (t : Ty) : Session :=
  { s with
    next := s.next + 1
    subst := s.subst.compose (.singleton ⟨s.next, none⟩ (s.subst.apply t)) }

namespace Tidy

variable {aliases : Aliases} {s : Session} {t : Ty}

theorem occurs_apply (h : s.Tidy aliases) (ht : t.Below s.next) :
    (s.subst.apply t).occurs ⟨s.next, none⟩ = false := by
  by_contra hoccurs
  exact Nat.lt_irrefl _ (h.subst.apply ht _ (Bool.eq_true_of_not_eq_false hoccurs))

theorem apply_define_eq (h : s.Tidy aliases) (ht : t.Below s.next) (u : Ty) :
    (s.define t).subst.apply u =
      (Substitution.singleton ⟨s.next, none⟩ (s.subst.apply t)).apply (s.subst.apply u) :=
  Substitution.apply_compose h.solved (Substitution.idempotent_singleton (h.occurs_apply ht))
    (Substitution.all_singleton (h.unbound (Nat.le_refl _)) (h.solved.all_apply t)) u

/-- Types over older variables are resolved as before. -/
theorem apply_define (h : s.Tidy aliases) (ht : t.Below s.next) {u : Ty} (hu : u.Below s.next) :
    (s.define t).subst.apply u = s.subst.apply u := by
  rw [h.apply_define_eq ht]
  exact Substitution.apply_singleton_of_not_occurs (h.occurs_apply hu)

theorem apply_define_new (h : s.Tidy aliases) (ht : t.Below s.next) :
    (s.define t).subst.apply (.var ⟨s.next, none⟩) = s.subst.apply t := by
  have hvar : s.subst.apply (.var ⟨s.next, none⟩) = .var ⟨s.next, none⟩ :=
    Substitution.chase_of_free (h.unbound (Nat.le_refl _)) _
  rw [h.apply_define_eq ht, hvar]
  exact Substitution.apply_singleton_self (h.occurs_apply ht)

end Tidy

/-- The second run takes a variable for a known type. -/
theorem Paired.define {aliases : Aliases} {ν : Numbering} {s s' : Session} {t : Ty}
    (h : Paired aliases ν s s') (ht : t.Below s'.next) :
    ∃ ν', Paired aliases ν' s (s'.define t) ∧ ν.Keeps s.next ν' ∧
      ∀ n, n < s'.next → ν.spare n → ν'.spare n := by
  have hskip := h.skip 1
  have hspare : (ν.skip h.counts 1).spare s'.next := .inr ⟨Nat.le_refl _, Nat.lt_succ_self _⟩
  have hlt : s'.next < s'.next + 1 := Nat.lt_succ_self _
  have hbelow : (s'.subst.apply t).Below s'.next := h.tidy'.subst.apply ht
  refine ⟨_, hskip.bind_spare (v := ⟨s'.next, none⟩) hlt hspare (hbelow.of_le (Nat.le_succ _))
    (h.tidy'.solved.all_apply t) (h.tidy'.occurs_apply ht), Numbering.keeps_skip h.counts 1, ?_⟩
  exact fun n hn hold => ⟨.inl hold, Nat.ne_of_lt hn⟩

/-- A type that is the answer of the second run may be held by a new variable. -/
theorem EndAlike.define {aliases : Aliases} {ν : Numbering} {start after middle : Session}
    {t t' : Ty} (h : start.EndAlike aliases t after t' middle ν) (ht' : t'.Below middle.next) :
    ∃ ν', start.EndAlike aliases t after (middle.subst.apply t') (middle.define t') ν' := by
  obtain ⟨ν', hpaired, hkeeps, _⟩ := h.paired.define ht'
  have htidy := h.paired.tidy'
  refine ⟨ν', h.next, h.keeps.trans hkeeps h.next, hpaired, h.below, ?_⟩
  rw [htidy.apply_define ht' (htidy.subst.apply ht'), htidy.apply_apply, h.answer]
  exact (hkeeps.rename (h.paired.tidy.subst.apply h.below)).symm

end Session

/-! ## Applications -/

namespace Check

open Session

variable {aliases : Aliases} {literals : Arrangement TypeVar} {s middle after : Session}
  {equations : List (Ty × Ty)} {result : Ty}

/-- Equations over variables that have been taken are steps of the session, and they take no
variables. -/
theorem reaches_constrainAll
    (hbelow : ∀ equation ∈ equations, equation.1.Below s.next ∧ equation.2.Below s.next)
    (hgives : (constrainAll aliases literals equations).Gives s () middle) :
    s.Reaches aliases middle ∧ middle.next = s.next := by
  induction equations generalizing s with
  | nil =>
      obtain ⟨_, rfl⟩ := gives_pure.mp hgives
      exact ⟨.refl _, rfl⟩
  | cons equation rest ih =>
      obtain ⟨⟨hexpected, hfound⟩, hrest⟩ := List.forall_mem_cons.mp hbelow
      obtain ⟨_, first, hfirst, hgives⟩ := gives_bind.mp hgives
      obtain ⟨subst, hequate, rfl⟩ := gives_constrain.mp hfirst
      obtain ⟨hreaches, hnext⟩ := ih (s := { s with subst }) hrest hgives
      exact ⟨(Reaches.step (.accept hexpected hfound hequate)).trans hreaches, hnext⟩

/-- A new variable takes the type on the other side, and nothing is looked at that was not
known before. -/
theorem gives_constrain_new (hfree : aliases.VarFree) (h : s.Tidy aliases)
    (hresult : result.Below s.next) (hvar : result.isVar = false) :
    (constrain aliases literals result (.var ⟨s.next, none⟩)).Gives
      { s with next := s.next + 1 } () after ↔ after = s.define result := by
  have hnew : s.subst.apply (.var ⟨s.next, none⟩) = .var ⟨s.next, none⟩ :=
    Substitution.chase_of_free (h.unbound (Nat.le_refl _)) _
  have hunify : unify aliases (s.subst.apply result) (s.subst.apply (.var ⟨s.next, none⟩)) =
      .ok (.singleton ⟨s.next, none⟩ (s.subst.apply result)) := by
    rw [hnew]
    exact Unification.unify_var_right hfree (Ty.isVar_subst _ hvar) (h.occurs_apply hresult)
  have hkinds : ∀ v ∈ s.numeric,
      mayBeNumeric aliases ((s.define result).subst.apply (.var v)) = true := by
    intro v hv
    rw [h.apply_define hresult (Ty.all_var.mpr (h.numeric v hv))]
    exact h.kinds v hv
  rw [gives_constrain]
  constructor
  · rintro ⟨subst, hequate, rfl⟩
    obtain ⟨solution, hsolution, rfl, _⟩ := equate_eq_ok.mp hequate
    obtain rfl : solution = .singleton ⟨s.next, none⟩ (s.subst.apply result) :=
      Except.ok.inj (hsolution.symm.trans hunify)
    rfl
  · rintro rfl
    exact ⟨_, equate_eq_ok.mpr ⟨_, hunify, rfl, hkinds⟩, rfl⟩

/-- The equation between a function and its uses, argument by argument. -/
theorem gives_constrain_curried (hfree : aliases.VarFree) (h : s.Tidy aliases)
    (hbelow : ∀ equation ∈ equations, equation.1.Below s.next ∧ equation.2.Below s.next)
    (hresult : result.Below s.next) (hvar : result.isVar = false) :
    (constrain aliases literals (.curried (equations.map Prod.fst) result)
        (.curried (equations.map Prod.snd) (.var ⟨s.next, none⟩))).Gives
        { s with next := s.next + 1 } () after ↔
      ∃ middle, (constrainAll aliases literals equations).Gives s () middle ∧
        after = middle.define result := by
  induction equations generalizing s with
  | nil =>
      refine (gives_constrain_new hfree h hresult hvar).trans ?_
      constructor
      · intro hafter
        exact ⟨s, gives_pure.mpr ⟨rfl, rfl⟩, hafter⟩
      · rintro ⟨middle, hgives, hafter⟩
        obtain ⟨_, rfl⟩ := gives_pure.mp hgives
        exact hafter
  | cons equation rest ih =>
      obtain ⟨⟨hexpected, hfound⟩, hrest⟩ := List.forall_mem_cons.mp hbelow
      refine (gives_constrain_func (s := { s with next := s.next + 1 }) hfree h.solved).trans ?_
      rw [gives_bind]
      constructor
      · rintro ⟨_, middle, hfirst, hgives⟩
        obtain ⟨subst, hequate, rfl⟩ := gives_constrain.mp hfirst
        have htidy := (Step.accept hexpected hfound hequate).tidy hfree h
        obtain ⟨last, hlast, rfl⟩ := (ih htidy hrest hresult).mp hgives
        exact ⟨last, gives_bind.mpr ⟨(), _, gives_constrain.mpr ⟨subst, hequate, rfl⟩, hlast⟩, rfl⟩
      · rintro ⟨last, hgives, rfl⟩
        obtain ⟨_, middle, hfirst, hlast⟩ := gives_bind.mp hgives
        obtain ⟨subst, hequate, rfl⟩ := gives_constrain.mp hfirst
        have htidy := (Step.accept hexpected hfound hequate).tidy hfree h
        exact ⟨(), _, gives_constrain.mpr ⟨subst, hequate, rfl⟩,
          (ih htidy hrest hresult).mpr ⟨last, hlast, rfl⟩⟩

end Check

namespace Setting

open Check Session

variable (setting : Setting)

/-- Require a function to take arguments of given types, and answer what it returns. -/
def applied (context : String) (function : Ty) (arguments : List Ty) : Check Ty := do
  let result ← fresh
  setting.constrainIn context function (.curried arguments result)
  resolve result

variable {s after : Session} {equations : List (Ty × Ty)} {function result : Ty}

theorem gives_applied (hfree : setting.aliases.VarFree) (h : s.Tidy setting.aliases)
    (context : String) (hfunction : s.subst.apply function =
      s.subst.apply (.curried (equations.map Prod.fst) result))
    (hbelow : ∀ equation ∈ equations, equation.1.Below s.next ∧ equation.2.Below s.next)
    (hresult : result.Below s.next) (hvar : result.isVar = false) {t : Ty} :
    (setting.applied context function (equations.map Prod.snd)).Gives s t after ↔
      ∃ middle, (constrainAll setting.aliases setting.literals equations).Gives s () middle ∧
        t = middle.subst.apply result ∧ after = middle.define result := by
  have hnext : (setting.constrainIn context function (.curried (equations.map Prod.snd)
      (.var ⟨s.next, none⟩))).Gives { s with next := s.next + 1 } () after ↔
        ∃ middle, (constrainAll setting.aliases setting.literals equations).Gives s () middle ∧
          after = middle.define result := by
    rw [← gives_constrain_curried hfree h hbelow hresult hvar]
    refine gives_inContext.trans ?_
    exact gives_constrain_congr hfunction rfl
  have hanswer : ∀ middle,
      (constrainAll setting.aliases setting.literals equations).Gives s () middle →
      (middle.define result).subst.apply (.var ⟨s.next, none⟩) = middle.subst.apply result := by
    intro middle hmiddle
    obtain ⟨hreaches, hnext⟩ := reaches_constrainAll hbelow hmiddle
    rw [← hnext] at hresult ⊢
    exact (hreaches.tidy hfree h).apply_define_new hresult
  constructor
  · intro hgives
    obtain ⟨_, _, hfresh, hgives⟩ := gives_bind.mp hgives
    obtain ⟨rfl, rfl⟩ := gives_fresh.mp hfresh
    obtain ⟨_, _, hconstrain, hgives⟩ := gives_bind.mp hgives
    obtain ⟨rfl, rfl⟩ := gives_resolve.mp hgives
    obtain ⟨middle, hmiddle, rfl⟩ := hnext.mp hconstrain
    exact ⟨middle, hmiddle, hanswer middle hmiddle, rfl⟩
  · rintro ⟨middle, hmiddle, rfl, rfl⟩
    refine gives_bind.mpr ⟨_, _, gives_fresh.mpr ⟨rfl, rfl⟩, gives_bind.mpr
      ⟨(), _, hnext.mpr ⟨middle, hmiddle, rfl⟩, gives_resolve.mpr ⟨?_, rfl⟩⟩⟩
    exact (hanswer middle hmiddle).symm

/-- A run that agrees with the equations for the arguments agrees with the application. -/
theorem agree_applied (hfree : setting.aliases.VarFree) {s' : Session}
    (h : s'.Tidy setting.aliases) (context : String) (hfunction : s'.subst.apply function =
      s'.subst.apply (.curried (equations.map Prod.fst) result))
    (hbelow : ∀ equation ∈ equations, equation.1.Below s'.next ∧ equation.2.Below s'.next)
    (hresult : result.Below s'.next) (hvar : result.isVar = false) {α : Type} {step : Check α}
    {p : α → Session → Session → Prop}
    (hstep : Agree (fun a after _ middle => p a after middle) step s
      (constrainAll setting.aliases setting.literals equations) s') :
    Agree (fun a after t after' => ∃ middle, p a after middle ∧ s'.next = middle.next ∧
      t = middle.subst.apply result ∧ after' = middle.define result) step s
      (setting.applied context function (equations.map Prod.snd)) s' := by
  constructor
  · intro a after ha
    obtain ⟨_, middle, hmiddle, hp⟩ := hstep.forth a after ha
    have hnext := (reaches_constrainAll hbelow hmiddle).2
    have hgives := (setting.gives_applied hfree h context hfunction hbelow hresult hvar).mpr
      ⟨middle, hmiddle, rfl, rfl⟩
    exact ⟨_, _, hgives, middle, hp, hnext.symm, rfl, rfl⟩
  · intro t after' ht
    obtain ⟨middle, hmiddle, _⟩ :=
      (setting.gives_applied hfree h context hfunction hbelow hresult hvar).mp ht
    exact hstep.back () middle hmiddle

end Setting

end Rubric
