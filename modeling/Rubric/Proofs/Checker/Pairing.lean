import Rubric.Proofs.Checker.Growth
import Rubric.Proofs.Checker.Numbering
import Rubric.Proofs.Checker.Soundness
import Rubric.Proofs.Unification.Arrows

/-!
# Sessions of two runs

Two steps agree on two sessions when they succeed together and their outcomes are related.
Agreement is closed under sequencing, and a step that succeeds can also be taken by one of
the two runs alone.

Two tidy sessions are paired by a numbering when they correspond under it. Steps that mirror
each other keep sessions paired. The numbering may change between steps: only what it says
about the variables taken so far counts.
-/

namespace Rubric

namespace Check

variable {α β γ δ : Type}

/-- The steps succeed together, and then their outcomes are related. -/
structure Agree (p : α → Session → β → Session → Prop) (step : Check α) (s : Session)
    (step' : Check β) (s' : Session) : Prop where
  forth : ∀ a after, step.Gives s a after →
    ∃ a' after', step'.Gives s' a' after' ∧ p a after a' after'
  back : ∀ a' after', step'.Gives s' a' after' → ∃ a after, step.Gives s a after

namespace Agree

variable {p q : α → Session → β → Session → Prop} {step : Check α} {step' : Check β}
  {s s' : Session}

theorem related (h : Agree p step s step' s') {a : α} {a' : β} {after after' : Session}
    (hgives : step.Gives s a after) (hgives' : step'.Gives s' a' after') : p a after a' after' := by
  obtain ⟨b, other, hother, hp⟩ := h.forth a after hgives
  obtain ⟨rfl, rfl⟩ := hother.unique hgives'
  exact hp

theorem mono (h : Agree p step s step' s')
    (himp : ∀ a after a' after', p a after a' after' → q a after a' after') :
    Agree q step s step' s' := by
  refine ⟨fun a after hgives => ?_, h.back⟩
  obtain ⟨a', after', hgives', hp⟩ := h.forth a after hgives
  exact ⟨a', after', hgives', himp _ _ _ _ hp⟩

theorem of_gives {a : α} {a' : β} {after after' : Session} (h : step.Gives s a after)
    (h' : step'.Gives s' a' after') (hp : p a after a' after') : Agree p step s step' s' := by
  refine ⟨fun b other hgives => ?_, fun _ _ _ => ⟨a, after, h⟩⟩
  obtain ⟨rfl, rfl⟩ := h.unique hgives
  exact ⟨a', after', h', hp⟩

theorem bind {r : γ → Session → δ → Session → Prop} {next : α → Check γ}
    {next' : β → Check δ} (h : Agree p step s step' s')
    (hnext : ∀ a after a' after', p a after a' after' →
      Agree r (next a) after (next' a') after') :
    Agree r (step >>= next) s (step' >>= next') s' := by
  constructor
  · intro c last hgives
    obtain ⟨a, after, hstep, hrest⟩ := gives_bind.mp hgives
    obtain ⟨a', after', hstep', hp⟩ := h.forth a after hstep
    obtain ⟨d, last', hrest', hr⟩ := (hnext a after a' after' hp).forth c last hrest
    exact ⟨d, last', gives_bind.mpr ⟨a', after', hstep', hrest'⟩, hr⟩
  · intro d last' hgives
    obtain ⟨a', after', hstep', hrest'⟩ := gives_bind.mp hgives
    obtain ⟨a, after, hstep⟩ := h.back a' after' hstep'
    have hp := h.related hstep hstep'
    obtain ⟨c, last, hrest⟩ := (hnext a after a' after' hp).back d last' hrest'
    exact ⟨c, last, gives_bind.mpr ⟨a, after, hstep, hrest⟩⟩

/-- The first run takes a step alone. -/
theorem left {r : γ → Session → β → Session → Prop} {next : α → Check γ} {a : α}
    {after : Session} (h : step.Gives s a after) (hnext : Agree r (next a) after step' s') :
    Agree r (step >>= next) s step' s' := by
  constructor
  · intro c last hgives
    obtain ⟨b, other, hstep, hrest⟩ := gives_bind.mp hgives
    obtain ⟨rfl, rfl⟩ := h.unique hstep
    exact hnext.forth c last hrest
  · intro a' after' hgives
    obtain ⟨c, last, hrest⟩ := hnext.back a' after' hgives
    exact ⟨c, last, gives_bind.mpr ⟨a, after, h, hrest⟩⟩

/-- The second run takes a step alone. -/
theorem right {r : α → Session → δ → Session → Prop} {next' : β → Check δ} {a' : β}
    {after' : Session} (h : step'.Gives s' a' after') (hnext : Agree r step s (next' a') after') :
    Agree r step s (step' >>= next') s' := by
  constructor
  · intro a after hgives
    obtain ⟨d, last', hrest', hr⟩ := hnext.forth a after hgives
    exact ⟨d, last', gives_bind.mpr ⟨a', after', h, hrest'⟩, hr⟩
  · intro d last' hgives
    obtain ⟨b', other', hstep', hrest'⟩ := gives_bind.mp hgives
    obtain ⟨rfl, rfl⟩ := h.unique hstep'
    exact hnext.back d last' hrest'

end Agree

end Check

namespace Session

open Check

/-! ## Paired sessions -/

/-- Tidy sessions of two runs that correspond under a numbering. -/
structure Paired (aliases : Aliases) (ν : Numbering) (s s' : Session) : Prop where
  tidy : s.Tidy aliases
  tidy' : s'.Tidy aliases
  counts : ν.shift.Counts s.next s'.next
  subst : ν.Alike s.subst s'.subst
  numeric : s'.numeric = s.numeric.map ν.var
  scopes : ∀ name, s'.scopes.lookup name = (s.scopes.lookup name).map (Ty.rename ν.var)

/-- A session corresponds to itself. -/
theorem paired_same {aliases : Aliases} {s : Session} (h : s.Tidy aliases) :
    Paired aliases (.same s.next) s s := by
  have hrename : ∀ t : Ty, t.rename (Numbering.same s.next).var = t :=
    fun t => Ty.rename_eq_self fun _ _ => rfl
  refine ⟨h, h, ⟨0, rfl, rfl⟩, ⟨h.solved, h.solved, ?_, fun _ hspare => hspare.elim⟩, ?_, ?_⟩
  · intro v
    rw [hrename]
    rfl
  · exact (List.map_id _).symm
  · intro name
    cases s.scopes.lookup name with
    | none => rfl
    | some t => exact congrArg some (hrename t).symm

namespace Paired

variable {aliases : Aliases} {ν : Numbering} {s s' : Session}

theorem related {setting : Setting} (hfree : setting.aliases.VarFree)
    (h : Paired setting.aliases ν s s') : (ν.renumbering hfree).Related s s' :=
  ⟨h.counts, h.subst, h.numeric, h.scopes⟩

theorem apply (h : Paired aliases ν s s') (t : Ty) :
    s'.subst.apply (t.rename ν.var) = (s.subst.apply t).rename ν.var :=
  h.subst.apply t

/-- What the first run has taken, the second has taken as well. -/
theorem below (h : Paired aliases ν s s') {t : Ty} (ht : t.Below s.next) :
    (t.rename ν.var).Below s'.next :=
  Ty.all_subst_iff.mpr fun v hv => Ty.all_var.mpr (Numbering.number_lt h.counts (ht v hv))

/-! ## Steps of both runs -/

/-- Steps that mirror each other keep sessions paired. -/
theorem steps {α : Type} {setting : Setting} (hfree : setting.aliases.VarFree)
    (h : Paired setting.aliases ν s s') {act : α → α} {step step' : Check α}
    {p p' : Nat → α → Prop} {R R' : (TypeVar → Ty) → Scopes → Scopes → α → Prop}
    (hsteps : (ν.renumbering hfree).Steps act step step')
    (hensures : step.Ensures setting.aliases s.next p R)
    (hensures' : step'.Ensures setting.aliases s'.next p' R') :
    Agree (fun a after a' after' => a' = act a ∧ p after.next a ∧
      Paired setting.aliases ν after after' ∧ s.Reaches setting.aliases after ∧
      s'.Reaches setting.aliases after') step s step' s' := by
  obtain ⟨houtcome, hafter⟩ := hsteps s s' (h.related hfree)
  constructor
  · intro a after hgives
    have hrun : step.run.run s = (.ok a, after) := hgives
    rw [hrun] at houtcome hafter
    generalize hanswer' : (step'.run.run s').1 = outcome' at houtcome
    cases houtcome
    have hgives' : step'.Gives s' (act a) (step'.run.run s').2 := Prod.ext hanswer' rfl
    obtain ⟨hreaches, ha, _⟩ := hensures s a after (Nat.le_refl _) h.tidy hgives
    obtain ⟨hreaches', _, _⟩ := hensures' s' _ _ (Nat.le_refl _) h.tidy' hgives'
    refine ⟨act a, _, hgives', rfl, ha, ⟨?_, ?_, ?_, ?_, ?_, ?_⟩, hreaches, hreaches'⟩
    · exact hreaches.tidy hfree h.tidy
    · exact hreaches'.tidy hfree h.tidy'
    · exact hafter.counts
    · exact hafter.subst
    · exact hafter.numeric
    · exact hafter.scopes
  · intro a' after' hgives'
    have hrun' : step'.run.run s' = (.ok a', after') := hgives'
    rw [hrun'] at houtcome
    generalize hanswer : (step.run.run s).1 = outcome at houtcome
    cases houtcome with
    | ok a => exact ⟨a, _, Prod.ext hanswer rfl⟩

theorem infer {setting : Setting} (hfree : setting.aliases.VarFree)
    (h : Paired setting.aliases ν s s') (e : Expression) :
    Agree (fun t after t' after' => t' = t.rename ν.var ∧ t.Below after.next ∧
      Paired setting.aliases ν after after' ∧ s.Reaches setting.aliases after ∧
      s'.Reaches setting.aliases after') (setting.inferExpression e) s
      (setting.inferExpression e) s' :=
  h.steps hfree (setting.mirrored_inferExpression (ν.renumbering hfree) e)
    (setting.ensures_inferExpression hfree e _) (setting.ensures_inferExpression hfree e _)

/-- An equation of the second run may be written in any way that is resolved alike. -/
theorem constrainIn {setting : Setting} (hfree : setting.aliases.VarFree)
    (h : Paired setting.aliases ν s s') (context : String) {expected found expected' found' : Ty}
    (hexpected : expected.Below s.next) (hfound : found.Below s.next)
    (hexpected' : s'.subst.apply expected' = s'.subst.apply (expected.rename ν.var))
    (hfound' : s'.subst.apply found' = s'.subst.apply (found.rename ν.var)) :
    Agree (fun _ after _ after' => Paired setting.aliases ν after after' ∧
      s.Reaches setting.aliases after ∧ s'.Reaches setting.aliases after')
      (setting.constrainIn context expected found) s
      (Check.constrain setting.aliases setting.literals expected' found') s' := by
  have hmirrored := h.steps hfree
    (setting.mirrored_constrainIn (ν.renumbering hfree) context expected found)
    (setting.ensures_constrainIn hfree context hexpected hfound)
    (setting.ensures_constrainIn hfree context (h.below hexpected) (h.below hfound))
  have hsame : ∀ after',
      (Check.constrain setting.aliases setting.literals expected' found').Gives s' () after' ↔
      (setting.constrainIn context (expected.rename ν.var) (found.rename ν.var)).Gives
        s' () after' :=
    fun _ => (gives_constrain_congr hexpected' hfound').trans gives_inContext.symm
  constructor
  · intro _ after hgives
    obtain ⟨_, after', hgives', _, _, hafter⟩ := hmirrored.forth () after hgives
    exact ⟨(), after', (hsame after').mpr hgives', hafter⟩
  · intro _ after' hgives'
    exact hmirrored.back () after' ((hsame after').mp hgives')

/-! ## Changing the numbering -/

/-- Nothing is known of variables that neither run has used. -/
theorem renumber (h : Paired aliases ν s s') {ν' : Numbering} {next next' : Nat}
    (hnext : s.next ≤ next) (hnext' : s'.next ≤ next') (hcounts : ν'.shift.Counts next next')
    (hkeeps : ν.Keeps s.next ν')
    (hnew : ∀ n, s.next ≤ n → ν.spare (ν'.number n) ∨ s'.next ≤ ν'.number n)
    (hspare : ∀ n, ν'.spare n → ν.spare n ∨ s'.next ≤ n) :
    Paired aliases ν' { s with next } { s' with next := next' } := by
  have hunbound : ∀ v : TypeVar, ν.spare v.id ∨ s'.next ≤ v.id → s'.subst.get? v = none := by
    rintro v (hv | hv)
    · exact h.subst.free v hv
    · exact h.tidy'.unbound hv
  refine ⟨h.tidy.advance hnext, h.tidy'.advance hnext', hcounts,
    ⟨h.tidy.solved, h.tidy'.solved, ?_, fun v hv => hunbound v (hspare v.id hv)⟩, ?_, ?_⟩
  · intro v
    by_cases hv : v.id < s.next
    · rw [hkeeps.var hv, h.subst.image, hkeeps.rename (h.tidy.below_image hv)]
    · have hle : s.next ≤ v.id := Nat.le_of_not_lt hv
      rw [Substitution.image_of_free (h.tidy.unbound hle),
        Substitution.image_of_free (hunbound (ν'.var v) (hnew v.id hle)), Ty.rename_var]
  · show s'.numeric = s.numeric.map ν'.var
    rw [h.numeric]
    exact List.map_congr_left fun v hv => (hkeeps.var (h.tidy.numeric v hv)).symm
  · intro name
    show s'.scopes.lookup name = (s.scopes.lookup name).map (Ty.rename ν'.var)
    rw [h.scopes]
    cases hname : s.scopes.lookup name with
    | none => rfl
    | some t => exact congrArg some (hkeeps.rename (h.tidy.scopes name t hname)).symm

/-- The second run takes variables of its own. -/
theorem skip (h : Paired aliases ν s s') (more : Nat) :
    Paired aliases (ν.skip h.counts more) s { s' with next := s'.next + more } := by
  refine h.renumber (Nat.le_refl _) (Nat.le_add_right _ _) ⟨0, rfl, rfl⟩
    (Numbering.keeps_skip h.counts more) ?_ ?_
  · intro n hn
    have hnumber := Numbering.number_of_le h.counts hn
    refine .inr ?_
    show s'.next ≤ if n < s.next then ν.number n else ν.number n + more
    rw [if_neg (Nat.not_lt.mpr hn)]
    omega
  · rintro n (hspare | ⟨hle, _⟩)
    · exact .inl hspare
    · exact .inr hle

/-- The first run takes variables for which the second has spare ones. -/
theorem take (h : Paired aliases ν s s') (start more : Nat)
    (hspare : ∀ n, n < more → ν.spare (start + n)) :
    ∃ ν', Paired aliases ν' { s with next := s.next + more } s' ∧ ν.Keeps s.next ν' ∧
      (∀ n, n < more → ν'.number (s.next + n) = start + n) ∧
      ∀ n, start + more ≤ n → ν.spare n → ν'.spare n := by
  refine ⟨ν.take h.counts start more hspare, ?_, Numbering.keeps_take h.counts start more hspare,
    fun n hn => Numbering.number_take h.counts hn, fun n hn hold => ⟨hold, by omega⟩⟩
  refine h.renumber (Nat.le_add_right _ _) (Nat.le_refl _) ⟨0, rfl, rfl⟩
    (Numbering.keeps_take h.counts start more hspare) ?_ ?_
  · intro n hn
    obtain ⟨k, rfl⟩ := Nat.exists_eq_add_of_le hn
    by_cases hk : k < more
    · rw [Numbering.number_take h.counts hk]
      exact .inl (hspare k hk)
    · have hnumber := Numbering.number_of_le h.counts (n := s.next + k - more) (by omega)
      refine .inr ?_
      show s'.next ≤ if s.next ≤ s.next + k ∧ s.next + k < s.next + more then _
        else ν.number (if s.next + k < s.next then s.next + k else s.next + k - more)
      rw [if_neg (by omega), if_neg (by omega)]
      omega
  · exact fun n hn => .inl hn.1

/-! ## Binding spare variables -/

/-- A spare variable of the second run gets a type, and no other variable that stands for one
of the first run notices. -/
theorem bind_spare (h : Paired aliases ν s s') {v : TypeVar} {t : Ty} (hv : v.id < s'.next)
    (hspare : ν.spare v.id) (ht : t.Below s'.next)
    (hresolved : t.All fun w => s'.subst.get? w = none) (hoccurs : t.occurs v = false) :
    Paired aliases (ν.restrict (· ≠ v.id)) s
      { s' with subst := s'.subst.compose (.singleton v t) } := by
  have hsingle := Substitution.idempotent_singleton hoccurs
  have hunbound := h.subst.free v hspare
  have hsolved : (s'.subst.compose (.singleton v t)).Idempotent :=
    h.tidy'.solved.compose hsingle (Substitution.all_singleton hunbound hresolved)
  have himage : ∀ w, (s'.subst.compose (.singleton v t)).image (ν.var w) =
      s'.subst.image (ν.var w) := by
    intro w
    rw [Substitution.image_compose hsingle, h.subst.image]
    have hother : ((s.subst.image w).rename ν.var).All
        fun u => (Substitution.singleton v t).get? u = none := by
      refine Ty.all_subst_iff.mpr fun x _ => Ty.all_var.mpr ?_
      rw [Substitution.get?_singleton, if_neg (ν.var_ne hspare x).symm]
    exact Ty.subst_eq_self fun u hu => Substitution.image_of_free (hother u hu)
  have hkinds : ∀ u ∈ s'.numeric, mayBeNumeric aliases
      ((s'.subst.compose (.singleton v t)).apply (.var u)) = true := by
    intro u hu
    have hkind := h.tidy'.kinds u hu
    rw [h.numeric] at hu
    obtain ⟨w, _, rfl⟩ := List.mem_map.mp hu
    rw [h.tidy'.solved.apply_eq] at hkind
    rw [hsolved.apply_eq, Ty.subst, himage]
    exact hkind
  refine ⟨h.tidy, ⟨hsolved, ?_, h.tidy'.numeric, hkinds, h.tidy'.scopes⟩, h.counts,
    ⟨h.tidy.solved, hsolved, ?_, ?_⟩, h.numeric, h.scopes⟩
  · exact h.tidy'.subst.compose (Substitution.all_singleton hv ht)
  · intro w
    exact (himage w).trans (h.subst.image w)
  · rintro w ⟨hw, hne⟩
    refine Substitution.compose_get?_none.mpr ⟨h.subst.free w hw, ?_⟩
    rw [Substitution.get?_singleton, if_neg]
    rintro rfl
    exact hne rfl

/-- A spare variable takes the type on the other side of an equation. -/
theorem assign (hfree : aliases.VarFree) (h : Paired aliases ν s s')
    (literals : Arrangement TypeVar) {v : TypeVar} {t : Ty} (hv : v.id < s'.next)
    (hspare : ν.spare v.id) (ht : t.Below s.next) :
    ∃ after, (Check.constrain aliases literals (.var v) (t.rename ν.var)).Gives s' () after ∧
      Paired aliases (ν.restrict (· ≠ v.id)) s after ∧
      after.subst.apply (.var v) = after.subst.apply (t.rename ν.var) := by
  have hunbound := h.subst.free v hspare
  have hresolved := h.tidy'.solved.all_apply (t.rename ν.var)
  have hoccurs : (s'.subst.apply (t.rename ν.var)).occurs v = false := by
    have hall : ((s.subst.apply t).rename ν.var).All fun u => u ≠ v :=
      Ty.all_subst_iff.mpr fun w _ => Ty.all_var.mpr (ν.var_ne hspare w)
    rw [h.apply]
    by_contra hne
    exact hall v (Bool.eq_true_of_not_eq_false hne) rfl
  have hsingle := Substitution.idempotent_singleton hoccurs
  have hpaired := h.bind_spare hv hspare (h.tidy'.subst.apply (h.below ht)) hresolved hoccurs
  have hvar : s'.subst.apply (.var v) = .var v := Substitution.chase_of_free hunbound _
  have hunify : unify aliases (s'.subst.apply (.var v)) (s'.subst.apply (t.rename ν.var)) =
      .ok (.singleton v (s'.subst.apply (t.rename ν.var))) := by
    rw [hvar]
    exact Unification.unify_var_left hfree hoccurs
  refine ⟨_, gives_constrain.mpr ⟨_, equate_eq_ok.mpr ⟨_, hunify, rfl, hpaired.tidy'.kinds⟩, rfl⟩,
    hpaired, ?_⟩
  have hfree' := Substitution.all_singleton hunbound hresolved
  dsimp only
  rw [Substitution.apply_compose h.tidy'.solved hsingle hfree',
    Substitution.apply_compose h.tidy'.solved hsingle hfree', hvar,
    Substitution.apply_singleton_self hoccurs, Substitution.apply_singleton_of_not_occurs hoccurs]

end Paired

/-! ## Runs from one session -/

/-- Two runs from one session have ended in sessions that correspond, with answers that are
resolved alike. The variables from before the runs stand for themselves. -/
structure EndAlike (aliases : Aliases) (start : Session) (t : Ty) (after : Session) (t' : Ty)
    (after' : Session) (ν : Numbering) : Prop where
  next : start.next ≤ after.next
  keeps : (Numbering.same start.next).Keeps start.next ν
  paired : Paired aliases ν after after'
  below : t.Below after.next
  answer : after'.subst.apply t' = (after.subst.apply t).rename ν.var

/-- A type of the first session and one of the second that is resolved alike. -/
theorem Paired.endAlike {aliases : Aliases} {ν : Numbering} {start s s' : Session}
    (h : Paired aliases ν s s') (hnext : start.next ≤ s.next)
    (hkeeps : (Numbering.same start.next).Keeps start.next ν) {t t' : Ty} (ht : t.Below s.next)
    (ht' : s'.subst.apply t' = s'.subst.apply (t.rename ν.var)) :
    start.EndAlike aliases (s.subst.apply t) s t' s' ν := by
  refine ⟨hnext, hkeeps, h, h.tidy.subst.apply ht, ?_⟩
  rw [ht', h.apply, h.tidy.apply_apply]

end Session

/-- Give a variable another number. -/
def TypeVar.renumber (π : Equiv.Perm Nat) (v : TypeVar) : TypeVar :=
  { v with id := π v.id }

namespace Check

/-- Started on a session, the two steps succeed or fail together. If they succeed, their
answers and all variables from before are resolved to the same types, up to a permutation of
the numbers that the runs have taken. -/
structure Interchangeable (session : Session) (step step' : Check Ty) : Prop where
  succeeds : (∃ t after, step.Gives session t after) ↔ ∃ t after, step'.Gives session t after
  resolves : ∀ t after t' after', step.Gives session t after → step'.Gives session t' after' →
    ∃ π : Equiv.Perm Nat,
      (∀ n, n < session.next ∨ after.next ≤ n ∧ after'.next ≤ n → π n = n) ∧
      after'.subst.apply t' = (after.subst.apply t).rename (TypeVar.renumber π) ∧
      ∀ v, v.id < session.next →
        after'.subst.apply (.var v) = (after.subst.apply (.var v)).rename (TypeVar.renumber π)

theorem interchangeable_of_agree {aliases : Aliases} {session : Session} {step step' : Check Ty}
    (h : Agree (fun t after t' after' => ∃ ν, session.EndAlike aliases t after t' after' ν)
      step session step' session) :
    Interchangeable session step step' := by
  refine ⟨⟨?_, ?_⟩, ?_⟩
  · rintro ⟨t, after, hgives⟩
    obtain ⟨t', after', hgives', _⟩ := h.forth t after hgives
    exact ⟨t', after', hgives'⟩
  · rintro ⟨t', after', hgives'⟩
    exact h.back t' after' hgives'
  · intro t after t' after' hgives hgives'
    obtain ⟨ν, hends⟩ := h.related hgives hgives'
    obtain ⟨π, hπ, hlater⟩ := Numbering.exists_perm hends.paired.counts
    have hrename : ∀ u : Ty, u.Below after.next →
        u.rename (TypeVar.renumber π) = u.rename ν.var := by
      intro u hu
      exact Ty.rename_congr (Ty.All.mono hu fun v hv => congrArg (TypeVar.mk · v.name) (hπ _ hv))
    have hresolved : ∀ u : Ty, u.Below after.next → (after.subst.apply u).Below after.next :=
      fun _ hu => hends.paired.tidy.subst.apply hu
    refine ⟨π, ?_, ?_, ?_⟩
    · rintro n (hn | ⟨_, hn⟩)
      · rw [hπ n (Nat.lt_of_lt_of_le hn hends.next)]
        exact hends.keeps n hn
      · exact hlater n hn
    · rw [hends.answer, hrename _ (hresolved t hends.below)]
    · intro v hv
      have hv' : Ty.Below after.next (.var v) :=
        Ty.all_var.mpr (Nat.lt_of_lt_of_le hv hends.next)
      have hself : ν.var v = v := hends.keeps.var hv
      rw [hrename _ (hresolved _ hv'), ← hends.paired.apply, Ty.rename_var, hself]

end Check

end Rubric
