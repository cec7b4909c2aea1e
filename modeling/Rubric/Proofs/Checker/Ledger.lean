import Rubric.Proofs.Checker.Ensures
import Rubric.Proofs.Unification.Recursion

/-!
# Issued variables

Every variable of a run was issued at some time. Its number was the counter then, and it got
the name that was asked for or none. The ledger of a run lists these names in the order of
the numbers, so it only ever grows at its end, and a variable is on it when its number has
its name there. Lowering a written type issues variables and returns a type over issued ones.

A session is orderly when everything that it holds was issued and its numeric literals may
still be numbers. This holds for all aliases of a program, also for those with variables.
Without variables in alias bodies the substitution is in solved form as well.
-/

namespace Rubric

namespace TypeError

/-- The types that an error speaks about. -/
def types : TypeError → List Ty
  | mismatch expected found _ => [expected, found]
  | occurs v t => [.var v, t]
  | unsupportedOperand _ found => [found]
  | nonNumericLiteral found => [found]
  | _ => []

/-- The context of a mismatch has no types. -/
theorem types_withContext (context : String) (error : TypeError) :
    (error.withContext context).types = error.types := by
  cases error <;> rfl

end TypeError

/-- The names of the variables issued so far, in the order of their numbers. -/
abbrev Ledger := List (Option String)

namespace Ledger

variable {ledger later : Ledger}

/-- A variable was issued under its own name. -/
def Has (ledger : Ledger) (v : TypeVar) : Prop :=
  ledger[v.id]? = some v.name

/-- All variables of a type were issued. -/
def Types (ledger : Ledger) (t : Ty) : Prop :=
  t.All ledger.Has

/-- All variables of an error were issued. -/
def Errors (ledger : Ledger) (error : TypeError) : Prop :=
  ∀ t ∈ error.types, ledger.Types t

theorem Has.lt_length {v : TypeVar} (h : ledger.Has v) : v.id < ledger.length := by
  obtain ⟨hlt, _⟩ := List.getElem?_eq_some_iff.mp h
  exact hlt

theorem Has.mono {v : TypeVar} (h : ledger.Has v) (hle : ledger <+: later) : later.Has v := by
  obtain ⟨rest, rfl⟩ := hle
  unfold Has
  rw [List.getElem?_append_left h.lt_length]
  exact h

/-- A number was issued once. -/
theorem Has.unique {v w : TypeVar} (hv : ledger.Has v) (hw : ledger.Has w) (h : v.id = w.id) :
    v = w := by
  unfold Has at hv hw
  rw [h, hw] at hv
  obtain ⟨id, name⟩ := v
  obtain ⟨id', name'⟩ := w
  cases h
  cases hv
  rfl

theorem Types.mono {t : Ty} (h : ledger.Types t) (hle : ledger <+: later) : later.Types t :=
  Ty.All.mono h fun _ hv => hv.mono hle

theorem Errors.mono {error : TypeError} (h : ledger.Errors error) (hle : ledger <+: later) :
    later.Errors error :=
  fun t ht => (h t ht).mono hle

theorem length_issued (ledger : Ledger) (name : Option String) :
    ledger.length + 1 = (ledger ++ [name]).length := by
  rw [List.length_append, List.length_singleton]

theorem has_issued (ledger : Ledger) (name : Option String) :
    Has (ledger ++ [name]) ⟨ledger.length, name⟩ := by
  simp [Has]

theorem types_issued (ledger : Ledger) :
    Types (ledger ++ [none]) (.var ⟨ledger.length, none⟩) :=
  Ty.all_var.mpr (ledger.has_issued none)

/-! ## Lowering -/

/-- The written names of a use have issued variables, and the next one is not yet issued. -/
structure Matches (ledger : Ledger) (naming : Naming) : Prop where
  next : naming.next = ledger.length
  names : ∀ name v, naming.names.get? name = some v → ledger.Has v

theorem matches_no_names (ledger : Ledger) : ledger.Matches ⟨{}, ledger.length⟩ :=
  ⟨rfl, fun _ _ h => by cases h⟩

/-- Lowering goes from a ledger that continues the first one to a longer one, and its answer
has a property of that. -/
def Issues {α : Type} (first : Ledger) (step : StateM Naming α) (p : Ledger → α → Prop) :
    Prop :=
  ∀ naming (ledger : Ledger), first <+: ledger → ledger.Matches naming →
    ∃ later : Ledger, ledger <+: later ∧ later.Matches (step.run naming).2 ∧
      p later (step.run naming).1

namespace Issues

variable {α β : Type} {first : Ledger} {p : Ledger → α → Prop} {q : Ledger → β → Prop}

theorem pure {a : α} (h : ∀ ledger : Ledger, first <+: ledger → p ledger a) :
    first.Issues (Pure.pure a) p :=
  fun _ ledger hfirst hmatches => ⟨ledger, List.prefix_rfl, hmatches, h ledger hfirst⟩

theorem bind {step : StateM Naming α} {next : α → StateM Naming β} (hstep : first.Issues step p)
    (hnext : ∀ (ledger : Ledger) a, first <+: ledger → p ledger a → ledger.Issues (next a) q) :
    first.Issues (step >>= next) q := by
  intro naming ledger hfirst hmatches
  obtain ⟨middle, hle, hmatches', ha⟩ := hstep naming ledger hfirst hmatches
  obtain ⟨later, hle', hmatches'', hb⟩ :=
    hnext middle _ (hfirst.trans hle) ha _ middle List.prefix_rfl hmatches'
  exact ⟨later, hle.trans hle', hmatches'', hb⟩

end Issues

theorem issues_fresh (first : Ledger) : first.Issues Naming.fresh Has := by
  intro naming ledger _ hmatches
  obtain ⟨names, next⟩ := naming
  obtain rfl := hmatches.next
  have hle : ledger <+: ledger ++ [none] := List.prefix_append _ _
  refine ⟨ledger ++ [none], hle, ⟨ledger.length_issued none, ?_⟩, ledger.has_issued none⟩
  exact fun name v hv => (hmatches.names name v hv).mono hle

theorem issues_named (first : Ledger) (name : String) :
    first.Issues (Naming.named name) Has := by
  intro naming ledger _ hmatches
  cases hname : naming.names.get? name with
  | some v =>
      rw [Naming.run_named_of_some hname]
      exact ⟨ledger, List.prefix_rfl, hmatches, hmatches.names name v hname⟩
  | none =>
      have hle : ledger <+: ledger ++ [some name] := List.prefix_append _ _
      have hissued := ledger.has_issued (some name)
      rw [Naming.run_named_of_none hname, hmatches.next]
      refine ⟨ledger ++ [some name], hle, ⟨ledger.length_issued _, ?_⟩, hissued⟩
      intro other v hv
      rw [Table.get?_insert] at hv
      split at hv
      · cases hv
        exact hissued
      · exact (hmatches.names other v hv).mono hle

mutual

theorem issues_lower : (term : TypeTerm) → (first : Ledger) → first.Issues term.lower Types
  | .var name, first => by
      rw [TypeTerm.lower]
      exact (issues_named first name).bind fun ledger v _ hv =>
        .pure fun _ hle => Ty.all_var.mpr (hv.mono hle)
  | .con name, first => .pure fun _ _ => Ty.all_con
  | .constraint ⟨className, params⟩, first => by
      rw [TypeTerm.lower]
      exact (issues_lowerAll params first).bind fun ledger args _ hargs =>
        .pure fun _ hle => Ty.all_app.mpr ⟨Ty.all_con, fun t ht => (hargs t ht).mono hle⟩
  | .qualified context body, first => by
      rw [TypeTerm.lower]
      exact issues_lower body first
  | .arrow inputs output, first => by
      rw [TypeTerm.lower]
      refine (issues_lowerAll inputs first).bind fun ledger ts _ hts => ?_
      refine (issues_lower output ledger).bind fun later t hle ht => .pure fun last hle' => ?_
      exact Ty.all_curried (fun u hu => (hts u hu).mono (hle.trans hle')) (ht.mono hle')
  | .apply base args, first => by
      rw [TypeTerm.lower]
      refine (issues_lower base first).bind fun ledger t _ ht => ?_
      refine (issues_lowerAll args ledger).bind fun later ts hle hts => .pure fun last hle' => ?_
      exact Ty.all_app.mpr ⟨ht.mono (hle.trans hle'), fun u hu => (hts u hu).mono hle'⟩
  | .list element, first => by
      rw [TypeTerm.lower]
      exact (issues_lower element first).bind fun ledger t _ ht =>
        .pure fun _ hle => Ty.all_list.mpr (ht.mono hle)
  | .tuple elements, first => by
      rw [TypeTerm.lower]
      exact (issues_lowerAll elements first).bind fun ledger ts _ hts =>
        .pure fun _ hle => Ty.all_tuple.mpr fun t ht => (hts t ht).mono hle
  | .data name cases, first => .pure fun _ _ => Ty.all_con
  | .conditional condition yes no, first => by
      rw [TypeTerm.lower]
      exact (issues_fresh first).bind fun ledger v _ hv =>
        .pure fun _ hle => Ty.all_var.mpr (hv.mono hle)

theorem issues_lowerAll : (terms : List TypeTerm) → (first : Ledger) →
    first.Issues (TypeTerm.lowerAll terms) fun ledger ts => ∀ t ∈ ts, ledger.Types t
  | [], first => by
      rw [TypeTerm.lowerAll]
      exact .pure fun _ _ => by simp
  | term :: rest, first => by
      rw [TypeTerm.lowerAll]
      refine (issues_lower term first).bind fun ledger t _ ht => ?_
      refine (issues_lowerAll rest ledger).bind fun later ts hle hts => .pure fun last hle' => ?_
      exact List.forall_mem_cons.mpr
        ⟨ht.mono (hle.trans hle'), fun u hu => (hts u hu).mono hle'⟩

end

theorem issues_signature (signature : Signature) (first : Ledger) :
    first.Issues signature.lower fun ledger answer =>
      (∀ t ∈ answer.1, ledger.Types t) ∧ ledger.Types answer.2 := by
  refine (issues_lowerAll signature.inputs first).bind fun ledger ts _ hts => ?_
  refine (issues_lower signature.output ledger).bind fun later t hle ht => .pure fun last hle' => ?_
  exact ⟨fun u hu => (hts u hu).mono (hle.trans hle'), ht.mono hle'⟩

/-! ## Aliases -/

/-- The aliases of a program are lowered before anything else, each with names of its own. -/
theorem exists_lowerAliases (declared : List (String × TypeTerm)) :
    ∃ ledger : Ledger, (Setting.lowerAliases declared 0).2 = ledger.length ∧
      (Setting.lowerAliases declared 0).1.All ledger.Has := by
  unfold Setting.lowerAliases
  refine List.foldlRecOn (motive := fun lowered : Aliases × Nat =>
    ∃ ledger : Ledger, lowered.2 = ledger.length ∧ lowered.1.All ledger.Has) declared _ ?_ ?_
  · refine ⟨[], rfl, ?_⟩
    intro name body hbody
    simp at hbody
  · rintro ⟨aliases, next⟩ ⟨ledger, hnext, hbodies⟩ ⟨name, term⟩ _
    obtain rfl : next = ledger.length := hnext
    obtain ⟨later, hle, hmatches, hterm⟩ :=
      issues_lower term ledger _ ledger List.prefix_rfl ledger.matches_no_names
    refine ⟨later, hmatches.next, Aliases.All.insert ?_ hterm⟩
    exact fun other body hbody => Types.mono (hbodies other body hbody) hle

/-- A program can be checked from any counter on that leaves its aliases alone. -/
theorem exists_ofGlobals (globals : Globals) (orders : Orders) {next : Nat}
    (h : (Setting.ofGlobals globals orders).2 ≤ next) :
    ∃ ledger : Ledger, next = ledger.length ∧
      (Setting.ofGlobals globals orders).1.aliases.All ledger.Has := by
  obtain ⟨ledger, hlength, hbodies⟩ :=
    exists_lowerAliases (globals.aliases.arranged orders.aliases)
  have hle : ledger.length ≤ next := hlength ▸ h
  refine ⟨ledger ++ List.replicate (next - ledger.length) none, ?_, ?_⟩
  · rw [List.length_append, List.length_replicate]
    omega
  · exact fun name body hbody => Types.mono (hbodies name body hbody) (List.prefix_append _ _)

end Ledger

/-! ## Scopes -/

namespace Scopes

/-- All variables of the types in all scopes have a property, also those of names that are
hidden by an inner scope. -/
def All (p : TypeVar → Prop) (scopes : Scopes) : Prop :=
  ∀ scope ∈ scopes.toList, ∀ name t, scope.get? name = some t → t.All p

variable {p q : TypeVar → Prop} {scopes : Scopes}

theorem all_empty (p : TypeVar → Prop) : empty.All p := by
  intro scope hscope name t ht
  obtain rfl := List.mem_singleton.mp hscope
  cases ht

namespace All

theorem mono (h : scopes.All p) (himp : ∀ v, p v → q v) : scopes.All q :=
  fun scope hscope name t ht => (h scope hscope name t ht).mono himp

theorem lookup (h : scopes.All p) {name : String} {t : Ty} (ht : scopes.lookup name = some t) :
    t.All p := by
  obtain ⟨scope, hscope, hname⟩ := List.exists_of_findSome?_eq_some ht
  exact h scope hscope name t hname

theorem push (h : scopes.All p) : scopes.push.All p := by
  refine List.forall_mem_cons.mpr ⟨?_, h⟩
  intro name t ht
  cases ht

theorem insert (h : scopes.All p) (name : String) {t : Ty} (ht : t.All p) :
    (scopes.insert name t).All p := by
  obtain ⟨hinner, houter⟩ := List.forall_mem_cons.mp h
  refine List.forall_mem_cons.mpr ⟨?_, houter⟩
  intro other u hu
  rw [Scopes.insert, Table.get?_insert] at hu
  split at hu
  · cases hu
    exact ht
  · exact hinner other u hu

end All

end Scopes

namespace Session

/-! ## Orderly sessions -/

/-- Everything that a session holds was issued, and its literals may still be numbers. -/
structure Orderly (aliases : Aliases) (ledger : Ledger) (session : Session) : Prop where
  next : session.next = ledger.length
  bodies : aliases.All ledger.Has
  subst : session.subst.All ledger.Has
  numeric : ∀ v ∈ session.numeric, ledger.Has v
  scopes : session.scopes.All ledger.Has
  kinds : ∀ v ∈ session.numeric, mayBeNumeric aliases (session.subst.apply (.var v)) = true
  solved : aliases.VarFree → session.subst.Idempotent

variable {aliases : Aliases} {ledger later : Ledger} {session : Session}

/-- A session without equations, literals and names. -/
theorem orderly_start (h : aliases.All ledger.Has) :
    Orderly aliases ledger ⟨ledger.length, .empty, [], .empty⟩ := by
  exact ⟨rfl, h, Substitution.all_empty _, by simp, Scopes.all_empty _, by simp,
    fun _ => Substitution.idempotent_empty⟩

namespace Orderly

theorem advance (h : session.Orderly aliases ledger) (hle : ledger <+: later) :
    Orderly aliases later { session with next := later.length } where
  next := rfl
  bodies name body hbody := Ledger.Types.mono (h.bodies name body hbody) hle
  subst := h.subst.mono fun _ hv => hv.mono hle
  numeric v hv := (h.numeric v hv).mono hle
  scopes := h.scopes.mono fun _ hv => hv.mono hle
  kinds := h.kinds
  solved := h.solved

/-- A variable that has not been issued yet is not bound. -/
theorem apply_next (h : session.Orderly aliases ledger) :
    session.subst.apply (.var ⟨session.next, none⟩) = .var ⟨session.next, none⟩ := by
  have hunbound : session.subst.get? ⟨session.next, none⟩ = none := by
    by_contra hbound
    obtain ⟨t, ht⟩ := Option.ne_none_iff_exists'.mp hbound
    have hlt : session.next < ledger.length := (h.subst _ t ht).1.lt_length
    rw [h.next] at hlt
    exact Nat.lt_irrefl _ hlt
  exact Substitution.chase_of_free hunbound _

theorem literal (h : session.Orderly aliases ledger) :
    Orderly aliases (ledger ++ [none]) { session with
      next := session.next + 1, numeric := ⟨session.next, none⟩ :: session.numeric } := by
  have hle : ledger <+: ledger ++ [none] := List.prefix_append _ _
  have hadvance := h.advance hle
  have hissued := ledger.has_issued none
  rw [← h.next] at hissued
  have hopen : mayBeNumeric aliases (.var ⟨session.next, none⟩) = true := by
    rw [mayBeNumeric, Aliases.expand_of_unfoldHead rfl]
  refine ⟨?_, hadvance.bodies, hadvance.subst, ?_, hadvance.scopes, ?_, h.solved⟩
  · rw [h.next]
    exact ledger.length_issued none
  · exact List.forall_mem_cons.mpr ⟨hissued, hadvance.numeric⟩
  · refine List.forall_mem_cons.mpr ⟨?_, h.kinds⟩
    rw [h.apply_next]
    exact hopen

/-- An accepted equation binds issued variables to types over issued ones, and it has looked
at all numeric literals. -/
theorem accept (h : session.Orderly aliases ledger) {literals : Arrangement TypeVar}
    {expected found : Ty} {subst : Substitution} (hexpected : ledger.Types expected)
    (hfound : ledger.Types found)
    (hequate : session.equate aliases literals expected found = .ok subst) :
    Orderly aliases ledger { session with subst } := by
  have hsolved : aliases.VarFree → subst.Idempotent :=
    fun hfree => idempotent_of_equate hfree (h.solved hfree) hequate
  obtain ⟨solution, hunify, rfl, hkinds⟩ := equate_eq_ok.mp hequate
  have hsolution := (Unification.Unified.of_unify hunify).all h.bodies
    (h.subst.apply hexpected) (h.subst.apply hfound)
  exact ⟨h.next, h.bodies, h.subst.compose hsolution, h.numeric, h.scopes, hkinds, hsolved⟩

/-- A refused equation is reported with issued variables only. -/
theorem refuse (h : session.Orderly aliases ledger) {literals : Arrangement TypeVar}
    {expected found : Ty} {error : TypeError} (hexpected : ledger.Types expected)
    (hfound : ledger.Types found)
    (hequate : session.equate aliases literals expected found = .error error) :
    ledger.Errors error := by
  have hexpected' := h.subst.apply hexpected
  have hfound' := h.subst.apply hfound
  have hanswer := Unification.all_unify h.bodies hexpected' hfound'
  unfold equate at hequate
  dsimp only at hequate
  cases hunify : unify aliases (session.subst.apply expected) (session.subst.apply found) with
  | ok solution =>
      rw [hunify] at hequate hanswer
      dsimp only at hequate
      cases hnumeric : nonNumeric? aliases (literals.arrange session.numeric)
          (session.subst.compose solution) with
      | none =>
          rw [hnumeric] at hequate
          cases hequate
      | some t =>
          rw [hnumeric] at hequate
          cases hequate
          obtain ⟨v, hv, rfl⟩ := List.mem_map.mp (List.mem_of_find?_eq_some hnumeric)
          have hsubst := h.subst.compose hanswer
          have hissued := h.numeric v ((literals.mem_arrange _ v).mp hv)
          exact List.forall_mem_singleton.mpr (hsubst.apply (Ty.all_var.mpr hissued))
  | error error' =>
      rw [hunify] at hequate hanswer
      cases error' with
      | mismatch =>
          cases hequate
          exact List.forall_mem_cons.mpr ⟨hexpected', List.forall_mem_singleton.mpr hfound'⟩
      | occurs v t =>
          cases hequate
          exact hanswer

theorem rescope (h : session.Orderly aliases ledger) {scopes : Scopes}
    (hscopes : scopes.All ledger.Has) : Orderly aliases ledger { session with scopes } :=
  ⟨h.next, h.bodies, h.subst, h.numeric, hscopes, h.kinds, h.solved⟩

/-- Without variables in alias bodies an orderly session is tidy. -/
theorem tidy (h : session.Orderly aliases ledger) (hfree : aliases.VarFree) :
    session.Tidy aliases := by
  have hlt : ∀ v, ledger.Has v → v.id < session.next := by
    intro v hv
    rw [h.next]
    exact hv.lt_length
  exact ⟨h.solved hfree, h.subst.mono hlt, fun v hv => hlt v (h.numeric v hv), h.kinds,
    fun name t ht => Ty.All.mono (h.scopes.lookup ht) hlt⟩

end Orderly

end Session

end Rubric
