import Rubric.Proofs.Types.Resolution
import Rubric.Typing.Unification

/-!
# Steps of the search for a unifier

One step of the search looks at the two types at hand: it binds a variable, finds two
equal names, replaces alias names at the heads, or goes on to the components. The
lemmas below say so without the order of the cases in which the search tries them, and
say what a sequence of searches can end in.
-/

namespace Rubric

namespace Unification

/-! ## Outcomes -/

namespace Search

variable {α β : Type}

/-- The search ends with a result. -/
def Finds (x : Search α) (a : α) : Prop :=
  x.run = some (.ok a)

/-- The search ends with an error. -/
def Fails (x : Search α) : Prop :=
  ∃ error, x.run = some (.error error)

/-- The search ends before its bound is reached. -/
def Ends (x : Search α) : Prop :=
  x.run ≠ none

theorem run_bind (x : Search α) (f : α → Search β) :
    (x >>= f).run =
      match x.run with
      | none => none
      | some (.error error) => some (.error error)
      | some (.ok a) => (f a).run := by
  cases h : x.run with
  | none =>
      rw [ExceptT.run_bind, h]
      rfl
  | some outcome =>
      rw [ExceptT.run_bind, h]
      cases outcome <;> rfl

theorem finds_bind {x : Search α} {f : α → Search β} {b : β} :
    (x >>= f).Finds b ↔ ∃ a, x.Finds a ∧ (f a).Finds b := by
  unfold Finds
  rw [run_bind]
  cases h : x.run with
  | none => simp
  | some outcome => cases outcome <;> simp

theorem fails_bind {x : Search α} {f : α → Search β} :
    (x >>= f).Fails ↔ x.Fails ∨ ∃ a, x.Finds a ∧ (f a).Fails := by
  unfold Finds Fails
  rw [run_bind]
  cases h : x.run with
  | none => simp
  | some outcome => cases outcome <;> simp

theorem ends_bind {x : Search α} {f : α → Search β} :
    (x >>= f).Ends ↔ x.Ends ∧ ∀ a, x.Finds a → (f a).Ends := by
  unfold Finds Ends
  rw [run_bind]
  cases h : x.run with
  | none => simp
  | some outcome => cases outcome <;> simp

@[simp] theorem finds_pure {a b : α} : (pure a : Search α).Finds b ↔ a = b := by
  simp [Finds]

@[simp] theorem not_fails_pure {a : α} : ¬ (pure a : Search α).Fails := by
  simp [Fails]

@[simp] theorem ends_pure {a : α} : (pure a : Search α).Ends := by
  simp [Ends]

@[simp] theorem not_finds_throw {error : UnifyError} {a : α} :
    ¬ (throw error : Search α).Finds a := by
  simp [Finds]

@[simp] theorem ends_throw {error : UnifyError} : (throw error : Search α).Ends := by
  simp [Ends]

end Search

/-! ## One step -/

theorem finds_binding_iff {v : TypeVar} {t : Ty} {s : Substitution} :
    (bind v t).Finds s ↔ t.occurs v = false ∧ s = .singleton v t := by
  unfold bind
  cases h : t.occurs v <;> simp [eq_comm]

theorem ends_binding (v : TypeVar) (t : Ty) : (bind v t).Ends := by
  unfold bind
  split <;> simp

/-- Types with different heads do not unify, and types with the same head unify
component by component. -/
theorem unifyParts_eq (unify : Ty → Ty → Search Substitution) (a b : Ty) :
    unifyParts unify a b =
      if a.sameHead b then unifyEach unify (a.children.zip b.children) .empty
      else throw (.mismatch a b) := by
  cases a with
  | var v => cases b <;> simp [unifyParts, Ty.sameHead]
  | con name => cases b <;> simp [unifyParts, Ty.sameHead]
  | app base args =>
      cases b with
      | app base' args' => simp [unifyParts, Ty.sameHead, Ty.children]
      | _ => simp [unifyParts, Ty.sameHead]
  | func input output =>
      cases b with
      | func input' output' => simp [unifyParts, Ty.sameHead, Ty.children, unifyEach]
      | _ => simp [unifyParts, Ty.sameHead]
  | list element =>
      cases b with
      | list element' => simp [unifyParts, Ty.sameHead, Ty.children, unifyEach]
      | _ => simp [unifyParts, Ty.sameHead]
  | tuple elements =>
      cases b with
      | tuple elements' => simp [unifyParts, Ty.sameHead, Ty.children]
      | _ => simp [unifyParts, Ty.sameHead]

/-- Settle a pair of types that has a variable in it or is one name twice, and hand on
every other pair. -/
def dispatch (heads : Ty → Ty → Search Substitution) : Ty → Ty → Search Substitution
  | .var v, .var w => if v = w then pure .empty else bind v (.var w)
  | .var v, t => bind v t
  | t, .var v => bind v t
  | .con m, .con n => if m = n then pure .empty else heads (.con m) (.con n)
  | a, b => heads a b

section Dispatch

variable {heads : Ty → Ty → Search Substitution} {a b : Ty}

theorem dispatch_same (v : TypeVar) : dispatch heads (.var v) (.var v) = pure .empty := by
  simp [dispatch]

theorem dispatch_left {v : TypeVar} (h : b ≠ .var v) : dispatch heads (.var v) b = bind v b := by
  cases b with
  | var w =>
      have hne : v ≠ w := by
        rintro rfl
        exact h rfl
      simp [dispatch, hne]
  | _ => simp [dispatch]

theorem dispatch_right {v : TypeVar} (h : a.isVar = false) :
    dispatch heads a (.var v) = bind v a := by
  cases a with
  | var w => simp [Ty.isVar] at h
  | _ => simp [dispatch]

theorem dispatch_name (name : String) :
    dispatch heads (.con name) (.con name) = pure .empty := by
  simp [dispatch]

theorem dispatch_heads (ha : a.isVar = false) (hb : b.isVar = false)
    (hne : ∀ name, a = .con name → b ≠ .con name) : dispatch heads a b = heads a b := by
  cases a with
  | var v => simp [Ty.isVar] at ha
  | con name =>
      cases b with
      | var v => simp [Ty.isVar] at hb
      | con name' =>
          have hnames : name ≠ name' := by
            rintro rfl
            exact hne name rfl rfl
          simp [dispatch, hnames]
      | _ => simp [dispatch]
  | _ =>
      cases b with
      | var v => simp [Ty.isVar] at hb
      | _ => simp [dispatch]

end Dispatch

section Steps

variable {aliases : Aliases} {depth : Nat} {expanding : List (Ty × Ty)} {a b : Ty}

theorem unifyWithin_succ :
    unifyWithin aliases (depth + 1) expanding a b =
      dispatch (unifyHeads aliases expanding (unifyWithin aliases depth)) a b := by
  cases a <;> cases b <;> rfl

theorem unifyWithin_same (v : TypeVar) :
    unifyWithin aliases (depth + 1) expanding (.var v) (.var v) = pure .empty :=
  unifyWithin_succ.trans (dispatch_same v)

theorem unifyWithin_left {v : TypeVar} (h : b ≠ .var v) :
    unifyWithin aliases (depth + 1) expanding (.var v) b = bind v b :=
  unifyWithin_succ.trans (dispatch_left h)

theorem unifyWithin_right {v : TypeVar} (h : a.isVar = false) :
    unifyWithin aliases (depth + 1) expanding a (.var v) = bind v a :=
  unifyWithin_succ.trans (dispatch_right h)

theorem unifyWithin_name (name : String) :
    unifyWithin aliases (depth + 1) expanding (.con name) (.con name) = pure .empty :=
  unifyWithin_succ.trans (dispatch_name name)

theorem unifyWithin_heads (ha : a.isVar = false) (hb : b.isVar = false)
    (hne : ∀ name, a = .con name → b ≠ .con name) :
    unifyWithin aliases (depth + 1) expanding a b =
      unifyHeads aliases expanding (unifyWithin aliases depth) a b :=
  unifyWithin_succ.trans (dispatch_heads ha hb hne)

end Steps

/-- The forms that a pair of types can have for the search. -/
theorem pair_cases (a b : Ty) :
    (∃ v, a = .var v ∧ b = .var v) ∨ (∃ v, a = .var v ∧ b ≠ .var v) ∨
      (∃ v, a.isVar = false ∧ b = .var v) ∨ (∃ name, a = .con name ∧ b = .con name) ∨
      (a.isVar = false ∧ b.isVar = false ∧ ∀ name, a = .con name → b ≠ .con name) := by
  cases ha : a.isVar with
  | true =>
      obtain ⟨v, rfl⟩ := Ty.isVar_iff.mp ha
      by_cases hb : b = .var v
      · exact .inl ⟨v, rfl, hb⟩
      · exact .inr (.inl ⟨v, rfl, hb⟩)
  | false =>
      cases hb : b.isVar with
      | true =>
          obtain ⟨v, rfl⟩ := Ty.isVar_iff.mp hb
          exact .inr (.inr (.inl ⟨v, rfl, rfl⟩))
      | false =>
          by_cases hname : ∃ name, a = .con name ∧ b = .con name
          · exact .inr (.inr (.inr (.inl hname)))
          · refine .inr (.inr (.inr (.inr ⟨rfl, rfl, ?_⟩)))
            intro name hna hnb
            exact hname ⟨name, hna, hnb⟩

end Unification

end Rubric
