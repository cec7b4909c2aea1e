import Mathlib.Data.Fintype.Sum
import Mathlib.Algebra.Group.End
import Rubric.Proofs.Checker.Renaming
import Rubric.Proofs.Checker.Steps

/-!
# Numbering the variables of two runs

Two runs that do the same may take their variables in different orders, and the second may
take more of them. A numbering gives each variable of the first run its number in the second.
Some numbers of the second run are spare: they have been taken but stand for no variable of
the first run, and nothing is known about them. A spare number can be kept for a variable
that the first run takes later, or be bound to whatever comes.

Two substitutions in solved form are alike when they give corresponding types to
corresponding variables, whatever the second one does to variables that correspond to none.
-/

namespace Rubric

/-- Which variables of a second run stand for those of a first one. -/
structure Numbering where
  number : Nat → Nat
  injective : Function.Injective number
  /-- From this number on, both runs take their variables together. -/
  first : Nat
  target : Nat
  moves : ∀ n, number (first + n) = target + n
  spare : Nat → Prop
  unused : ∀ n, ¬ spare (number n)

namespace Numbering

variable (ν : Numbering)

/-- The variable of the second run. -/
def var (v : TypeVar) : TypeVar :=
  { v with id := ν.number v.id }

/-- All numbers from one on are moved together. -/
def shift : Shift where
  first := ν.first
  target := ν.target
  rename := ν.var
  moves n name := congrArg (TypeVar.mk · name) (ν.moves n)

theorem var_injective : Function.Injective ν.var := by
  intro v w h
  obtain ⟨n, name⟩ := v
  obtain ⟨m, name'⟩ := w
  have hid : ν.number n = ν.number m := congrArg TypeVar.id h
  have hname : name = name' := congrArg TypeVar.name h
  rw [ν.injective hid, hname]

theorem var_ne {v : TypeVar} (h : ν.spare v.id) (w : TypeVar) : ν.var w ≠ v := by
  rintro rfl
  exact ν.unused w.id h

/-- Numbers below a bound are mapped in the same way. -/
def Keeps (bound : Nat) (ν' : Numbering) : Prop :=
  ∀ n, n < bound → ν'.number n = ν.number n

namespace Keeps

variable {ν} {ν' ν'' : Numbering} {bound bound' : Nat}

theorem trans (h : ν.Keeps bound ν') (h' : ν'.Keeps bound' ν'') (hle : bound ≤ bound') :
    ν.Keeps bound ν'' :=
  fun n hn => (h' n (Nat.lt_of_lt_of_le hn hle)).trans (h n hn)

theorem var (h : ν.Keeps bound ν') {v : TypeVar} (hv : v.id < bound) : ν'.var v = ν.var v :=
  congrArg (TypeVar.mk · v.name) (h v.id hv)

theorem rename (h : ν.Keeps bound ν') {t : Ty} (ht : t.Below bound) :
    t.rename ν'.var = t.rename ν.var :=
  Ty.rename_congr (Ty.All.mono ht fun _ hv => h.var hv)

end Keeps

/-! ## Counters of the two runs -/

section Counts

variable {ν} {m m' : Nat} (h : ν.shift.Counts m m')

include h

theorem number_add (n : Nat) : ν.number (m + n) = m' + n :=
  congrArg TypeVar.id (h.moves n none)

theorem number_of_le {n : Nat} (hn : m ≤ n) : ν.number n = m' + (n - m) := by
  rw [← number_add h, Nat.add_sub_of_le hn]

/-- What the first run has taken, the second has taken as well. -/
theorem number_lt {n : Nat} (hn : n < m) : ν.number n < m' := by
  by_contra hge
  have hlater : ν.number (m + (ν.number n - m')) = ν.number n := by
    rw [number_add h]
    omega
  have heq := ν.injective hlater
  omega

theorem counts_le : m ≤ m' := by
  have hmaps : ∀ n ∈ Finset.range m, ν.number n ∈ Finset.range m' := by
    intro n hn
    exact Finset.mem_range.mpr (number_lt h (Finset.mem_range.mp hn))
  have hcard := Finset.card_le_card_of_injOn ν.number hmaps ν.injective.injOn
  rwa [Finset.card_range, Finset.card_range] at hcard

/-- A numbering of what the first run has taken is part of a permutation of what the second
has taken. -/
theorem exists_perm :
    ∃ π : Equiv.Perm Nat, (∀ n, n < m → π n = ν.number n) ∧ ∀ n, m' ≤ n → π n = n := by
  have hle := counts_le h
  let taken : Finset (Fin m') := Finset.univ.filter fun n => n.val < m
  have hmaps : taken.image (fun n => ν.number n.val) ⊆ Finset.range m' := by
    intro k hk
    obtain ⟨n, hn, rfl⟩ := Finset.mem_image.mp hk
    exact Finset.mem_range.mpr (number_lt h (Finset.mem_filter.mp hn).2)
  have hinj : Set.InjOn (fun n : Fin m' => ν.number n.val) taken := by
    intro n _ k _ heq
    exact Fin.ext (ν.injective heq)
  obtain ⟨e, he⟩ := Finset.exists_equiv_extend_of_card_eq (by simp) hmaps hinj
  let below : Equiv.Perm { n // n < m' } :=
    Fin.equivSubtype.symm.trans (e.trans (Equiv.subtypeEquivRight fun _ => Finset.mem_range))
  refine ⟨Equiv.Perm.ofSubtype below, fun n hn => ?_, fun n hn => ?_⟩
  · have hn' : n < m' := by omega
    rw [Equiv.Perm.ofSubtype_apply_of_mem below hn']
    exact he ⟨n, hn'⟩ (Finset.mem_filter.mpr ⟨Finset.mem_univ _, hn⟩)
  · exact Equiv.Perm.ofSubtype_apply_of_not_mem below (by omega)

end Counts

/-! ## Changing a numbering -/

/-- Both runs have the same variables. -/
def same (next : Nat) : Numbering where
  number n := n
  injective := Function.injective_id
  first := next
  target := next
  moves _ := rfl
  spare _ := False
  unused _ h := h

/-- Some spare numbers are not spare any more. -/
def restrict (p : Nat → Prop) : Numbering :=
  { ν with
    spare n := ν.spare n ∧ p n
    unused n h := ν.unused n h.1 }

section Change

variable {ν} {m m' : Nat} (h : ν.shift.Counts m m')

/-- The second run takes numbers of its own, which are spare. -/
def skip (more : Nat) : Numbering where
  number n := if n < m then ν.number n else ν.number n + more
  injective := by
    intro n k heq
    have hn : n < m → ν.number n < m' := number_lt h
    have hn' : m ≤ n → ν.number n = m' + (n - m) := number_of_le h
    have hk : k < m → ν.number k < m' := number_lt h
    have hk' : m ≤ k → ν.number k = m' + (k - m) := number_of_le h
    have hsame : ν.number n = ν.number k → n = k := fun heq => ν.injective heq
    dsimp only at heq
    split at heq <;> split at heq <;> omega
  first := m
  target := m' + more
  moves n := by
    rw [if_neg (by omega), number_add h]
    omega
  spare n := ν.spare n ∨ m' ≤ n ∧ n < m' + more
  unused n hspare := by
    by_cases hn : n < m
    · have hlt := number_lt h hn
      rw [if_pos hn] at hspare
      rcases hspare with hspare | hspare
      · exact ν.unused n hspare
      · omega
    · have hle : m ≤ n := by omega
      have hmore : ν.number n + more = ν.number (n + more) := by
        rw [number_of_le h hle, number_of_le h (by omega)]
        omega
      rw [if_neg hn] at hspare
      rcases hspare with hspare | hspare
      · rw [hmore] at hspare
        exact ν.unused (n + more) hspare
      · rw [number_of_le h hle] at hspare
        omega

/-- The first run takes numbers for which the second has kept spare ones. -/
def take (start more : Nat) (hspare : ∀ n, n < more → ν.spare (start + n)) : Numbering where
  number n :=
    if m ≤ n ∧ n < m + more then start + (n - m)
    else ν.number (if n < m then n else n - more)
  injective := by
    have hkept : ∀ i j, m ≤ j ∧ j < m + more → ν.number i ≠ start + (j - m) := by
      intro i j hj heq
      have hunused := ν.unused i
      rw [heq] at hunused
      exact hunused (hspare (j - m) (by omega))
    intro n k heq
    dsimp only at heq
    by_cases hn : m ≤ n ∧ n < m + more
    · by_cases hk : m ≤ k ∧ k < m + more
      · rw [if_pos hn, if_pos hk] at heq
        omega
      · rw [if_pos hn, if_neg hk] at heq
        exact (hkept _ n hn heq.symm).elim
    · by_cases hk : m ≤ k ∧ k < m + more
      · rw [if_neg hn, if_pos hk] at heq
        exact (hkept _ k hk heq).elim
      · rw [if_neg hn, if_neg hk] at heq
        have hsame := ν.injective heq
        split at hsame <;> split at hsame <;> omega
  first := m + more
  target := m'
  moves n := by
    rw [if_neg (by omega), if_neg (by omega), Nat.add_right_comm, Nat.add_sub_cancel,
      number_add h]
  spare n := ν.spare n ∧ ¬ (start ≤ n ∧ n < start + more)
  unused n hspare' := by
    split at hspare'
    · omega
    · exact ν.unused _ hspare'.1

theorem keeps_skip (more : Nat) : ν.Keeps m (ν.skip h more) :=
  fun _ hn => if_pos hn

theorem keeps_take (start more : Nat) (hspare : ∀ n, n < more → ν.spare (start + n)) :
    ν.Keeps m (ν.take h start more hspare) := by
  intro n hn
  show (if m ≤ n ∧ n < m + more then _ else _) = _
  rw [if_neg (by omega), if_pos hn]

theorem number_take {start more n : Nat} {hspare : ∀ n, n < more → ν.spare (start + n)}
    (hn : n < more) : (ν.take h start more hspare).number (m + n) = start + n := by
  show (if m ≤ m + n ∧ m + n < m + more then start + (m + n - m) else _) = _
  rw [if_pos (by omega), Nat.add_sub_cancel_left]

end Change

/-! ## Substitutions -/

/-- Corresponding variables have corresponding types, and spare ones have none. -/
structure Alike (s s' : Substitution) : Prop where
  solved : s.Idempotent
  solved' : s'.Idempotent
  image : ∀ v, s'.image (ν.var v) = (s.image v).rename ν.var
  free : ∀ v, ν.spare v.id → s'.get? v = none

namespace Alike

variable {ν} {s s' : Substitution} {aliases : Aliases}

theorem apply (h : ν.Alike s s') (t : Ty) :
    s'.apply (t.rename ν.var) = (s.apply t).rename ν.var := by
  rw [h.solved'.apply_eq, h.solved.apply_eq]
  exact Ty.subst_rename_comm h.image t

/-- The renamed unifier binds no spare variable. -/
theorem compose (hfree : aliases.VarFree) (h : ν.Alike s s') {a b : Ty} {solution : Substitution}
    (hunify : unify aliases (s.apply a) (s.apply b) = .ok solution) :
    ν.Alike (s.compose solution) (s'.compose (solution.rename ν.var)) := by
  have hunify' : unify aliases (s'.apply (a.rename ν.var)) (s'.apply (b.rename ν.var)) =
      .ok (solution.rename ν.var) := by
    rw [h.apply, h.apply, Unification.unify_rename ν.var_injective (hfree.all _), hunify]
    rfl
  have hunified := Unification.Unified.of_unify hunify
  have hunified' := Unification.Unified.of_unify hunify'
  have hsolution := hunified.idempotent hfree
  have hsolution' := hunified'.idempotent hfree
  refine ⟨h.solved.compose hsolution (hunified.all_free hfree h.solved),
    h.solved'.compose hsolution' (hunified'.all_free hfree h.solved'), ?_, ?_⟩
  · intro v
    rw [Substitution.image_compose hsolution', Substitution.image_compose hsolution, h.image]
    exact Ty.subst_rename_comm (Substitution.image_rename ν.var_injective solution) _
  · intro v hv
    refine Substitution.compose_get?_none.mpr ⟨h.free v hv, ?_⟩
    by_contra hbound
    obtain ⟨t, ht⟩ := Option.ne_none_iff_exists'.mp hbound
    obtain ⟨w, rfl⟩ := Substitution.exists_of_get?_rename ht
    exact ν.unused w.id hv

end Alike

/-- A numbering as a renumbering of sessions whose substitutions are alike. The two runs may
name different literals. -/
def renumbering {setting : Setting} (hfree : setting.aliases.VarFree) : Renumbering setting where
  toShift := ν.shift
  injective := ν.var_injective
  fixes := hfree.all _
  alike := ν.Alike
  apply_alike _ _ h := h.apply
  compose_alike _ _ _ _ _ h hunify := h.compose hfree hunify
  literals := setting.literals
  named _ _ := True
  named_of_refused _ _ _ _ _ _ _ _ := trivial

end Numbering

end Rubric
