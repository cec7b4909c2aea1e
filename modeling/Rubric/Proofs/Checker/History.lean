import Rubric.Proofs.Checker.Equations

/-!
# What a session remembers

A session is asked for one equation after the other, and it accepts some and refuses
others. Each accepted one rewrites every binding that the session holds. Without variables
in alias bodies nothing is lost by that: the two sides of every accepted equation resolve
to equal types from then on, and a refused equation leaves no trace.
-/

namespace Rubric

namespace Session

variable {aliases : Aliases} {literals : Arrangement TypeVar} {session after : Session}
  {equations : List (Ty × Ty)}

/-- A session since its last reset, with the equations that it has accepted, the latest one
first. Between two equations anything may happen that leaves the substitution alone. -/
inductive History (aliases : Aliases) : List (Ty × Ty) → Session → Prop where
  | reset (session : Session) : History aliases [] session.reset
  | accepted {equations : List (Ty × Ty)} {session after : Session} {expected found : Ty}
      {literals : Arrangement TypeVar} : History aliases equations session →
      Check.runOn (Check.constrain aliases literals expected found) session = (.ok (), after) →
      History aliases ((expected, found) :: equations) after
  | refused {equations : List (Ty × Ty)} {session after : Session} {expected found : Ty}
      {literals : Arrangement TypeVar} {error : TypeError} : History aliases equations session →
      Check.runOn (Check.constrain aliases literals expected found) session =
        (.error error, after) →
      History aliases equations after
  | other {equations : List (Ty × Ty)} {session after : Session} :
      History aliases equations session → after.subst = session.subst →
      History aliases equations after

theorem runOn_constrain (aliases : Aliases) (literals : Arrangement TypeVar) (session : Session)
    (expected found : Ty) :
    Check.runOn (Check.constrain aliases literals expected found) session =
      match session.equate aliases literals expected found with
      | .ok subst => (.ok (), { session with subst })
      | .error error => (.error error, session) := by
  unfold Check.constrain
  rw [Check.runOn_bind]
  show Check.runOn _ session = _
  cases session.equate aliases literals expected found <;> rfl

/-- A refused equation changes nothing in the session. -/
theorem eq_of_refused {expected found : Ty} {error : TypeError}
    (h : Check.runOn (Check.constrain aliases literals expected found) session =
      (.error error, after)) :
    after = session := by
  rw [runOn_constrain] at h
  split at h
  · cases h
  · cases h
    rfl

namespace History

theorem idempotent (hfree : aliases.VarFree) (h : History aliases equations session) :
    session.subst.Idempotent := by
  induction h with
  | reset => exact Substitution.idempotent_empty
  | accepted _ hrun ih =>
      obtain ⟨subst, hequate, rfl⟩ := Check.gives_constrain.mp hrun
      exact idempotent_of_equate hfree ih hequate
  | refused _ hrun ih => rwa [eq_of_refused hrun]
  | other _ hsame ih => rwa [hsame]

/-- A solution of what the session holds solves every accepted equation. -/
theorem solved (hfree : aliases.VarFree) (h : History aliases equations session)
    {σ : TypeVar → Ty} (hσ : session.subst.SolvedBy aliases.Equal σ) :
    ∀ equation ∈ equations, aliases.Equal (equation.1.subst σ) (equation.2.subst σ) := by
  induction h with
  | reset => simp
  | accepted hbefore hrun ih =>
      obtain ⟨subst, hequate, rfl⟩ := Check.gives_constrain.mp hrun
      obtain ⟨hearlier, hnew⟩ :=
        solvedBy_of_equate hfree (hbefore.idempotent hfree) hequate hσ
      exact List.forall_mem_cons.mpr ⟨hnew, ih hearlier⟩
  | refused _ hrun ih =>
      rw [eq_of_refused hrun] at hσ
      exact ih hσ
  | other _ hsame ih =>
      rw [hsame] at hσ
      exact ih hσ

/-- After any equations, accepted or refused, the substitution is in solved form and
resolves the two sides of each accepted one to equal types. An equation that is refused
next leaves the session as it is. -/
theorem keeps_equations (hfree : aliases.VarFree) (h : History aliases equations session) :
    session.subst.Idempotent ∧
      (∀ equation ∈ equations, aliases.Equal (session.subst.apply equation.1)
        (session.subst.apply equation.2)) ∧
      ∀ literals expected found error after,
        Check.runOn (Check.constrain aliases literals expected found) session =
          (.error error, after) → after = session := by
  have hsolved := h.idempotent hfree
  refine ⟨hsolved, ?_, fun _ _ _ _ _ => eq_of_refused⟩
  intro equation hequation
  rw [hsolved.apply_eq, hsolved.apply_eq]
  exact h.solved hfree (hsolved.solvedBy_image (Aliases.Equal.congruence aliases)) equation
    hequation

/-- Three equations are accepted, and between them one is refused for its heads and one for
the literal whose variable it would give the type of a text. -/
theorem keeps_equations_mixed :
    ∃ (aliases : Aliases) (session : Session),
      aliases.get? "Amount" = some (.con "Int") ∧ session.numeric = [⟨2, none⟩] ∧
      session.subst.get? ⟨2, none⟩ = some (.con "Amount") ∧ session.subst.Idempotent ∧
      aliases.Equal (session.subst.apply (.list (.var ⟨1, none⟩)))
        (session.subst.apply (.var ⟨0, none⟩)) ∧
      ∃ literals error after,
        Check.runOn (Check.constrain aliases literals (.var ⟨2, none⟩) .string) session =
          (.error error, after) ∧ after = session := by
  let aliases : Aliases := .ofList [("Amount", .con "Int")]
  let list : Ty := .list (.var ⟨1, none⟩)
  let amount : Ty := .con "Amount"
  let start : Session := { next := 3, numeric := [⟨2, none⟩] }
  let first : Session := { start with subst := ⟨⟨[(⟨0, none⟩, list)]⟩⟩ }
  let second : Session :=
    { start with subst := ⟨⟨[(⟨0, none⟩, .list amount), (⟨1, none⟩, amount)]⟩⟩ }
  let third : Session := { start with
    subst := ⟨⟨[(⟨0, none⟩, .list amount), (⟨1, none⟩, amount), (⟨2, none⟩, amount)]⟩⟩ }
  have hstart : History aliases [] start := .other (.reset start) rfl
  have hlist : Check.runOn (Check.constrain aliases .listed list (.var ⟨0, none⟩)) start =
      (.ok (), first) := rfl
  have hfirst : History aliases [(list, .var ⟨0, none⟩)] first := .accepted hstart hlist
  have hheads : Check.runOn (Check.constrain aliases .listed (.var ⟨0, none⟩) .string) first =
      (.error (.mismatch list .string none), first) := rfl
  have hamount : Check.runOn (Check.constrain aliases .listed (.var ⟨1, none⟩) amount) first =
      (.ok (), second) := rfl
  have hsecond : History aliases [(.var ⟨1, none⟩, amount), (list, .var ⟨0, none⟩)] second :=
    .accepted (.refused hfirst hheads) hamount
  have hliteral : Check.runOn (Check.constrain aliases .listed (.var ⟨2, none⟩) .string) second =
      (.error (.nonNumericLiteral .string), second) := rfl
  have hvariable : Check.runOn
      (Check.constrain aliases .listed (.var ⟨1, none⟩) (.var ⟨2, none⟩)) second =
        (.ok (), third) := rfl
  have hthird : History aliases
      [(.var ⟨1, none⟩, .var ⟨2, none⟩), (.var ⟨1, none⟩, amount), (list, .var ⟨0, none⟩)]
      third := .accepted (.refused hsecond hliteral) hvariable
  obtain ⟨hsolved, hequal, hrefused⟩ :=
    keeps_equations (Aliases.varFree_empty.insert Ty.all_con) hthird
  have hlast : Check.runOn (Check.constrain aliases .listed (.var ⟨2, none⟩) .string) third =
      (.error (.mismatch amount .string none), third) := rfl
  exact ⟨aliases, third, rfl, rfl, rfl, hsolved, hequal (list, .var ⟨0, none⟩) (by simp), _, _,
    _, hlast, hrefused _ _ _ _ _ hlast⟩

end History

end Session

end Rubric
