import Rubric.Proofs.Data.Rank
import Rubric.Proofs.Unification.Depth
import Rubric.Proofs.Unification.Simulation

/-!
# The recursion of unification is finite

The search for a unifier runs with a bound on its depth. `Recursion` is the recursion
itself, without a bound: one rule for each way in which a call is answered, the calls it
makes as premises, and the number of all calls below it. A pair of types has such a tree of
calls only if its recursion comes to an end.

`Unfolding` does the same for the expansion of aliases: it lists the names in the order in
which they were replaced.
-/

namespace Rubric

/-! ## Expansion -/

namespace Aliases

/-- A type and what it becomes when some alias names are replaced at its head, one after
the other. -/
inductive Unfolding (aliases : Aliases) : Ty → List String → Ty → Prop where
  | done (t : Ty) : Unfolding aliases t [] t
  | step {t t' u : Ty} {name : String} {names : List String} :
      aliases.unfoldHead t = some (name, t') → Unfolding aliases t' names u →
      Unfolding aliases t (name :: names) u

theorem unfoldHead_of_erase {aliases : Aliases} {t t' : Ty} {name other : String}
    (h : (aliases.erase name).unfoldHead t = some (other, t')) :
    aliases.unfoldHead t = some (other, t') := by
  refine unfoldHead_of_get?_eq h ?_
  obtain ⟨body, hbody, _⟩ := unfoldHead_cases h
  rw [get?_erase] at hbody ⊢
  split at hbody
  · cases hbody
  · next hne => rw [if_neg hne]

theorem Unfolding.of_erase {aliases : Aliases} {t u : Ty} {name : String} {names : List String}
    (h : (aliases.erase name).Unfolding t names u) : aliases.Unfolding t names u := by
  induction h with
  | done t => exact .done t
  | step hhead _ ih => exact .step (unfoldHead_of_erase hhead) ih

theorem contains_iff {aliases : Aliases} {name : String} :
    aliases.contains name = true ↔ ∃ body, aliases.get? name = some body :=
  Option.isSome_iff_exists

theorem size_erase_lt {aliases : Aliases} {name : String} {body : Ty}
    (h : aliases.get? name = some body) :
    (aliases.erase name).table.size < aliases.table.size := by
  have hmem : (name, body) ∈ aliases.table.entries := Table.mem_entries_of_get? h
  exact List.length_filter_lt_length_iff_exists.mpr ⟨(name, body), hmem, by simp⟩

/-- With as many steps as there are aliases, expansion only stops at a name that is no alias
or was replaced before. -/
theorem exists_unfolding_expandWithin {steps : Nat} {aliases : Aliases}
    (hsteps : aliases.table.size ≤ steps) (t : Ty) :
    ∃ names, aliases.Unfolding t names (expandWithin steps aliases t) ∧ names.Nodup ∧
      (∀ name ∈ names, aliases.contains name = true) ∧
      ∀ name t', aliases.unfoldHead (expandWithin steps aliases t) = some (name, t') →
        name ∈ names := by
  induction steps generalizing aliases t with
  | zero =>
      refine ⟨[], .done t, .nil, by simp, ?_⟩
      intro name t' hhead
      obtain ⟨body, hbody, _⟩ := unfoldHead_cases hhead
      have hpos : 0 < aliases.table.size :=
        List.length_pos_of_mem (Table.mem_entries_of_get? hbody)
      omega
  | succ steps ih =>
      cases hhead : aliases.unfoldHead t with
      | none =>
          have hstop : expandWithin (steps + 1) aliases t = t := by
            simp [expandWithin, hhead]
          rw [hstop]
          refine ⟨[], .done t, .nil, by simp, ?_⟩
          intro name t' hsome
          rw [hhead] at hsome
          cases hsome
      | some pair =>
          obtain ⟨name, t'⟩ := pair
          obtain ⟨body, hbody, _⟩ := unfoldHead_cases hhead
          have hstep : expandWithin (steps + 1) aliases t =
              expandWithin steps (aliases.erase name) t' := by
            simp [expandWithin, hhead]
          have hsmaller : (aliases.erase name).table.size ≤ steps := by
            have := size_erase_lt hbody
            omega
          obtain ⟨names, hunfolding, hnodup, hnames, hstop⟩ := ih hsmaller t'
          -- A name that is still an alias after the first step is another one.
          have hother : ∀ other ∈ names, other ≠ name ∧ aliases.contains other = true := by
            intro other hmem
            obtain ⟨found, hfound⟩ := contains_iff.mp (hnames other hmem)
            rw [get?_erase] at hfound
            split at hfound
            · cases hfound
            · next hne => exact ⟨fun heq => hne heq.symm, contains_iff.mpr ⟨found, hfound⟩⟩
          rw [hstep]
          refine ⟨name :: names, .step hhead hunfolding.of_erase, ?_, ?_, ?_⟩
          · exact List.nodup_cons.mpr ⟨fun hmem => (hother name hmem).1 rfl, hnodup⟩
          · intro other hmem
            rcases List.mem_cons.mp hmem with rfl | hmem
            · exact contains_iff.mpr ⟨body, hbody⟩
            · exact (hother other hmem).2
          · intro other u hsome
            by_cases heq : name = other
            · exact heq ▸ List.mem_cons_self
            · have hkept : (aliases.erase name).get? other = aliases.get? other := by
                rw [get?_erase, if_neg heq]
              exact List.mem_cons_of_mem _ (hstop other u (unfoldHead_of_get?_eq hsome hkept))

end Aliases

/-- The types that an error speaks about. -/
def UnifyError.types : UnifyError → List Ty
  | mismatch expected found => [expected, found]
  | occurs v t => [.var v, t]

/-! ## Calls of the search -/

namespace Unification

/-- The answer to a variable and a type. -/
def bound (v : TypeVar) (t : Ty) : Except UnifyError Substitution :=
  if t.occurs v then .error (.occurs v t) else .ok (.singleton v t)

/-- Neither type is a variable, and they are not one name twice. -/
structure Distinct (a b : Ty) : Prop where
  left : a.isVar = false
  right : b.isVar = false
  names : ∀ name, a = .con name → b ≠ .con name

mutual

/-- A call with the pairs that are being expanded and two types, its answer, and the number
of calls that are made until it is given. -/
inductive Recursion (aliases : Aliases) :
    List (Ty × Ty) → Ty → Ty → Except UnifyError Substitution → Nat → Prop where
  | same {expanding : List (Ty × Ty)} (v : TypeVar) :
      Recursion aliases expanding (.var v) (.var v) (.ok .empty) 1
  | left {expanding : List (Ty × Ty)} {v : TypeVar} {b : Ty} : b ≠ .var v →
      Recursion aliases expanding (.var v) b (bound v b) 1
  | right {expanding : List (Ty × Ty)} {v : TypeVar} {a : Ty} : a.isVar = false →
      Recursion aliases expanding a (.var v) (bound v a) 1
  | name {expanding : List (Ty × Ty)} (name : String) :
      Recursion aliases expanding (.con name) (.con name) (.ok .empty) 1
  /-- The pair came around again. -/
  | again {expanding : List (Ty × Ty)} {a b : Ty} : Distinct a b →
      ¬ (aliases.expand a = a ∧ aliases.expand b = b) → (a, b) ∈ expanding →
      Recursion aliases expanding a b (.error (.mismatch a b)) 1
  | expand {expanding : List (Ty × Ty)} {a b : Ty}
      {outcome : Except UnifyError Substitution} {calls : Nat} : Distinct a b →
      ¬ (aliases.expand a = a ∧ aliases.expand b = b) → (a, b) ∉ expanding →
      Recursion aliases ((a, b) :: expanding) (aliases.expand a) (aliases.expand b) outcome
        calls →
      Recursion aliases expanding a b outcome (calls + 1)
  | heads {expanding : List (Ty × Ty)} {a b : Ty} : Distinct a b →
      aliases.expand a = a ∧ aliases.expand b = b → a.sameHead b = false →
      Recursion aliases expanding a b (.error (.mismatch a b)) 1
  | parts {expanding : List (Ty × Ty)} {a b : Ty}
      {outcome : Except UnifyError Substitution} {calls : Nat} : Distinct a b →
      aliases.expand a = a ∧ aliases.expand b = b → a.sameHead b = true →
      RecursionEach aliases expanding (a.children.zip b.children) .empty outcome calls →
      Recursion aliases expanding a b outcome (calls + 1)

/-- Calls for pairs of types one after the other, each under the substitution found so far.
The first error ends them. -/
inductive RecursionEach (aliases : Aliases) :
    List (Ty × Ty) → List (Ty × Ty) → Substitution → Except UnifyError Substitution → Nat →
      Prop where
  | nil {expanding : List (Ty × Ty)} (found : Substitution) :
      RecursionEach aliases expanding [] found (.ok found) 0
  | stop {expanding rest : List (Ty × Ty)} {a b : Ty} {found : Substitution}
      {error : UnifyError} {calls : Nat} :
      Recursion aliases expanding (found.apply a) (found.apply b) (.error error) calls →
      RecursionEach aliases expanding ((a, b) :: rest) found (.error error) calls
  | next {expanding rest : List (Ty × Ty)} {a b : Ty} {found more : Substitution}
      {outcome : Except UnifyError Substitution} {calls others : Nat} :
      Recursion aliases expanding (found.apply a) (found.apply b) (.ok more) calls →
      RecursionEach aliases expanding rest (found.compose more) outcome others →
      RecursionEach aliases expanding ((a, b) :: rest) found outcome (calls + others)

end

theorem run_binding (v : TypeVar) (t : Ty) : (bind v t).run = some (bound v t) := by
  unfold bind bound
  split <;> rfl

variable {aliases : Aliases}

/-! ## A search that ends makes the calls of a recursion -/

theorem RecursionEach.of_run {unify : Ty → Ty → Search Substitution}
    {expanding pairs : List (Ty × Ty)} {found : Substitution}
    {outcome : Except UnifyError Substitution}
    (hunify : ∀ a b outcome, (unify a b).run = some outcome →
      ∃ calls, Recursion aliases expanding a b outcome calls)
    (h : (unifyEach unify pairs found).run = some outcome) :
    ∃ calls, RecursionEach aliases expanding pairs found outcome calls := by
  induction pairs generalizing found with
  | nil =>
      cases h
      exact ⟨0, .nil found⟩
  | cons pair rest ih =>
      obtain ⟨a, b⟩ := pair
      rw [unifyEach, Search.run_bind] at h
      cases hfirst : (unify (found.apply a) (found.apply b)).run with
      | none =>
          rw [hfirst] at h
          cases h
      | some first =>
          rw [hfirst] at h
          obtain ⟨calls, hcalls⟩ := hunify _ _ _ hfirst
          cases first with
          | error error =>
              cases h
              exact ⟨calls, .stop hcalls⟩
          | ok more =>
              obtain ⟨others, hothers⟩ := ih h
              exact ⟨calls + others, .next hcalls hothers⟩

theorem Recursion.of_run {depth : Nat} {expanding : List (Ty × Ty)} {a b : Ty}
    {outcome : Except UnifyError Substitution}
    (h : (unifyWithin aliases depth expanding a b).run = some outcome) :
    ∃ calls, Recursion aliases expanding a b outcome calls := by
  induction depth generalizing expanding a b outcome with
  | zero => cases h
  | succ depth ih =>
      rcases pair_cases a b with ⟨v, rfl, rfl⟩ | ⟨v, rfl, hb⟩ | ⟨v, ha, rfl⟩ |
        ⟨name, rfl, rfl⟩ | ⟨ha, hb, hne⟩
      · rw [unifyWithin_same] at h
        cases h
        exact ⟨1, .same v⟩
      · rw [unifyWithin_left hb, run_binding] at h
        cases h
        exact ⟨1, .left hb⟩
      · rw [unifyWithin_right ha, run_binding] at h
        cases h
        exact ⟨1, .right ha⟩
      · rw [unifyWithin_name] at h
        cases h
        exact ⟨1, .name name⟩
      · have hdistinct : Distinct a b := ⟨ha, hb, hne⟩
        rw [unifyWithin_heads ha hb hne] at h
        unfold unifyHeads at h
        dsimp only at h
        split at h
        · next hfixed =>
            rw [unifyParts_eq] at h
            split at h
            · next hhead =>
                obtain ⟨calls, hcalls⟩ := RecursionEach.of_run (fun _ _ _ => ih) h
                exact ⟨calls + 1, .parts hdistinct hfixed hhead hcalls⟩
            · next hhead =>
                cases h
                exact ⟨1, .heads hdistinct hfixed (Bool.eq_false_of_not_eq_true hhead)⟩
        · next hfixed =>
            split at h
            · next hmem =>
                cases h
                exact ⟨1, .again hdistinct hfixed hmem⟩
            · next hnew =>
                obtain ⟨calls, hcalls⟩ := ih h
                exact ⟨calls + 1, .expand hdistinct hfixed hnew hcalls⟩

/-! ## The calls of a recursion fit into some bound -/

mutual

theorem Recursion.exists_run :
    {expanding : List (Ty × Ty)} → {a b : Ty} → {outcome : Except UnifyError Substitution} →
      {calls : Nat} → Recursion aliases expanding a b outcome calls →
        ∃ depth, (unifyWithin aliases depth expanding a b).run = some outcome
  | _, _, _, _, _, .same v => ⟨1, by rw [unifyWithin_same]; rfl⟩
  | _, _, _, _, _, .left h => ⟨1, by rw [unifyWithin_left h, run_binding]⟩
  | _, _, _, _, _, .right h => ⟨1, by rw [unifyWithin_right h, run_binding]⟩
  | _, _, _, _, _, .name name => ⟨1, by rw [unifyWithin_name]; rfl⟩
  | _, _, _, _, _, .again h hfixed hmem => by
      refine ⟨1, ?_⟩
      rw [unifyWithin_heads h.left h.right h.names]
      simp only [unifyHeads, if_neg hfixed, if_pos hmem]
      rfl
  | _, _, _, _, _, .expand h hfixed hnew hcalls => by
      obtain ⟨depth, hdepth⟩ := hcalls.exists_run
      refine ⟨depth + 1, ?_⟩
      rw [unifyWithin_heads h.left h.right h.names]
      simpa only [unifyHeads, if_neg hfixed, if_neg hnew] using hdepth
  | _, _, _, _, _, .heads h hfixed hhead => by
      refine ⟨1, ?_⟩
      rw [unifyWithin_heads h.left h.right h.names]
      simp only [unifyHeads, if_pos hfixed, unifyParts_eq, hhead]
      rfl
  | _, _, _, _, _, .parts h hfixed hhead hcalls => by
      obtain ⟨depth, hdepth⟩ := hcalls.exists_run
      refine ⟨depth + 1, ?_⟩
      rw [unifyWithin_heads h.left h.right h.names]
      simpa only [unifyHeads, if_pos hfixed, unifyParts_eq, if_pos hhead] using hdepth depth
        (Nat.le_refl depth)

theorem RecursionEach.exists_run :
    {expanding pairs : List (Ty × Ty)} → {found : Substitution} →
      {outcome : Except UnifyError Substitution} → {calls : Nat} →
      RecursionEach aliases expanding pairs found outcome calls →
        ∃ depth, ∀ more, depth ≤ more →
          (unifyEach (unifyWithin aliases more expanding) pairs found).run = some outcome
  | _, _, _, _, _, .nil _ => ⟨0, fun _ _ => rfl⟩
  | _, _, _, _, _, .stop hcalls => by
      obtain ⟨depth, hdepth⟩ := hcalls.exists_run
      refine ⟨depth, fun more hle => ?_⟩
      rw [unifyEach, Search.run_bind, run_of_le hle hdepth]
  | _, _, _, _, _, .next hcalls hothers => by
      obtain ⟨depth, hdepth⟩ := hcalls.exists_run
      obtain ⟨depth', hdepth'⟩ := hothers.exists_run
      refine ⟨max depth depth', fun more hle => ?_⟩
      rw [unifyEach, Search.run_bind, run_of_le (by omega) hdepth]
      exact hdepth' more (by omega)

end

/-- The answer of a recursion does not depend on a bound. -/
theorem Recursion.unique {expanding : List (Ty × Ty)} {a b : Ty}
    {outcome outcome' : Except UnifyError Substitution} {calls calls' : Nat}
    (h : Recursion aliases expanding a b outcome calls)
    (h' : Recursion aliases expanding a b outcome' calls') : outcome = outcome' := by
  obtain ⟨depth, hdepth⟩ := h.exists_run
  obtain ⟨depth', hdepth'⟩ := h'.exists_run
  have hleft := run_of_le (Nat.le_max_left depth depth') hdepth
  have hright := run_of_le (Nat.le_max_right depth depth') hdepth'
  rw [hleft] at hright
  exact Option.some.inj hright

/-! ## Variables of answers -/

/-- All variables of an answer have a property. -/
def AnswerAll (p : TypeVar → Prop) : Except UnifyError Substitution → Prop
  | .ok s => s.All p
  | .error error => ∀ t ∈ error.types, t.All p

section Variables

variable {p : TypeVar → Prop}

theorem all_bound {v : TypeVar} {t : Ty} (hv : p v) (ht : t.All p) : AnswerAll p (bound v t) := by
  unfold bound
  split
  · exact List.forall_mem_cons.mpr ⟨Ty.all_var.mpr hv, List.forall_mem_singleton.mpr ht⟩
  · exact Substitution.all_singleton hv ht

theorem all_mismatch {a b : Ty} (ha : a.All p) (hb : b.All p) :
    AnswerAll p (.error (.mismatch a b)) :=
  List.forall_mem_cons.mpr ⟨ha, List.forall_mem_singleton.mpr hb⟩

mutual

/-- The variables of an answer come from the two types and from alias bodies. -/
theorem Recursion.all (haliases : aliases.All p) :
    {expanding : List (Ty × Ty)} → {a b : Ty} → {outcome : Except UnifyError Substitution} →
      {calls : Nat} → Recursion aliases expanding a b outcome calls → a.All p → b.All p →
        AnswerAll p outcome
  | _, _, _, _, _, .same _, _, _ => Substitution.all_empty p
  | _, _, _, _, _, .left _, ha, hb => all_bound (Ty.all_var.mp ha) hb
  | _, _, _, _, _, .right _, ha, hb => all_bound (Ty.all_var.mp hb) ha
  | _, _, _, _, _, .name _, _, _ => Substitution.all_empty p
  | _, _, _, _, _, .again _ _ _, ha, hb => all_mismatch ha hb
  | _, _, _, _, _, .expand _ _ _ h, ha, hb =>
      h.all haliases (haliases.expand ha) (haliases.expand hb)
  | _, _, _, _, _, .heads _ _ _, ha, hb => all_mismatch ha hb
  | _, _, _, _, _, .parts _ _ _ h, ha, hb => by
      refine h.all haliases (Substitution.all_empty p) ?_
      intro pair hpair
      obtain ⟨hleft, hright⟩ := List.of_mem_zip hpair
      exact ⟨Ty.all_of_mem_children ha hleft, Ty.all_of_mem_children hb hright⟩

theorem RecursionEach.all (haliases : aliases.All p) :
    {expanding pairs : List (Ty × Ty)} → {found : Substitution} →
      {outcome : Except UnifyError Substitution} → {calls : Nat} →
      RecursionEach aliases expanding pairs found outcome calls → found.All p →
        (∀ pair ∈ pairs, pair.1.All p ∧ pair.2.All p) → AnswerAll p outcome
  | _, _, _, _, _, .nil _, hfound, _ => hfound
  | _, _, _, _, _, .stop h, hfound, hpairs => by
      obtain ⟨⟨ha, hb⟩, _⟩ := List.forall_mem_cons.mp hpairs
      exact h.all haliases (hfound.apply ha) (hfound.apply hb)
  | _, _, _, _, _, .next h hrest, hfound, hpairs => by
      obtain ⟨⟨ha, hb⟩, hpairs⟩ := List.forall_mem_cons.mp hpairs
      have hmore := h.all haliases (hfound.apply ha) (hfound.apply hb)
      exact hrest.all haliases (hfound.compose hmore) hpairs

end

/-- Unification speaks about the variables that it was given and those of alias bodies, whether it
succeeds or not. -/
theorem all_unify (haliases : aliases.All p) {a b : Ty} (ha : a.All p) (hb : b.All p) :
    AnswerAll p (unify aliases a b) := by
  unfold unify
  split
  · next outcome hrun =>
      obtain ⟨_, hcalls⟩ := Recursion.of_run hrun
      exact hcalls.all haliases ha hb
  · exact all_mismatch ha hb

end Variables

/-! ## The recursion is finite -/

theorem run_unify (hfree : aliases.VarFree) (a b : Ty) :
    (unifyWithin aliases (depthBound aliases a b) [] a b).run = some (unify aliases a b) := by
  have hends := ends_depthBound hfree a b
  unfold unify
  cases hrun : (unifyWithin aliases (depthBound aliases a b) [] a b).run with
  | none => exact (hends hrun).elim
  | some outcome => rfl

/-- Unification and expansion end, whatever the aliases refer to, as long as their bodies
have no variables. The recursion that starts with two types and no pair under expansion
makes finitely many calls, none of them deeper than the bound, and its one answer is the
answer of unification. Expansion replaces each alias at most once, and stops at a name only
if it is no alias or was replaced before. -/
theorem recursion_finite (hfree : aliases.VarFree) :
    (∀ a b : Ty,
      (∃ calls, Recursion aliases [] a b (unify aliases a b) calls) ∧
      (∀ outcome calls, Recursion aliases [] a b outcome calls → outcome = unify aliases a b) ∧
      ∀ depth, depthBound aliases a b ≤ depth →
        (unifyWithin aliases depth [] a b).run = some (unify aliases a b)) ∧
    ∀ t : Ty, ∃ names, aliases.Unfolding t names (aliases.expand t) ∧ names.Nodup ∧
      (∀ name ∈ names, aliases.contains name = true) ∧
      ∀ name t', aliases.unfoldHead (aliases.expand t) = some (name, t') → name ∈ names := by
  refine ⟨fun a b => ?_, fun t => Aliases.exists_unfolding_expandWithin (Nat.le_refl _) t⟩
  have hrun := run_unify hfree a b
  obtain ⟨calls, hcalls⟩ := Recursion.of_run hrun
  exact ⟨⟨calls, hcalls⟩, fun _ _ h => h.unique hcalls, fun _ hle => run_of_le hle hrun⟩

/-- Aliases that refer to each other, to lists of themselves and to applications of
themselves. The two lists come around again, and the alias at the head of its own body is
replaced once by each call. -/
theorem recursion_finite_loops :
    ∃ aliases : Aliases,
      aliases.get? "Ping" = some (.con "Pong") ∧ aliases.get? "Pong" = some (.con "Ping") ∧
      aliases.get? "Left" = some (.list (.con "Left")) ∧
      aliases.get? "Right" = some (.list (.con "Right")) ∧
      aliases.get? "Wrap" = some (.app (.con "Wrap") [.con "Int"]) ∧
      (∃ calls, Recursion aliases [] (.con "Left") (.con "Right")
        (.error (.mismatch (.con "Left") (.con "Right"))) calls) ∧
      (∃ calls, Recursion aliases [] (.con "Ping") (.con "Wrap")
        (.error (.mismatch (.con "Ping") (.app (.app (.con "Wrap") [.con "Int"]) [.con "Int"])))
          calls) ∧
      ∃ names, aliases.Unfolding (.con "Wrap") names (.app (.con "Wrap") [.con "Int"]) ∧
        names.Nodup := by
  let aliases : Aliases := .ofList
    [("Ping", .con "Pong"), ("Pong", .con "Ping"), ("Left", .list (.con "Left")),
      ("Right", .list (.con "Right")), ("Wrap", .app (.con "Wrap") [.con "Int"])]
  have hfree : aliases.VarFree := by
    refine ((((Aliases.varFree_empty.insert ?_).insert ?_).insert ?_).insert ?_).insert ?_ <;>
      simp [Ty.Closed]
  obtain ⟨hcalls, hnames⟩ := recursion_finite hfree
  obtain ⟨names, hunfolding, hnodup, _⟩ := hnames (.con "Wrap")
  exact ⟨aliases, rfl, rfl, rfl, rfl, rfl, (hcalls _ _).1, (hcalls _ _).1, names, hunfolding,
    hnodup⟩

end Unification

end Rubric
