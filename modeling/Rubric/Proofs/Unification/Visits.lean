import Rubric.Proofs.Data.Rank
import Rubric.Proofs.Unification.Recursion
import Rubric.Typing.Session

/-!
# The types that unification works with

The search for a unifier takes types apart, expands them and resolves them in what it has found so
far. `visited` lists all types that it has in hand on the way, with the bindings of the
substitutions that it builds. Their variables are those of the two types that it started from and
of alias bodies: no step of the search makes a variable of its own.
-/

namespace Rubric

namespace Table

variable {κ α : Type} [DecidableEq κ]

/-- The values that can be looked up. -/
def values (table : Table κ α) : List α :=
  table.keys.filterMap table.get?

theorem mem_values_iff {table : Table κ α} {value : α} :
    value ∈ table.values ↔ ∃ key, table.get? key = some value := by
  constructor
  · intro h
    obtain ⟨key, _, hvalue⟩ := List.mem_filterMap.mp h
    exact ⟨key, hvalue⟩
  · rintro ⟨key, hvalue⟩
    exact List.mem_filterMap.mpr ⟨key, mem_keys_of_get? hvalue, hvalue⟩

theorem exists_of_mem_keys {table : Table κ α} {key : κ} (h : key ∈ table.keys) :
    ∃ value, table.get? key = some value := by
  obtain ⟨entry, hentry, rfl⟩ := List.mem_map.mp h
  have hfound : (table.entries.find? fun other => other.1 = entry.1).isSome = true :=
    List.find?_isSome.mpr ⟨entry, hentry, by simp⟩
  obtain ⟨other, hother⟩ := Option.isSome_iff_exists.mp hfound
  exact ⟨other.2, Option.map_eq_some_iff.mpr ⟨other, hother, rfl⟩⟩

end Table

namespace Substitution

/-- The bound variables and what they are bound to. -/
def types (s : Substitution) : List Ty :=
  s.bindings.keys.map .var ++ s.bindings.values

theorem All.types {p : TypeVar → Prop} {s : Substitution} (h : s.All p) :
    ∀ t ∈ s.types, t.All p := by
  refine List.forall_mem_append.mpr ⟨?_, ?_⟩
  · intro t ht
    obtain ⟨v, hv, rfl⟩ := List.mem_map.mp ht
    obtain ⟨u, hu⟩ := Table.exists_of_mem_keys hv
    exact Ty.all_var.mpr (h v u hu).1
  · intro t ht
    obtain ⟨v, hv⟩ := Table.mem_values_iff.mp ht
    exact (h v t hv).2

end Substitution

namespace Unification

/-- The types in hand while pairs are unified from left to right, from those of each call. -/
def visitedEach (unify : Ty → Ty → Search Substitution) (visit : Ty → Ty → List Ty) :
    List (Ty × Ty) → Substitution → List Ty
  | [], found => found.types
  | (a, b) :: rest, found =>
      found.types ++ (visit (found.apply a) (found.apply b) ++
        match (unify (found.apply a) (found.apply b)).run with
        | some (.ok more) => more.types ++ visitedEach unify visit rest (found.compose more)
        | _ => [])

/-- The types in hand when neither type is a variable and they are not one name. -/
def visitedHeads (aliases : Aliases) (expanding : List (Ty × Ty))
    (unify : List (Ty × Ty) → Ty → Ty → Search Substitution)
    (visit : List (Ty × Ty) → Ty → Ty → List Ty) (a b : Ty) : List Ty :=
  let a' := aliases.expand a
  let b' := aliases.expand b
  [a', b'] ++
    if a' = a ∧ b' = b then
      if a.sameHead b then
        visitedEach (unify expanding) (visit expanding) (a.children.zip b.children) .empty
      else []
    else if expanding.contains (a, b) then []
    else visit ((a, b) :: expanding) a' b'

/-- The types in hand during a search of bounded depth. -/
def visited (aliases : Aliases) : Nat → List (Ty × Ty) → Ty → Ty → List Ty
  | 0, _, a, b => [a, b]
  | depth + 1, expanding, a, b =>
      [a, b] ++
        match a, b with
        | .var _, _ => []
        | _, .var _ => []
        | .con m, .con n =>
            if m = n then []
            else
              visitedHeads aliases expanding (unifyWithin aliases depth) (visited aliases depth)
                (.con m) (.con n)
        | a, b =>
            visitedHeads aliases expanding (unifyWithin aliases depth) (visited aliases depth) a b

variable {aliases : Aliases} {p : TypeVar → Prop}

theorem all_visitedEach {unify : Ty → Ty → Search Substitution} {visit : Ty → Ty → List Ty}
    (hunify : ∀ {a b more}, a.All p → b.All p → (unify a b).run = some (.ok more) → more.All p)
    (hvisit : ∀ {a b}, a.All p → b.All p → ∀ t ∈ visit a b, t.All p)
    {pairs : List (Ty × Ty)} (hpairs : ∀ pair ∈ pairs, pair.1.All p ∧ pair.2.All p)
    {found : Substitution} (hfound : found.All p) :
    ∀ t ∈ visitedEach unify visit pairs found, t.All p := by
  induction pairs generalizing found with
  | nil => exact hfound.types
  | cons pair rest ih =>
      obtain ⟨a, b⟩ := pair
      obtain ⟨⟨ha, hb⟩, hrest⟩ := List.forall_mem_cons.mp hpairs
      have ha' := hfound.apply ha
      have hb' := hfound.apply hb
      refine List.forall_mem_append.mpr ⟨hfound.types, ?_⟩
      refine List.forall_mem_append.mpr ⟨hvisit ha' hb', ?_⟩
      split
      · next more hrun =>
          have hmore := hunify ha' hb' hrun
          exact List.forall_mem_append.mpr ⟨hmore.types, ih hrest (hfound.compose hmore)⟩
      · exact List.forall_mem_nil _

theorem all_visitedHeads (haliases : aliases.All p) {expanding : List (Ty × Ty)}
    {unify : List (Ty × Ty) → Ty → Ty → Search Substitution}
    {visit : List (Ty × Ty) → Ty → Ty → List Ty}
    (hunify : ∀ {expanding a b more}, a.All p → b.All p →
      (unify expanding a b).run = some (.ok more) → more.All p)
    (hvisit : ∀ {expanding a b}, a.All p → b.All p → ∀ t ∈ visit expanding a b, t.All p)
    {a b : Ty} (ha : a.All p) (hb : b.All p) :
    ∀ t ∈ visitedHeads aliases expanding unify visit a b, t.All p := by
  have ha' := haliases.expand ha
  have hb' := haliases.expand hb
  unfold visitedHeads
  refine List.forall_mem_append.mpr
    ⟨List.forall_mem_cons.mpr ⟨ha', List.forall_mem_singleton.mpr hb'⟩, ?_⟩
  split
  · split
    · refine all_visitedEach hunify hvisit ?_ (Substitution.all_empty p)
      intro pair hpair
      obtain ⟨hleft, hright⟩ := List.of_mem_zip hpair
      exact ⟨Ty.all_of_mem_children ha hleft, Ty.all_of_mem_children hb hright⟩
    · exact List.forall_mem_nil _
  · split
    · exact List.forall_mem_nil _
    · exact hvisit ha' hb'

/-- The search works with the variables that it was given and those of alias bodies. -/
theorem all_visited (haliases : aliases.All p) (depth : Nat) {expanding : List (Ty × Ty)} {a b : Ty}
    (ha : a.All p) (hb : b.All p) : ∀ t ∈ visited aliases depth expanding a b, t.All p := by
  induction depth generalizing expanding a b with
  | zero => exact List.forall_mem_cons.mpr ⟨ha, List.forall_mem_singleton.mpr hb⟩
  | succ depth ih =>
      have hunify : ∀ {expanding a b more}, a.All p → b.All p →
          (unifyWithin aliases depth expanding a b).run = some (.ok more) → more.All p := by
        intro expanding a b more ha hb hrun
        obtain ⟨_, hcalls⟩ := Recursion.of_run hrun
        exact hcalls.all haliases ha hb
      unfold visited
      refine List.forall_mem_append.mpr
        ⟨List.forall_mem_cons.mpr ⟨ha, List.forall_mem_singleton.mpr hb⟩, ?_⟩
      split
      · exact List.forall_mem_nil _
      · exact List.forall_mem_nil _
      · split
        · exact List.forall_mem_nil _
        · exact all_visitedHeads haliases hunify ih ha hb
      · exact all_visitedHeads haliases hunify ih ha hb

end Unification

namespace Session

/-- The types in hand while an equation is settled: those of the search, the solution, the
equations together with it, and what the numeric literals become. -/
def equationTypes (aliases : Aliases) (session : Session) (expected found : Ty) : List Ty :=
  let expected := session.subst.apply expected
  let found := session.subst.apply found
  Unification.visited aliases (Unification.depthBound aliases expected found) [] expected found ++
    match unify aliases expected found with
    | .ok solution =>
        let subst := session.subst.compose solution
        let literals := session.numeric.map fun v => subst.apply (.var v)
        solution.types ++ (subst.types ++ (literals ++ literals.map aliases.expand))
    | .error error => error.types

end Session

end Rubric
