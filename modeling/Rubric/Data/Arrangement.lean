import Rubric.Data.Table

/-!
# Collections without an order of their own

Some collections are gone through in an order that nothing fixes: it may depend on the
elements in any way. An `Arrangement` is one such order. All that is known of it is that
it neither loses an element nor adds one, and what is said about every arrangement holds
whatever the order is.
-/

namespace Rubric

/-- An order in which the elements of a collection are gone through. -/
structure Arrangement (κ : Type) where
  arrange : List κ → List κ
  perm : ∀ keys, (arrange keys).Perm keys

namespace Arrangement

variable {κ α : Type}

/-- The elements as they are listed. -/
def listed : Arrangement κ := ⟨id, fun _ => .refl _⟩

instance : Inhabited (Arrangement κ) := ⟨listed⟩

@[simp] theorem mem_arrange (order : Arrangement κ) (keys : List κ) (key : κ) :
    key ∈ order.arrange keys ↔ key ∈ keys :=
  (order.perm keys).mem_iff

end Arrangement

namespace Table

variable {κ α : Type} [DecidableEq κ]

/-- The bindings of a table, gone through in the order of an arrangement of its keys. -/
def arranged (table : Table κ α) (order : Arrangement κ) : List (κ × α) :=
  (order.arrange (table.entries.map Prod.fst)).filterMap fun key =>
    (table.get? key).map fun value => (key, value)

theorem arranged_mapValues {β : Type} (f : α → β) (table : Table κ α) (order : Arrangement κ) :
    (table.mapValues f).arranged order =
      (table.arranged order).map fun entry => (entry.1, f entry.2) := by
  unfold arranged
  rw [List.map_filterMap, show (table.mapValues f).entries.map Prod.fst =
    table.entries.map Prod.fst by simp [mapValues]]
  congr 1
  funext key
  rw [get?_mapValues]
  cases table.get? key <;> rfl

end Table

end Rubric
