import Mathlib.Data.Finset.Card
import Mathlib.Logic.Relation
import Rubric.Data.Table

/-!
# Ranks in tables without cycles

The bindings of a table point from keys to further keys. When no key leads back to
itself, every key has a rank below the number of bindings, and each link goes to a key
of smaller rank. A chase along links therefore ends after as many steps as there are
bindings.
-/

namespace Rubric

/-- A relation without cycles ranks the members of a list below its length, so that
every link between members goes down. -/
theorem exists_rank {α : Type} (link : α → α → Prop) (keys : List α)
    (hacyclic : ∀ a, ¬ Relation.TransGen link a a) :
    ∃ rank : α → Nat,
      (∀ a b, link a b → b ∈ keys → rank b < rank a) ∧ ∀ a ∈ keys, rank a < keys.length := by
  classical
  -- The rank counts the members that can be reached.
  let reached (a : α) : Finset α := keys.toFinset.filter (Relation.TransGen link a)
  refine ⟨fun a => (reached a).card, ?_, ?_⟩
  · intro a b hab hb
    apply Finset.card_lt_card
    rw [Finset.ssubset_iff_of_subset]
    · refine ⟨b, ?_, ?_⟩
      · exact Finset.mem_filter.mpr ⟨List.mem_toFinset.mpr hb, .single hab⟩
      · intro hmem
        exact hacyclic b (Finset.mem_filter.mp hmem).2
    · intro c hc
      obtain ⟨hkey, hreach⟩ := Finset.mem_filter.mp hc
      exact Finset.mem_filter.mpr ⟨hkey, .head hab hreach⟩
  · intro a ha
    have hlt : (reached a).card < keys.toFinset.card := by
      apply Finset.card_lt_card
      rw [Finset.ssubset_iff_of_subset (Finset.filter_subset _ _)]
      refine ⟨a, List.mem_toFinset.mpr ha, ?_⟩
      intro hmem
      exact hacyclic a (Finset.mem_filter.mp hmem).2
    exact Nat.lt_of_lt_of_le hlt (List.toFinset_card_le keys)

/-- A relation that goes down in rank has no cycles. -/
theorem acyclic_of_rank {α : Type} {link : α → α → Prop} (rank : α → Nat)
    (hrank : ∀ a b, link a b → rank b < rank a) (a : α) : ¬ Relation.TransGen link a a := by
  have hlt : ∀ b, Relation.TransGen link a b → rank b < rank a := by
    intro b h
    induction h with
    | single h => exact hrank _ _ h
    | tail _ h ih => exact Nat.lt_trans (hrank _ _ h) ih
  intro h
  exact Nat.lt_irrefl _ (hlt a h)

namespace Table

variable {κ α : Type}

/-- The bound keys. -/
def keys (table : Table κ α) : List κ :=
  table.entries.map Prod.fst

theorem length_keys (table : Table κ α) : table.keys.length = table.size := by
  simp [keys, size]

variable [DecidableEq κ]

theorem mem_entries_of_get? {table : Table κ α} {key : κ} {value : α}
    (h : table.get? key = some value) : (key, value) ∈ table.entries := by
  obtain ⟨entry, hentry, rfl⟩ := Option.map_eq_some_iff.mp h
  have hkey : entry.1 = key := by simpa using List.find?_some hentry
  have hmem := List.mem_of_find?_eq_some hentry
  rw [← hkey]
  exact hmem

theorem mem_keys_of_get? {table : Table κ α} {key : κ} {value : α}
    (h : table.get? key = some value) : key ∈ table.keys :=
  List.mem_map.mpr ⟨(key, value), mem_entries_of_get? h, rfl⟩

end Table

end Rubric
