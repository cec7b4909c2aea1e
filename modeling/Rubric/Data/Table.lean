/-!
# Finite tables

Signatures, aliases, substitutions and scopes are all finite maps in which a later
binding replaces an earlier one. A `Table` is such a map kept as a plain list of
bindings, so that its meaning is the single observation `get?`; the laws below say
what every operation does to that observation.
-/

namespace Rubric

/-- A finite map from keys to values, kept as its list of bindings. The first
binding of a key is the one that counts. -/
structure Table (κ : Type) (α : Type) where
  entries : List (κ × α) := []
deriving Repr

namespace Table

variable {κ α β : Type} [DecidableEq κ]

def empty : Table κ α := ⟨[]⟩

instance : Inhabited (Table κ α) := ⟨empty⟩

def get? (table : Table κ α) (key : κ) : Option α :=
  (table.entries.find? fun entry => entry.1 = key).map Prod.snd

def contains (table : Table κ α) (key : κ) : Bool :=
  (table.get? key).isSome

def erase (table : Table κ α) (key : κ) : Table κ α :=
  ⟨table.entries.filter fun entry => entry.1 ≠ key⟩

def insert (table : Table κ α) (key : κ) (value : α) : Table κ α :=
  ⟨(key, value) :: (table.erase key).entries⟩

def singleton (key : κ) (value : α) : Table κ α :=
  ⟨[(key, value)]⟩

def size (table : Table κ α) : Nat :=
  table.entries.length

def mapValues (f : α → β) (table : Table κ α) : Table κ β :=
  ⟨table.entries.map fun entry => (entry.1, f entry.2)⟩

/-- Add the bindings of a second table for the keys that the first leaves free. -/
def orElse (table other : Table κ α) : Table κ α :=
  ⟨table.entries ++ other.entries.filter fun entry => !table.contains entry.1⟩

def ofList (bindings : List (κ × α)) : Table κ α :=
  bindings.foldl (fun table entry => table.insert entry.1 entry.2) empty

def sorted (le : κ → κ → Bool) (table : Table κ α) : List (κ × α) :=
  table.entries.mergeSort fun a b => le a.1 b.1

/-! ## What each operation does to a look-up -/

@[simp] theorem get?_empty (key : κ) : (empty : Table κ α).get? key = none := rfl

@[simp] theorem get?_singleton (key k : κ) (value : α) :
    (singleton key value).get? k = if key = k then some value else none := by
  by_cases h : key = k <;> simp [singleton, get?, h]

theorem get?_erase (table : Table κ α) (key k : κ) :
    (table.erase key).get? k = if key = k then none else table.get? k := by
  unfold erase get?
  induction table.entries with
  | nil => simp
  | cons entry rest ih =>
      obtain ⟨k', v⟩ := entry
      by_cases hk : k' = key <;> by_cases hq : k' = k <;> by_cases hkk : key = k <;>
        simp_all

@[simp] theorem get?_insert (table : Table κ α) (key k : κ) (value : α) :
    (table.insert key value).get? k = if key = k then some value else table.get? k := by
  by_cases h : key = k
  · simp [insert, get?, h]
  · have herase := get?_erase table key k
    simp only [h, if_false] at herase
    simp [insert, get?, h]
    simpa [get?] using herase

@[simp] theorem get?_mapValues (f : α → β) (table : Table κ α) (key : κ) :
    (table.mapValues f).get? key = (table.get? key).map f := by
  unfold mapValues get?
  induction table.entries with
  | nil => rfl
  | cons entry rest ih =>
      obtain ⟨k, v⟩ := entry
      by_cases h : k = key <;> simp_all

/-- The second table only answers for keys that the first leaves free. -/
@[simp] theorem get?_orElse (table other : Table κ α) (key : κ) :
    (table.orElse other).get? key = (table.get? key).or (other.get? key) := by
  cases found : table.get? key with
  | some value =>
      obtain ⟨entry, hentry, rfl⟩ := Option.map_eq_some_iff.1 found
      simp only [orElse, get?, List.find?_append, hentry, Option.some_or, Option.map_some]
  | none =>
      have hnone := Option.map_eq_none_iff.1 found
      simp only [orElse, get?, List.find?_append, hnone, Option.none_or, List.find?_filter]
      congr 2
      funext entry
      by_cases h : entry.1 = key
      · simp [h, contains, found]
      · simp [h]

end Table

end Rubric
