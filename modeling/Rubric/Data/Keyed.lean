/-!
# Lists in key order

A finite map from texts can be kept as the list of its entries in key order, with one
entry for each key. Two such lists hold the same map only if they are the same list.
-/

namespace Rubric

namespace Keyed

variable {α : Type}

/-- Put an entry into its place in key order, replacing one of the same key. -/
def put (key : String) (value : α) : List (String × α) → List (String × α)
  | [] => [(key, value)]
  | (k, v) :: rest =>
      if key < k then (key, value) :: (k, v) :: rest
      else if key = k then (key, value) :: rest
      else (k, v) :: put key value rest

def Sorted (entries : List (String × α)) : Prop :=
  entries.Pairwise fun a b => a.1 < b.1

theorem sorted_nil : Sorted ([] : List (String × α)) := List.Pairwise.nil

theorem fst_mem_put {key : String} {value : α} {entries : List (String × α)} {e : String × α}
    (h : e ∈ put key value entries) : e.1 = key ∨ e ∈ entries := by
  induction entries with
  | nil => simp [put] at h; simp [h]
  | cons entry rest ih =>
      obtain ⟨k, v⟩ := entry
      unfold put at h
      split at h
      · simp only [List.mem_cons] at h ⊢
        rcases h with rfl | h
        · exact .inl rfl
        · exact .inr h
      · split at h
        · simp only [List.mem_cons] at h ⊢
          rcases h with rfl | h
          · exact .inl rfl
          · exact .inr (.inr h)
        · simp only [List.mem_cons] at h ⊢
          rcases h with h | h
          · exact .inr (.inl h)
          · rcases ih h with h | h
            · exact .inl h
            · exact .inr (.inr h)

/-- Putting an entry into its place keeps the order. -/
theorem sorted_put (key : String) (value : α) {entries : List (String × α)}
    (h : Sorted entries) : Sorted (put key value entries) := by
  induction entries with
  | nil => exact List.pairwise_singleton _ _
  | cons entry rest ih =>
      obtain ⟨k, v⟩ := entry
      obtain ⟨hhead, htail⟩ := List.pairwise_cons.mp h
      unfold put
      split
      · next hlt =>
          refine List.pairwise_cons.mpr ⟨?_, h⟩
          intro e he
          rcases List.mem_cons.mp he with rfl | he
          · exact hlt
          · exact String.lt_trans hlt (hhead e he)
      · next hnlt =>
          split
          · next heq =>
              subst heq
              exact List.pairwise_cons.mpr ⟨hhead, htail⟩
          · next hne =>
              refine List.pairwise_cons.mpr ⟨?_, ih htail⟩
              intro e he
              rcases fst_mem_put he with hk | he
              · have hle : k ≤ key := String.not_lt.mp hnlt
                rw [hk]
                exact String.not_le.mp fun hge => hne (String.le_antisymm hge hle)
              · exact hhead e he

def get? (entries : List (String × α)) (key : String) : Option α :=
  (entries.find? fun entry => entry.1 == key).map Prod.snd

/-- Putting an entry into its place changes the value of its key only. -/
theorem get?_put (key k : String) (value : α) (entries : List (String × α)) :
    get? (put key value entries) k = if key = k then some value else get? entries k := by
  induction entries with
  | nil => by_cases h : key = k <;> simp [put, get?, h]
  | cons entry rest ih =>
      obtain ⟨k', v⟩ := entry
      unfold put
      split
      · by_cases h : key = k <;> simp [get?, List.find?_cons, h]
      · split
        · next heq =>
            subst heq
            by_cases h : key = k <;> simp [get?, h]
        · next hne =>
            by_cases h : k' = k
            · subst h
              simp [get?, hne]
            · simpa [get?, List.find?_cons, h] using ih

end Keyed

end Rubric
