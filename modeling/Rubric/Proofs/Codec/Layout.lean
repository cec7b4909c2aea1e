import Mathlib.Data.List.Forall2
import Rubric.Codec.Location

/-!
# Layouts

A layout is the JSON of a value together with what may be changed in it: to which objects
keys can be added, which members can be left out, and which objects can be written as the
row of their members. The JSON values that one layout allows are those that represent it.
-/

namespace Rubric

/-- How the members of an object may be written. -/
inductive ObjectKind where
  /-- With exactly these keys. -/
  | closed
  /-- With other keys beside them. -/
  | extensible
  /-- With other keys beside them, or as a row without keys. -/
  | record
deriving DecidableEq

/-- When a member may be left out. -/
inductive Presence where
  /-- Never. -/
  | required
  /-- Always, since it has its default. -/
  | spare
  /-- Always, since it has nothing to say, and then it is not written at first either. -/
  | absent
deriving DecidableEq

mutual

/-- JSON with the freedom there is in writing it. -/
inductive Layout where
  | leaf (json : Json)
  | number (value : Float)
  | row (elements : List Layout)
  | object (kind : ObjectKind) (members : List Member)

/-- A member of an object. -/
structure Member where
  key : String
  presence : Presence
  value : Layout

end

namespace Member

/-- A member that has to be there. -/
def required (key : String) (value : Layout) : Member :=
  ⟨key, .required, value⟩

/-- A member that can be left out if it has its default. -/
def defaulted (key : String) (isDefault : Bool) (value : Layout) : Member :=
  ⟨key, if isDefault then .spare else .required, value⟩

/-- A member that is there if there is a value for it. -/
def optional {α : Type} (key : String) (layout : α → Layout) : Option α → Member
  | none => ⟨key, .absent, .leaf .null⟩
  | some value => ⟨key, .required, layout value⟩

end Member

namespace Layout

/-- A case with its payload. -/
def tagged (name : String) (payload : Layout) : Layout :=
  object .closed [.required name payload]

/-- A case with fields of its own. -/
def variant (name : String) (members : List Member) : Layout :=
  tagged name (object .extensible members)

/-! ## Plain writing -/

mutual

/-- The JSON in which no freedom is used. -/
def plain : Layout → Json
  | leaf json => json
  | number value => .ofFloat value
  | row elements => .array (plainAll elements)
  | object _ members => .object (plainMembers members)

def plainAll : List Layout → List Json
  | [] => []
  | layout :: rest => layout.plain :: plainAll rest

def plainMembers : List Member → List (String × Json)
  | [] => []
  | ⟨key, .required, value⟩ :: rest => (key, value.plain) :: plainMembers rest
  | ⟨key, .spare, value⟩ :: rest => (key, value.plain) :: plainMembers rest
  | ⟨_, .absent, _⟩ :: rest => plainMembers rest

end

mutual

/-- Whether every number in a layout has a JSON of its own. -/
def Finite : Layout → Prop
  | leaf _ => True
  | number value => value.isFinite = true
  | row elements => FiniteAll elements
  | object _ members => FiniteMembers members

def FiniteAll : List Layout → Prop
  | [] => True
  | layout :: rest => layout.Finite ∧ FiniteAll rest

def FiniteMembers : List Member → Prop
  | [] => True
  | ⟨_, _, value⟩ :: rest => value.Finite ∧ FiniteMembers rest

end

theorem plainAll_eq_map (elements : List Layout) : plainAll elements = elements.map plain := by
  induction elements with
  | nil => rw [plainAll, List.map_nil]
  | cons layout rest ih => rw [plainAll, ih, List.map_cons]

theorem plainMembers_append (members others : List Member) :
    plainMembers (members ++ others) = plainMembers members ++ plainMembers others := by
  induction members with
  | nil => rw [plainMembers, List.nil_append, List.nil_append]
  | cons member rest ih =>
      obtain ⟨key, presence, value⟩ := member
      cases presence <;> simp only [List.cons_append, plainMembers, ih]

@[simp] theorem plainMembers_required (key : String) (value : Layout) (rest : List Member) :
    plainMembers (.required key value :: rest) = (key, value.plain) :: plainMembers rest := by
  rw [Member.required, plainMembers]

@[simp] theorem plainMembers_defaulted (key : String) (isDefault : Bool) (value : Layout)
    (rest : List Member) :
    plainMembers (.defaulted key isDefault value :: rest) =
      (key, value.plain) :: plainMembers rest := by
  cases isDefault <;> exact plainMembers.eq_def _

@[simp] theorem plainMembers_optional {α : Type} (key : String) (layout : α → Layout)
    (value : Option α) (rest : List Member) :
    plainMembers (.optional key layout value :: rest) =
      Json.present key (fun a => (layout a).plain) value ++ plainMembers rest := by
  cases value <;> exact plainMembers.eq_def _

@[simp] theorem plain_tagged (name : String) (payload : Layout) :
    (tagged name payload).plain = .tagged name payload.plain := by
  rw [tagged, plain, plainMembers_required, plainMembers, Json.tagged]

@[simp] theorem plain_variant (name : String) (members : List Member) :
    (variant name members).plain = .tagged name (.object (plainMembers members)) := by
  rw [variant, plain_tagged, plain]

/-! ## Representation -/

/-- A choice of members that leaves out only what may be left out, with values that a
relation allows. -/
inductive Chosen (allows : Layout → Json → Prop) : List Member → List (String × Json) → Prop
  | nil : Chosen allows [] []
  | given {member rest json entries} (h : allows member.value json)
      (hrest : Chosen allows rest entries) :
      Chosen allows (member :: rest) ((member.key, json) :: entries)
  | leftOut {member rest entries} (h : member.presence ≠ .required)
      (hrest : Chosen allows rest entries) : Chosen allows (member :: rest) entries

/-- The JSON values that a layout allows. -/
inductive Represents : Layout → Json → Prop
  | leaf (json : Json) : Represents (leaf json) json
  | number {value : Float} (h : value.isFinite = true) : Represents (number value) (.real value)
  | row {elements jsons} (h : List.Forall₂ Represents elements jsons) :
      Represents (row elements) (.array jsons)
  | object {kind members chosen extra entries} (h : Chosen Represents members chosen)
      (hextra : ∀ entry ∈ extra, kind ≠ .closed ∧ entry.1 ∉ members.map Member.key)
      (hentries : entries.Perm (chosen ++ extra)) :
      Represents (object kind members) (.object entries)
  | fieldRow {members jsons} (h : List.Forall₂ Represents (members.map Member.value) jsons) :
      Represents (object .record members) (.array jsons)

mutual

/-- The plain writing is one of those allowed, if its numbers can be written. -/
theorem represents_plain : (layout : Layout) → layout.Finite → layout.Represents layout.plain
  | leaf json, _ => by
      rw [plain]
      exact .leaf json
  | number value, h => by
      rw [Finite] at h
      rw [plain, Json.ofFloat, if_pos h]
      exact .number h
  | row elements, h => by
      rw [Finite] at h
      rw [plain]
      exact .row (represents_plainAll elements h)
  | object kind members, h => by
      rw [Finite] at h
      rw [plain]
      have hchosen := chosen_plainMembers members h
      have hentries : (plainMembers members).Perm (plainMembers members ++ []) := by
        rw [List.append_nil]
      exact .object hchosen (fun _ hmem => absurd hmem List.not_mem_nil) hentries

theorem represents_plainAll : (elements : List Layout) → FiniteAll elements →
    List.Forall₂ Represents elements (plainAll elements)
  | [], _ => by
      rw [plainAll]
      exact .nil
  | layout :: rest, h => by
      rw [FiniteAll] at h
      rw [plainAll]
      exact .cons (represents_plain layout h.1) (represents_plainAll rest h.2)

theorem chosen_plainMembers : (members : List Member) → FiniteMembers members →
    Chosen Represents members (plainMembers members)
  | [], _ => by
      rw [plainMembers]
      exact .nil
  | ⟨key, .required, value⟩ :: rest, h => by
      rw [FiniteMembers] at h
      rw [plainMembers]
      exact .given (represents_plain value h.1) (chosen_plainMembers rest h.2)
  | ⟨key, .spare, value⟩ :: rest, h => by
      rw [FiniteMembers] at h
      rw [plainMembers]
      exact .given (represents_plain value h.1) (chosen_plainMembers rest h.2)
  | ⟨key, .absent, value⟩ :: rest, h => by
      rw [FiniteMembers] at h
      rw [plainMembers]
      exact .leftOut (by simp) (chosen_plainMembers rest h.2)

end

theorem Chosen.keys_sublist {allows : Layout → Json → Prop} {members : List Member}
    {chosen : List (String × Json)} (h : Chosen allows members chosen) :
    (chosen.map Prod.fst).Sublist (members.map Member.key) := by
  induction h with
  | nil => exact .slnil
  | given _ _ ih => exact ih.cons_cons _
  | leftOut _ _ ih => exact ih.cons _

/-- A member of a choice is there with a value that is allowed, or it is left out. -/
theorem Chosen.cases_of_mem {allows : Layout → Json → Prop} {members : List Member}
    {chosen : List (String × Json)} (h : Chosen allows members chosen)
    (hkeys : (members.map Member.key).Nodup) {member : Member} (hmem : member ∈ members) :
    (∃ json, (member.key, json) ∈ chosen ∧ allows member.value json) ∨
      (member.key ∉ chosen.map Prod.fst ∧ member.presence ≠ .required) := by
  induction h with
  | nil => exact absurd hmem List.not_mem_nil
  | @given first rest json entries hvalue hrest ih =>
      obtain ⟨hfresh, hkeys⟩ := List.nodup_cons.mp hkeys
      rcases List.mem_cons.mp hmem with rfl | hmem
      · exact .inl ⟨_, List.mem_cons_self, hvalue⟩
      · rcases ih hkeys hmem with ⟨json, hjson, hallowed⟩ | ⟨habsent, hpresence⟩
        · exact .inl ⟨json, List.mem_cons_of_mem _ hjson, hallowed⟩
        · have hne : member.key ≠ first.key := by
            intro heq
            exact hfresh (heq ▸ List.mem_map_of_mem hmem)
          exact .inr ⟨List.not_mem_cons_of_ne_of_not_mem hne habsent, hpresence⟩
  | @leftOut first rest entries hpresence hrest ih =>
      obtain ⟨hfresh, hkeys⟩ := List.nodup_cons.mp hkeys
      rcases List.mem_cons.mp hmem with rfl | hmem
      · exact .inr ⟨fun hkey => hfresh (hrest.keys_sublist.subset hkey), hpresence⟩
      · exact ih hkeys hmem

theorem Represents.eq_of_leaf {json found : Json} (h : (Layout.leaf json).Represents found) :
    found = json := by
  cases h
  rfl

theorem Represents.exists_of_closed {members : List Member} {json : Json}
    (h : (Layout.object .closed members).Represents json) :
    ∃ chosen entries, json = .object entries ∧ Chosen Represents members chosen ∧
      entries.Perm chosen := by
  cases h with
  | @object _ _ chosen extra entries hchosen hextra hentries =>
      have hnone : extra = [] := by
        refine List.eq_nil_iff_forall_not_mem.mpr fun entry hmem => ?_
        exact (hextra entry hmem).1 rfl
      rw [hnone, List.append_nil] at hentries
      exact ⟨chosen, entries, rfl, hchosen, hentries⟩

theorem Represents.exists_of_tagged {name : String} {payload : Layout} {json : Json}
    (h : (tagged name payload).Represents json) :
    ∃ inner, json = .object [(name, inner)] ∧ payload.Represents inner := by
  obtain ⟨chosen, entries, rfl, hchosen, hentries⟩ := h.exists_of_closed
  cases hchosen with
  | given hvalue hrest =>
      cases hrest
      exact ⟨_, congrArg Json.object (List.perm_singleton.mp hentries), hvalue⟩
  | leftOut hpresence _ => exact absurd rfl hpresence

end Layout

end Rubric
