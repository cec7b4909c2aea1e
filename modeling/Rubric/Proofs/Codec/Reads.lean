import Mathlib.Data.List.Nodup
import Rubric.Proofs.Codec.Layout

/-!
# Decoders that read layouts

A decoder reads a layout as a value if it answers that value for every JSON the layout
allows. Each way of building decoders carries this over: if the parts are read, so is the
whole. Decoders of nested terms are built level by level, and a level is used up only where
a case is entered, so what they read is bounded by the depth of the JSON.
-/

namespace Rubric

/-! ## Depth -/

namespace Json

/-- The values directly inside a container. -/
def parts : Json → List Json
  | array elements => elements
  | object members => members.map Prod.snd
  | _ => []

theorem depth_array_pos (elements : List Json) : 0 < (array elements).depth := by
  rw [depth]
  omega

theorem depth_object_pos (members : List (String × Json)) : 0 < (object members).depth := by
  rw [depth]
  omega

theorem depth_lt_of_mem_parts {json part : Json} (h : part ∈ json.parts) :
    part.depth < json.depth := by
  have hall : ∀ elements : List Json, part ∈ elements → part.depth ≤ depthAll elements := by
    intro elements hmem
    induction elements with
    | nil => exact absurd hmem List.not_mem_nil
    | cons element rest ih =>
        rw [depthAll]
        rcases List.mem_cons.mp hmem with rfl | hmem
        · omega
        · have := ih hmem
          omega
  have hmembers : ∀ members : List (String × Json), part ∈ members.map Prod.snd →
      part.depth ≤ depthMembers members := by
    intro members hmem
    induction members with
    | nil => exact absurd hmem List.not_mem_nil
    | cons member rest ih =>
        obtain ⟨key, value⟩ := member
        rw [depthMembers]
        rcases List.mem_cons.mp hmem with rfl | hmem
        · omega
        · have := ih hmem
          omega
  cases json with
  | array elements =>
      have := hall elements h
      rw [depth]
      omega
  | object members =>
      have := hmembers members h
      rw [depth]
      omega
  | _ => exact absurd h List.not_mem_nil

end Json

namespace Reading

/-- Whether a value is nested neither deeper than may still be entered nor as deep as a
limit. -/
def Admits (reading : Reading) (limit : Nat) (json : Json) : Prop :=
  json.depth ≤ reading.remaining ∧ json.depth < limit

theorem Admits.mono {reading : Reading} {limit more : Nat} {json : Json}
    (h : reading.Admits limit json) (hle : limit ≤ more) : reading.Admits more json :=
  ⟨h.1, Nat.lt_of_lt_of_le h.2 hle⟩

end Reading

namespace Decoder

variable {α β : Type} {limit : Nat}

/-- A container that is admitted is entered, and its parts are admitted inside. -/
theorem exists_enter {reading : Reading} {json : Json} (h : reading.Admits (limit + 1) json)
    (hcontainer : 0 < json.depth) (inside : Reading → Except DecodeError α) :
    ∃ within : Reading, enter inside reading = inside within ∧
      ∀ part ∈ json.parts, within.Admits limit part := by
  obtain ⟨hremaining, hlimit⟩ := h
  cases hrest : reading.remaining with
  | zero => omega
  | succ rest =>
      refine ⟨{ reading with remaining := rest }, by rw [enter, hrest], ?_⟩
      intro part hpart
      have hdepth := Json.depth_lt_of_mem_parts hpart
      constructor
      · show part.depth ≤ rest
        omega
      · omega

/-- Whether a decoder answers a value for all JSON of limited depth that a layout allows. -/
def Reads (limit : Nat) (decoder : Decoder α) (layout : Layout) (value : α) : Prop :=
  ∀ reading json, layout.Represents json → reading.Admits limit json →
    decoder reading json = .ok value

theorem Reads.mono {more : Nat} {decoder : Decoder α} {layout : Layout} {value : α}
    (h : decoder.Reads more layout value) (hle : limit ≤ more) :
    decoder.Reads limit layout value :=
  fun reading json hjson hadmits => h reading json hjson (hadmits.mono hle)

/-! ## Leaves and rows -/

theorem reads_string (limit : Nat) (s : String) : string.Reads limit (.leaf (.string s)) s := by
  intro reading json hjson _
  rw [hjson.eq_of_leaf]
  rfl

theorem reads_boolean (limit : Nat) (b : Bool) : boolean.Reads limit (.leaf (.bool b)) b := by
  intro reading json hjson _
  rw [hjson.eq_of_leaf]
  rfl

theorem reads_natural (limit : Nat) (n : Nat) : natural.Reads limit (.leaf (.ofNat n)) n := by
  intro reading json hjson _
  rw [hjson.eq_of_leaf, Json.ofNat, natural, if_pos (Int.natCast_nonneg n), Int.toNat_natCast]

theorem reads_number (limit : Nat) (x : Float) : number.Reads limit (.number x) x := by
  intro reading json hjson _
  cases hjson
  rfl

theorem Reads.map {decoder : Decoder α} {layout : Layout} {value : α}
    (h : decoder.Reads limit layout value) (f : α → β) :
    (decoder.map f).Reads limit layout (f value) := by
  intro reading json hjson hadmits
  rw [Decoder.map, h reading json hjson hadmits]
  rfl

theorem mapM_eq_ok {ι : Type} {read : ι → Except DecodeError α} {items : List ι}
    {values : List α} (h : List.Forall₂ (fun value item => read item = .ok value) values items) :
    items.mapM read = .ok values := by
  induction h with
  | nil => rfl
  | cons hitem _ ih =>
      rw [List.mapM_cons, hitem, ih]
      rfl

theorem forall₂_and_right {ι κ : Type} {r : ι → κ → Prop} {p : κ → Prop} {xs : List ι}
    {ys : List κ} (h : List.Forall₂ r xs ys) (hp : ∀ y ∈ ys, p y) :
    List.Forall₂ (fun x y => r x y ∧ p y) xs ys := by
  induction h with
  | nil => exact .nil
  | cons hxy _ ih =>
      have hhead := hp _ List.mem_cons_self
      exact .cons ⟨hxy, hhead⟩ (ih fun y hy => hp y (List.mem_cons_of_mem _ hy))

theorem Reads.sequence {decoder : Decoder α} {layout : α → Layout}
    (h : ∀ value, decoder.Reads limit (layout value) value) (values : List α) :
    decoder.sequence.Reads limit (.row (values.map layout)) values := by
  intro reading json hjson hadmits
  cases hjson with
  | @row _ jsons hall =>
      obtain ⟨within, henter, hparts⟩ := exists_enter (hadmits.mono (Nat.le_succ limit))
        (Json.depth_array_pos jsons) fun inside => jsons.mapM (decoder inside)
      have hread := forall₂_and_right (List.forall₂_map_left_iff.mp hall) hparts
      rw [Decoder.sequence, henter]
      exact mapM_eq_ok (hread.imp fun value json hvalue =>
        h value within json hvalue.1 hvalue.2)

end Decoder

/-! ## Fields -/

namespace Member

/-- Whether a member stands among the entries of an object with a value that it allows, or is
left out and may be. -/
def FoundIn (member : Member) (limit : Nat) (reading : Reading)
    (entries : List (String × Json)) : Prop :=
  (Json.find? entries member.key).elim (member.presence ≠ .required) fun json =>
    member.value.Represents json ∧ reading.Admits limit json

end Member

namespace Fields

variable {α β : Type} {limit : Nat}

/-- Whether fields are read from members as a value, in an object and in a row. -/
structure Takes (limit : Nat) (fields : Fields α) (members : List Member) (value : α) :
    Prop where
  keys : fields.keys = members.map Member.key
  fromObject : ∀ reading entries, (∀ member ∈ members, member.FoundIn limit reading entries) →
    fields.fromObject reading entries = ⟨none, none, some value⟩
  fromRow : ∀ reading position row rest,
    List.Forall₂ (fun member json => member.value.Represents json ∧ reading.Admits limit json)
      members row →
    fields.fromRow reading position (row ++ rest) = .ok (value, rest)

theorem takes_pure (limit : Nat) (value : α) : Takes limit (pure value) [] value where
  keys := rfl
  fromObject _ _ _ := rfl
  fromRow _ _ row _ h := by
    cases h
    rfl

theorem exists_append_of_forall₂ {ι κ : Type} {r : ι → κ → Prop} {xs xs' : List ι}
    {ys : List κ} (h : List.Forall₂ r (xs ++ xs') ys) :
    ∃ first second, ys = first ++ second ∧ List.Forall₂ r xs first ∧
      List.Forall₂ r xs' second := by
  induction xs generalizing ys with
  | nil => exact ⟨[], ys, rfl, .nil, h⟩
  | cons x rest ih =>
      cases h with
      | cons hx hrest =>
          obtain ⟨first, second, rfl, hfirst, hsecond⟩ := ih hrest
          exact ⟨_ :: first, second, rfl, .cons hx hfirst, hsecond⟩

theorem Takes.seq {f : Fields (α → β)} {a : Fields α} {members others : List Member}
    {function : α → β} {value : α} (hf : f.Takes limit members function)
    (ha : a.Takes limit others value) :
    (f <*> a).Takes limit (members ++ others) (function value) where
  keys := by
    rw [List.map_append, ← hf.keys, ← ha.keys]
    rfl
  fromObject reading entries h := by
    have hfirst := hf.fromObject reading entries fun m hm => h m (List.mem_append_left _ hm)
    have hsecond := ha.fromObject reading entries fun m hm => h m (List.mem_append_right _ hm)
    show (f.fromObject reading entries).both (a.fromObject reading entries) = _
    rw [hfirst, hsecond]
    rfl
  fromRow reading position row rest h := by
    obtain ⟨first, second, rfl, hfirst, hsecond⟩ := exists_append_of_forall₂ h
    have hleft := hf.fromRow reading position first (second ++ rest) hfirst
    have hright := ha.fromRow reading (position + f.keys.length) second rest hsecond
    show (f.andThen a).fromRow reading position (first ++ second ++ rest) = _
    rw [andThen, List.append_assoc]
    dsimp only
    rw [hleft]
    show (a.fromRow reading _ (second ++ rest) >>= _) = _
    rw [hright]
    rfl

theorem Takes.map {a : Fields α} {members : List Member} {value : α}
    (h : a.Takes limit members value) (f : α → β) :
    (f <$> a).Takes limit members (f value) :=
  (takes_pure limit f).seq h

/-- A field reads a member of its key, if its default is the value wherever the member may be
left out. -/
theorem takes_field {key : String} {default? : Option α} {decoder : Decoder α}
    {member : Member} {value : α} (hkey : member.key = key)
    (hread : decoder.Reads limit member.value value)
    (hdefault : member.presence ≠ .required → default? = some value) :
    (field key default? decoder).Takes limit [member] value where
  keys := by
    rw [List.map_singleton, hkey]
    rfl
  fromObject reading entries h := by
    have hfound := h member List.mem_cons_self
    rw [Member.FoundIn, hkey] at hfound
    unfold field
    dsimp only
    cases hjson : Json.find? entries key with
    | none =>
        rw [hjson] at hfound
        dsimp only
        rw [hdefault hfound]
    | some json =>
        rw [hjson] at hfound
        dsimp only
        rw [hread reading json hfound.1 hfound.2]
  fromRow reading position row rest h := by
    cases h with
    | cons hjson hrest =>
        cases hrest
        show (field key default? decoder).fromRow reading position (_ :: rest) = _
        unfold field
        dsimp only
        rw [hread reading _ hjson.1 hjson.2]

theorem takes_required {decoder : Decoder α} {layout : Layout} {value : α}
    (h : decoder.Reads limit layout value) (key : String) :
    (required key decoder).Takes limit [.required key layout] value :=
  takes_field rfl h fun hpresence => absurd rfl hpresence

theorem takes_defaulted {decoder : Decoder α} {layout : Layout} {value default : α}
    {isDefault : Bool} (h : decoder.Reads limit layout value)
    (hdefault : isDefault = true → default = value) (key : String) :
    (defaulted key default decoder).Takes limit [.defaulted key isDefault layout] value := by
  refine takes_field rfl h fun hpresence => ?_
  cases isDefault with
  | false => exact absurd rfl hpresence
  | true => rw [hdefault rfl]

theorem takes_optional {decoder : Decoder α} {layout : α → Layout}
    (h : ∀ value, decoder.Reads limit (layout value) value)
    (hnull : ∀ reading value, decoder reading .null ≠ .ok value) (key : String)
    (value : Option α) :
    (optional key decoder).Takes limit [.optional key layout value] value := by
  cases value with
  | none =>
      refine takes_field rfl ?_ fun _ => rfl
      intro reading json hjson _
      rw [hjson.eq_of_leaf]
      rfl
  | some value =>
      refine takes_field rfl ?_ fun hpresence => absurd rfl hpresence
      intro reading json hjson hadmits
      have hread := h value reading json hjson hadmits
      -- Null is not the writing of a value, so it is not taken for the absence of one.
      cases json with
      | null => exact absurd hread (hnull reading value)
      | _ => exact congrArg (Except.map some) hread

/-! ## Records -/

theorem find?_eq_some {entries : List (String × Json)} {key : String} {json : Json}
    (hmem : (key, json) ∈ entries) (hunique : ∀ entry ∈ entries, entry.1 = key → entry.2 = json) :
    Json.find? entries key = some json := by
  have hsome : (entries.reverse.find? fun entry => entry.1 == key).isSome := by
    rw [List.find?_isSome]
    exact ⟨_, List.mem_reverse.mpr hmem, beq_self_eq_true key⟩
  obtain ⟨entry, hentry⟩ := Option.isSome_iff_exists.mp hsome
  have hkey : entry.1 = key := by simpa using List.find?_some hentry
  have hvalue := hunique entry (List.mem_reverse.mp (List.mem_of_find?_eq_some hentry)) hkey
  rw [Json.find?, hentry, Option.map_some, hvalue]

theorem find?_eq_none {entries : List (String × Json)} {key : String}
    (h : ∀ entry ∈ entries, entry.1 ≠ key) : Json.find? entries key = none := by
  have hnone : (entries.reverse.find? fun entry => entry.1 == key) = none := by
    rw [List.find?_eq_none]
    intro entry hentry
    simpa using h entry (List.mem_reverse.mp hentry)
  rw [Json.find?, hnone, Option.map_none]

section Objects

variable {members : List Member} {chosen extra entries : List (String × Json)}

theorem countP_key_le_one (hkeys : (members.map Member.key).Nodup)
    (hchosen : Layout.Chosen Layout.Represents members chosen)
    (hextra : ∀ entry ∈ extra, entry.1 ∉ members.map Member.key)
    (hentries : entries.Perm (chosen ++ extra)) {key : String}
    (hkey : key ∈ members.map Member.key) :
    (entries.countP fun entry => entry.1 == key) ≤ 1 := by
  have hone : (chosen.map Prod.fst).count key ≤ 1 :=
    List.nodup_iff_count_le_one.mp (hkeys.sublist hchosen.keys_sublist) key
  have hnone : (extra.countP fun entry => entry.1 == key) = 0 := by
    rw [List.countP_eq_zero]
    intro entry hentry heq
    exact hextra entry hentry (by rw [eq_of_beq heq]; exact hkey)
  rw [hentries.countP_eq, List.countP_append, hnone, Nat.add_zero]
  rw [List.count, List.countP_map] at hone
  exact hone

theorem foundIn_of_chosen {limit : Nat} {reading : Reading}
    (hkeys : (members.map Member.key).Nodup)
    (hchosen : Layout.Chosen Layout.Represents members chosen)
    (hextra : ∀ entry ∈ extra, entry.1 ∉ members.map Member.key)
    (hentries : entries.Perm (chosen ++ extra))
    (hadmits : ∀ json ∈ entries.map Prod.snd, reading.Admits limit json) {member : Member}
    (hmember : member ∈ members) : member.FoundIn limit reading entries := by
  have hkey : member.key ∈ members.map Member.key := List.mem_map_of_mem hmember
  have hnodup : (chosen.map Prod.fst).Nodup := hkeys.sublist hchosen.keys_sublist
  -- An entry of a known key is one of those chosen.
  have hknown : ∀ entry ∈ entries, entry.1 = member.key → entry ∈ chosen := by
    intro entry hentry heq
    rcases List.mem_append.mp (hentries.mem_iff.mp hentry) with hmem | hmem
    · exact hmem
    · exact absurd (heq ▸ hkey) (hextra entry hmem)
  rw [Member.FoundIn]
  rcases hchosen.cases_of_mem hkeys hmember with ⟨json, hjson, hvalue⟩ | ⟨habsent, hpresence⟩
  · have hmem : (member.key, json) ∈ entries :=
      hentries.mem_iff.mpr (List.mem_append_left _ hjson)
    have hfind : Json.find? entries member.key = some json := by
      refine find?_eq_some hmem fun entry hentry heq => ?_
      have hsame := List.inj_on_of_nodup_map hnodup (hknown entry hentry heq) hjson heq
      rw [hsame]
    rw [hfind]
    exact ⟨hvalue, hadmits json (List.mem_map_of_mem hmem)⟩
  · have hfind : Json.find? entries member.key = none := by
      refine find?_eq_none fun entry hentry heq => habsent ?_
      exact heq ▸ List.mem_map_of_mem (hknown entry hentry heq)
    rw [hfind]
    exact hpresence

variable {fields : Fields α} {value : α}

theorem Takes.inObject {reading : Reading} (h : fields.Takes limit members value)
    (hkeys : fields.keys.Nodup) (hchosen : Layout.Chosen Layout.Represents members chosen)
    (hextra : ∀ entry ∈ extra, entry.1 ∉ members.map Member.key)
    (hentries : entries.Perm (chosen ++ extra))
    (hadmits : ∀ json ∈ entries.map Prod.snd, reading.Admits limit json) :
    fields.inObject entries reading = .ok value := by
  have hnodup : (members.map Member.key).Nodup := h.keys ▸ hkeys
  have honce : (fields.keys.find? fun key =>
      decide (1 < entries.countP fun entry => entry.1 == key)) = none := by
    rw [List.find?_eq_none]
    intro key hkey
    have hle := countP_key_le_one hnodup hchosen hextra hentries (h.keys ▸ hkey)
    simpa using hle
  have hfields := h.fromObject reading entries fun member hmember =>
    foundIn_of_chosen hnodup hchosen hextra hentries hadmits hmember
  rw [Fields.inObject, honce]
  dsimp only
  rw [hfields]
  rfl

theorem Takes.inRow {reading : Reading} {row : List Json} (h : fields.Takes limit members value)
    (hrow : List.Forall₂ Layout.Represents (members.map Member.value) row)
    (hadmits : ∀ json ∈ row, reading.Admits limit json) (name : String) :
    fields.inRow name row reading = .ok value := by
  have hvalues := Decoder.forall₂_and_right (List.forall₂_map_left_iff.mp hrow) hadmits
  have hfields := h.fromRow reading 0 row [] hvalues
  rw [List.append_nil] at hfields
  rw [Fields.inRow, hfields]

end Objects

end Fields

namespace Decoder

variable {α : Type} {limit : Nat}

/-- A record is read from an object with unknown keys as well as from a row. -/
theorem Reads.record {fields : Fields α} {members : List Member} {value : α}
    (h : fields.Takes limit members value) (hkeys : fields.keys.Nodup) (name : String) :
    (record name fields).Reads limit (.object .record members) value := by
  intro reading json hjson hadmits
  have hadmits := hadmits.mono (Nat.le_succ limit)
  cases hjson with
  | @object _ _ chosen extra entries hchosen hextra hentries =>
      obtain ⟨within, henter, hparts⟩ := exists_enter hadmits
        (Json.depth_object_pos entries) (fields.inObject entries)
      rw [Decoder.record, henter]
      exact h.inObject hkeys hchosen (fun entry hmem => (hextra entry hmem).2) hentries hparts
  | @fieldRow _ row hrow =>
      obtain ⟨within, henter, hparts⟩ := exists_enter hadmits
        (Json.depth_array_pos row) (fields.inRow name row)
      rw [Decoder.record, henter]
      exact h.inRow hrow hparts name

/-! ## Choices -/

/-- A case is read through its payload, which is one container deeper. -/
theorem Reads.of_payload {cases : List (String × Payload α)} {name : String}
    {payload : Payload α} {layout : Layout} {value : α} (hcase : caseOf cases name = .ok payload)
    (h : payload.decode.Reads limit layout value) :
    (variants cases).Reads (limit + 1) (.tagged name layout) value := by
  intro reading json hjson hadmits
  obtain ⟨inner, rfl, hinner⟩ := hjson.exists_of_tagged
  obtain ⟨within, henter, hparts⟩ := exists_enter hadmits (Json.depth_object_pos _) fun inside => do
    let payload ← caseOf cases name
    payload.decode inside inner
  rw [variants, henter, hcase]
  exact h within inner hinner (hparts inner List.mem_cons_self)

theorem Reads.single {cases : List (String × Payload α)} {name : String} {decoder : Decoder α}
    {layout : Layout} {value : α} (h : decoder.Reads limit layout value)
    (hcase : caseOf cases name = .ok (.single decoder)) :
    (variants cases).Reads (limit + 1) (.tagged name layout) value :=
  .of_payload hcase fun reading json hjson hadmits => by
    rw [Payload.decode]
    exact h reading json hjson hadmits

theorem Reads.fields {cases : List (String × Payload α)} {name : String} {fields : Fields α}
    {members : List Member} {value : α} (h : fields.Takes limit members value)
    (hkeys : fields.keys.Nodup) (hcase : caseOf cases name = .ok (.fields fields)) :
    (variants cases).Reads (limit + 1) (.variant name members) value := by
  refine .of_payload hcase fun reading json hjson hadmits => ?_
  have hadmits := hadmits.mono (Nat.le_succ limit)
  cases hjson with
  | @object _ _ chosen extra entries hchosen hextra hentries =>
      obtain ⟨within, henter, hparts⟩ := exists_enter hadmits
        (Json.depth_object_pos entries) (fields.inObject entries)
      rw [Payload.decode, henter]
      exact h.inObject hkeys hchosen (fun entry hmem => (hextra entry hmem).2) hentries hparts

theorem reads_bare {cases : List (String × Payload α)} {name : String} {value : α}
    (hcase : caseOf cases name = .ok (.bare value)) :
    (variants cases).Reads limit (.leaf (.string name)) value := by
  intro reading json hjson _
  rw [hjson.eq_of_leaf, variants, hcase]
  rfl

end Decoder

end Rubric
