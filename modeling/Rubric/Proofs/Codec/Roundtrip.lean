import Mathlib.Data.List.Perm.Basic
import Rubric.Codec.Program
import Rubric.Codec.Rule
import Rubric.Proofs.Codec.Expressions

/-!
# Reading back what was written

Programs, rules and verdicts are read back from their encodings, and from every JSON that
differs from an encoding only where the layout leaves a choice: unknown keys in records and
in the fields of cases, members with their default left out, and records as rows.
-/

namespace Rubric

open Decoder (reads_string reads_boolean)

open Fields (takes_required takes_defaulted takes_optional)

/-! ## Programs -/

namespace Guard

def layout (g : Guard) : Layout :=
  .object .record [.required "condition" g.condition.layout, .required "body" g.body.layout,
    .required "return" g.result.layout]

@[simp] theorem plain_layout (g : Guard) : g.layout.plain = g.encode := by
  simp [layout, encode, Layout.plain, Layout.plainMembers]

theorem reads (limit : Nat) (g : Guard) : decoder.Reads limit g.layout g := by
  have hcondition := takes_required (g.condition.reads limit) "condition"
  have hbody := takes_required (g.body.reads limit) "body"
  have hresult := takes_required (g.result.reads limit) "return"
  exact .record (((hcondition.map mk).seq hbody).seq hresult) (of_decide_eq_true rfl) _

end Guard

namespace ClauseBody

def layout : ClauseBody → Layout
  | unguarded e => .tagged "Unguarded" e.layout
  | guarded guards => .tagged "Guarded" (.row (guards.map Guard.layout))

@[simp] theorem plain_layout (body : ClauseBody) : body.layout.plain = body.encode := by
  cases body <;>
    simp [layout, encode, Layout.plain, Layout.plainAll_eq_map, Function.comp_def]

theorem reads (limit : Nat) (body : ClauseBody) : decoder.Reads limit body.layout body := by
  have hcase : decoder.Reads (limit + 1) body.layout body := by
    cases body with
    | unguarded e => exact .single ((e.reads limit).map unguarded) rfl
    | guarded guards =>
        exact .single ((Decoder.Reads.sequence (Guard.reads limit) guards).map guarded) rfl
  exact hcase.mono (Nat.le_succ limit)

end ClauseBody

namespace Clause

def layout (c : Clause) : Layout :=
  .object .record [.required "parameters" (.row (c.parameters.map Pattern.layout)),
    .required "body" c.body.layout, .required "return" c.result.layout,
    .defaulted "attributes" c.attributes.isEmpty
      (.row (c.attributes.map fun text => .leaf (.string text)))]

@[simp] theorem plain_layout (c : Clause) : c.layout.plain = c.encode := by
  simp [layout, encode, Layout.plain, Layout.plainMembers, Layout.plainAll_eq_map,
    Function.comp_def]

theorem reads (limit : Nat) (c : Clause) : decoder.Reads limit c.layout c := by
  have hparameters := takes_required
    (Decoder.Reads.sequence (Pattern.reads limit) c.parameters) "parameters"
  have hbody := takes_required (c.body.reads limit) "body"
  have hresult := takes_required (c.result.reads limit) "return"
  have hdefault : c.attributes.isEmpty = true → [] = c.attributes := by
    intro h
    exact (List.isEmpty_iff.mp h).symm
  have hattributes := takes_defaulted
    (Decoder.Reads.sequence (reads_string limit) c.attributes) hdefault "attributes"
  exact .record ((((hparameters.map mk).seq hbody).seq hresult).seq hattributes)
    (of_decide_eq_true rfl) _

end Clause

namespace FunctionGroup

def layout (g : FunctionGroup) : Layout :=
  .object .record [.required "name" g.name.layout,
    .required "contents" (.row (g.clauses.map Clause.layout))]

@[simp] theorem plain_layout (g : FunctionGroup) : g.layout.plain = g.encode := by
  simp [layout, encode, Layout.plain, Layout.plainMembers, Layout.plainAll_eq_map]

theorem reads (limit : Nat) (g : FunctionGroup) : decoder.Reads limit g.layout g := by
  have hname := takes_required (g.name.reads limit) "name"
  have hclauses := takes_required
    (Decoder.Reads.sequence (Clause.reads limit) g.clauses) "contents"
  exact .record ((hname.map mk).seq hclauses) (of_decide_eq_true rfl) _

end FunctionGroup

namespace Signature

def layout (s : Signature) : Layout :=
  .object .record [.required "name" s.name.layout,
    .defaulted "constraints" s.constraints.isEmpty
      (.row (s.constraints.map TypeTerm.layoutConstraint)),
    .required "inputTypes" (.row (s.inputs.map TypeTerm.layout)),
    .required "returnType" s.output.layout]

@[simp] theorem plain_layout (s : Signature) : s.layout.plain = s.encode := by
  simp [layout, encode, Layout.plain, Layout.plainMembers, Layout.plainAll_eq_map,
    TypeTerm.plain_layoutConstraint]

theorem reads (limit : Nat) (s : Signature) : decoder.Reads limit s.layout s := by
  have hname := takes_required (s.name.reads limit) "name"
  have hdefault : s.constraints.isEmpty = true → [] = s.constraints := by
    intro h
    exact (List.isEmpty_iff.mp h).symm
  have hconstraint := TypeTerm.reads_constraintOf (TypeTerm.reads limit)
  have hconstraints := takes_defaulted
    (Decoder.Reads.sequence hconstraint s.constraints) hdefault "constraints"
  have hinputs := takes_required
    (Decoder.Reads.sequence (TypeTerm.reads limit) s.inputs) "inputTypes"
  have houtput := takes_required (s.output.reads limit) "returnType"
  exact .record ((((hname.map mk).seq hconstraints).seq hinputs).seq houtput)
    (of_decide_eq_true rfl) _

end Signature

namespace TypeAlias

def layout (a : TypeAlias) : Layout :=
  .object .record [.required "name" a.name.layout, .required "value" a.value.layout]

@[simp] theorem plain_layout (a : TypeAlias) : a.layout.plain = a.encode := by
  simp [layout, encode, Layout.plain, Layout.plainMembers]

theorem reads (limit : Nat) (a : TypeAlias) : decoder.Reads limit a.layout a := by
  have hname := takes_required (a.name.reads limit) "name"
  have hvalue := takes_required (a.value.reads limit) "value"
  exact .record ((hname.map mk).seq hvalue) (of_decide_eq_true rfl) _

end TypeAlias

namespace Field

def layout (f : Field) : Layout :=
  .object .record [.optional "name" Symbol.layout f.name, .required "value" f.value.layout]

@[simp] theorem plain_layout (f : Field) : f.layout.plain = f.encode := by
  simp [layout, encode, Layout.plain, Layout.plainMembers]

theorem reads (limit : Nat) (f : Field) : decoder.Reads limit f.layout f := by
  have hname := takes_optional (Symbol.reads limit) (fun _ _ h => nomatch h) "name" f.name
  have hvalue := takes_required (f.value.reads limit) "value"
  exact .record ((hname.map mk).seq hvalue) (of_decide_eq_true rfl) _

end Field

namespace Constructor

def layout (c : Constructor) : Layout :=
  .object .record [.required "name" (.leaf (.string c.name)),
    .required "fields" (.row (c.fields.map Field.layout))]

@[simp] theorem plain_layout (c : Constructor) : c.layout.plain = c.encode := by
  simp [layout, encode, Layout.plain, Layout.plainMembers, Layout.plainAll_eq_map]

theorem reads (limit : Nat) (c : Constructor) : decoder.Reads limit c.layout c := by
  have hname := takes_required (reads_string limit c.name) "name"
  have hfields := takes_required (Decoder.Reads.sequence (Field.reads limit) c.fields) "fields"
  exact .record ((hname.map mk).seq hfields) (of_decide_eq_true rfl) _

end Constructor

namespace Record

def layout (r : Record) : Layout :=
  .object .record [.required "name" r.name.layout,
    .required "contents" (.row (r.constructors.map Constructor.layout))]

@[simp] theorem plain_layout (r : Record) : r.layout.plain = r.encode := by
  simp [layout, encode, Layout.plain, Layout.plainMembers, Layout.plainAll_eq_map]

theorem reads (limit : Nat) (r : Record) : decoder.Reads limit r.layout r := by
  have hname := takes_required (r.name.reads limit) "name"
  have hconstructors := takes_required
    (Decoder.Reads.sequence (Constructor.reads limit) r.constructors) "contents"
  exact .record ((hname.map mk).seq hconstructors) (of_decide_eq_true rfl) _

end Record

namespace Declaration

def layout : Declaration → Layout
  | typeAlias a => .tagged "TypeAlias" a.layout
  | signature s => .tagged "TypeSignature" s.layout
  | function g => .tagged "Function" g.layout
  | record r => .tagged "Record" r.layout

@[simp] theorem plain_layout (d : Declaration) : d.layout.plain = d.encode := by
  cases d <;> simp [layout, encode]

theorem reads (limit : Nat) (d : Declaration) : decoder.Reads limit d.layout d := by
  have hcase : decoder.Reads (limit + 1) d.layout d := by
    cases d with
    | typeAlias a => exact .single ((a.reads limit).map typeAlias) rfl
    | signature s => exact .single ((s.reads limit).map signature) rfl
    | function g => exact .single ((g.reads limit).map function) rfl
    | record r => exact .single ((r.reads limit).map record) rfl
  exact hcase.mono (Nat.le_succ limit)

end Declaration

namespace Program

def layout (p : Program) : Layout :=
  .object .record [.required "declarations" (.row (p.declarations.map Declaration.layout))]

@[simp] theorem plain_layout (p : Program) : p.layout.plain = p.encode := by
  simp [layout, encode, Layout.plain, Layout.plainMembers, Layout.plainAll_eq_map]

theorem reads (limit : Nat) (p : Program) : decoder.Reads limit p.layout p := by
  have hdeclarations := takes_required
    (Decoder.Reads.sequence (Declaration.reads limit) p.declarations) "declarations"
  exact .record (hdeclarations.map mk) (of_decide_eq_true rfl) _

end Program

/-! ## Arguments -/

namespace ArgValue

def layout : ArgValue → Layout
  | boolean value => .leaf (.bool value)
  | number value => .number value
  | string value => .leaf (.string value)

@[simp] theorem plain_layout (value : ArgValue) : value.layout.plain = value.encode := by
  cases value <;> simp [layout, encode, Layout.plain]

theorem decode_eq {value : ArgValue} {json : Json} (h : value.layout.Represents json)
    (reading : Reading) : decoder reading json = .ok value := by
  cases value with
  | boolean | string =>
      rw [h.eq_of_leaf]
      rfl
  | number =>
      cases h
      rfl

end ArgValue

theorem Keyed.put_perm {α : Type} {key : String} {entries : List (String × α)}
    (h : key ∉ entries.map Prod.fst) (value : α) :
    (put key value entries).Perm ((key, value) :: entries) := by
  induction entries with
  | nil => exact .refl _
  | cons entry rest ih =>
      obtain ⟨hne, hrest⟩ := not_or.mp (mt List.mem_cons.mpr h)
      rw [put]
      by_cases hlt : key < entry.1
      · rw [if_pos hlt]
      · rw [if_neg hlt, if_neg hne]
        exact ((ih hrest).cons entry).trans (.swap _ _ _)

namespace Arguments

theorem nodup_keys (args : Arguments) : (args.entries.map Prod.fst).Nodup := by
  refine List.pairwise_map.mpr (args.sorted.imp ?_)
  intro a b hlt heq
  exact String.lt_irrefl _ (heq ▸ hlt)

theorem entries_foldl_perm (entries : List (String × ArgValue)) (args : Arguments)
    (h : ((entries ++ args.entries).map Prod.fst).Nodup) :
    (entries.foldl (fun args entry => args.set entry.1 entry.2) args).entries.Perm
      (entries ++ args.entries) := by
  induction entries generalizing args with
  | nil => exact .refl _
  | cons entry rest ih =>
      have hfresh : entry.1 ∉ (rest ++ args.entries).map Prod.fst := (List.nodup_cons.mp h).1
      have hkey : entry.1 ∉ args.entries.map Prod.fst := by
        intro hmem
        rw [List.map_append] at hfresh
        exact hfresh (List.mem_append_right _ hmem)
      have hset : (args.set entry.1 entry.2).entries.Perm (entry :: args.entries) :=
        Keyed.put_perm hkey entry.2
      have hmoved : (rest ++ (args.set entry.1 entry.2).entries).Perm
          (entry :: rest ++ args.entries) :=
        (hset.append_left rest).trans List.perm_middle
      exact (ih _ ((hmoved.map Prod.fst).nodup_iff.mpr h)).trans hmoved

/-- The order in which arguments are given does not matter. -/
theorem ofList_eq_of_perm {entries : List (String × ArgValue)} {args : Arguments}
    (h : entries.Perm args.entries) : ofList entries = args := by
  have hnodup : ((entries ++ empty.entries).map Prod.fst).Nodup := by
    rw [show entries ++ empty.entries = entries from List.append_nil _]
    exact (h.map Prod.fst).nodup_iff.mpr args.nodup_keys
  have hperm := entries_foldl_perm entries empty hnodup
  rw [show entries ++ empty.entries = entries from List.append_nil _] at hperm
  have hentries : (ofList entries).entries = args.entries := by
    refine List.Perm.eq_of_pairwise ?_ (ofList entries).sorted args.sorted (hperm.trans h)
    intro a b _ _ hab hba
    exact absurd (String.lt_trans hab hba) (String.lt_irrefl _)
  cases hargs : ofList entries
  rw [hargs] at hentries
  cases args
  cases hentries
  rfl

def layout (args : Arguments) : Layout :=
  .object .closed (args.entries.map fun entry => .required entry.1 entry.2.layout)

@[simp] theorem plain_layout (args : Arguments) : args.layout.plain = args.encode := by
  have hmembers : ∀ entries : List (String × ArgValue),
      Layout.plainMembers (entries.map fun entry => .required entry.1 entry.2.layout) =
        entries.map fun entry => (entry.1, entry.2.encode) := by
    intro entries
    induction entries with
    | nil => rw [List.map_nil, Layout.plainMembers, List.map_nil]
    | cons entry rest ih => simp [ih]
  rw [layout, encode, Layout.plain, hmembers]

theorem decoded_of_chosen {entries : List (String × ArgValue)} {chosen : List (String × Json)}
    (h : Layout.Chosen Layout.Represents
      (entries.map fun entry => .required entry.1 entry.2.layout) chosen)
    (reading : Reading) :
    List.Forall₂ (fun member entry =>
      ((ArgValue.decoder reading member.2).map fun value => (member.1, value)) = .ok entry)
      chosen entries := by
  induction entries generalizing chosen with
  | nil =>
      cases h
      exact .nil
  | cons entry rest ih =>
      cases h with
      | given hvalue hrest =>
          refine .cons ?_ (ih hrest)
          rw [ArgValue.decode_eq hvalue reading]
          rfl
      | leftOut hpresence _ => exact absurd rfl hpresence

theorem reads (limit : Nat) (args : Arguments) : decoder.Reads limit args.layout args := by
  intro reading json hjson hadmits
  obtain ⟨chosen, entries, rfl, hchosen, hentries⟩ := hjson.exists_of_closed
  obtain ⟨within, henter, -⟩ := Decoder.exists_enter (hadmits.mono (Nat.le_succ limit))
    (Json.depth_object_pos entries) fun inside => entries.mapM fun member =>
      (ArgValue.decoder inside member.2).map fun value => (member.1, value)
  obtain ⟨decoded, hdecoded, hperm⟩ :=
    List.perm_comp_forall₂ hentries (decoded_of_chosen hchosen within)
  have hmembers : (Decoder.members ArgValue.decoder) reading (.object entries) = .ok decoded :=
    Eq.trans henter (Decoder.mapM_eq_ok hdecoded.flip)
  rw [decoder, Decoder.map, hmembers]
  exact congrArg Except.ok (ofList_eq_of_perm hperm)

end Arguments

/-! ## Rules and verdicts -/

namespace Rule

def layout (rule : Rule) : Layout :=
  .object .record [.required "inspection" (.leaf (.string rule.inspection)),
    .defaulted "args" rule.args.isEmpty rule.args.layout,
    .required "expected" (.leaf (.bool rule.expected))]

@[simp] theorem plain_layout (rule : Rule) : rule.layout.plain = rule.encode := by
  simp [layout, encode, Layout.plain, Layout.plainMembers]

theorem reads (limit : Nat) (rule : Rule) : decoder.Reads limit rule.layout rule := by
  have hinspection := takes_required (reads_string limit rule.inspection) "inspection"
  have hdefault : rule.args.isEmpty = true → Arguments.empty = rule.args := by
    intro h
    have hentries : [].Perm rule.args.entries := by rw [List.isEmpty_iff.mp h]
    exact Arguments.ofList_eq_of_perm hentries
  have hargs := takes_defaulted (rule.args.reads limit) hdefault "args"
  have hexpected := takes_required (reads_boolean limit rule.expected) "expected"
  exact .record (((hinspection.map mk).seq hargs).seq hexpected) (of_decide_eq_true rfl) _

example : decoder.ofJson (.object [("why", .null), ("expected", .bool true),
    ("inspection", .string "HasBinding")]) = .ok ⟨"HasBinding", {}, true⟩ := rfl

example : decoder.ofJson (.array [.string "HasBinding", .object [("name", .string "f")],
    .bool true]) = .ok ⟨"HasBinding", .named "f", true⟩ := rfl

end Rule

namespace Verdict

def layout (verdict : Verdict) : Layout :=
  .object .record [.required "rule" verdict.rule.layout,
    .required "passed" (.leaf (.bool verdict.passed)),
    .optional "actual" (fun answer => .leaf (.bool answer)) verdict.actual,
    .optional "error" (fun text => .leaf (.string text)) verdict.error]

@[simp] theorem plain_layout (verdict : Verdict) : verdict.layout.plain = verdict.encode := by
  simp [layout, encode, Layout.plain, Layout.plainMembers]

theorem reads (limit : Nat) (verdict : Verdict) :
    decoder.Reads limit verdict.layout verdict := by
  have hrule := takes_required (verdict.rule.reads limit) "rule"
  have hpassed := takes_required (reads_boolean limit verdict.passed) "passed"
  have hactual := takes_optional (reads_boolean limit) (fun _ _ h => nomatch h) "actual"
    verdict.actual
  have herror := takes_optional (reads_string limit) (fun _ _ h => nomatch h) "error"
    verdict.error
  exact .record ((((hrule.map mk).seq hpassed).seq hactual).seq herror)
    (of_decide_eq_true rfl) _

end Verdict

/-! ## Whole values -/

/-- Whether values are read back from all JSON that their layouts allow, the encoding first of
all. -/
structure ReadsBack {α : Type} (encode : α → Json) (layout : α → Layout)
    (decoder : Decoder α) : Prop where
  plain : ∀ value, (layout value).plain = encode value
  represents : ∀ value json, (layout value).Represents json → decoder.ofJson json = .ok value
  encoded : ∀ value, (layout value).Finite →
    (layout value).Represents (encode value) ∧ decoder.ofJson (encode value) = .ok value

theorem ReadsBack.of_reads {α : Type} {encode : α → Json} {layout : α → Layout}
    {decoder : Decoder α} (hplain : ∀ value, (layout value).plain = encode value)
    (hreads : ∀ limit value, decoder.Reads limit (layout value) value) :
    ReadsBack encode layout decoder := by
  have hjson : ∀ value json, (layout value).Represents json →
      decoder.ofJson json = .ok value := by
    intro value json h
    exact hreads (json.depth + 1) value _ json h ⟨Nat.le_refl _, Nat.lt_succ_self _⟩
  refine ⟨hplain, hjson, fun value hfinite => ?_⟩
  have hencoded := (layout value).represents_plain hfinite
  rw [hplain value] at hencoded
  exact ⟨hencoded, hjson value _ hencoded⟩

/-- The layout of several rules. -/
def Rule.layoutAll (rules : List Rule) : Layout :=
  .row (rules.map layout)

/-- Every kind of value is read back from its encoding, and from what becomes of the encoding
when unknown keys are added, defaults are left out and records are written as rows. -/
theorem decoders_read_back :
    ReadsBack Program.encode Program.layout Program.decoder ∧
    ReadsBack Declaration.encode Declaration.layout Declaration.decoder ∧
    ReadsBack Clause.encode Clause.layout Clause.decoder ∧
    ReadsBack Expression.encode Expression.layout Expression.decoder ∧
    ReadsBack Primitive.encode Primitive.layout Primitive.decoder ∧
    ReadsBack Operation.encode Operation.layout Operation.decoder ∧
    ReadsBack Pattern.encode Pattern.layout Pattern.decoder ∧
    ReadsBack TypeTerm.encode TypeTerm.layout TypeTerm.decoder ∧
    ReadsBack Symbol.encode Symbol.layout Symbol.decoder ∧
    ReadsBack Span.encode Span.layout Span.decoder ∧
    ReadsBack (fun rules => .array (rules.map Rule.encode)) Rule.layoutAll
      Rule.decoder.sequence ∧
    ReadsBack Verdict.encode Verdict.layout Verdict.decoder := by
  have hrules : ∀ rules : List Rule,
      (Rule.layoutAll rules).plain = .array (rules.map Rule.encode) := by
    intro rules
    simp [Rule.layoutAll, Layout.plain, Layout.plainAll_eq_map]
  exact ⟨.of_reads Program.plain_layout Program.reads,
    .of_reads Declaration.plain_layout Declaration.reads,
    .of_reads Clause.plain_layout Clause.reads,
    .of_reads Expression.plain_layout Expression.reads,
    .of_reads Primitive.plain_layout Primitive.reads,
    .of_reads Operation.plain_layout Operation.reads,
    .of_reads Pattern.plain_layout Pattern.reads,
    .of_reads TypeTerm.plain_layout TypeTerm.reads,
    .of_reads Symbol.plain_layout Symbol.reads,
    .of_reads Span.plain_layout Span.reads,
    .of_reads hrules fun limit => Decoder.Reads.sequence (Rule.reads limit),
    .of_reads Verdict.plain_layout Verdict.reads⟩

end Rubric
