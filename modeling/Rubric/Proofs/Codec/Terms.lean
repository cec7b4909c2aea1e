import Rubric.Codec.TypeTerm
import Rubric.Proofs.Codec.Reads

/-!
# Layouts of names and written types

Names, with their locations, and written types are read back from every JSON that their
layouts allow. Nested types are read level by level: what the decoder of one level reads, the
decoder around it reads one container deeper.
-/

namespace Rubric

open Decoder (reads_string reads_natural)

open Fields (takes_required takes_defaulted takes_optional)

/-! ## Locations and names -/

namespace Position

def layout (p : Position) : Layout :=
  .object .record [.required "line" (.leaf (.ofNat p.line)),
    .required "column" (.leaf (.ofNat p.column)), .required "offset" (.leaf (.ofNat p.offset))]

@[simp] theorem plain_layout (p : Position) : p.layout.plain = p.encode := by
  simp [layout, encode, Layout.plain, Layout.plainMembers]

theorem reads (limit : Nat) (p : Position) : decoder.Reads limit p.layout p := by
  have hline := takes_required (reads_natural limit p.line) "line"
  have hcolumn := takes_required (reads_natural limit p.column) "column"
  have hoffset := takes_required (reads_natural limit p.offset) "offset"
  exact .record (((hline.map mk).seq hcolumn).seq hoffset) (of_decide_eq_true rfl) _

end Position

namespace Span

def layout (span : Span) : Layout :=
  .object .record [.required "start" span.start.layout, .required "end" span.stop.layout]

/-- The member for a location, which can be left out if the location is unknown. -/
def member (span : Span) : Member :=
  .defaulted "loc" (decide (unknown = span)) span.layout

@[simp] theorem plain_layout (span : Span) : span.layout.plain = span.encode := by
  simp [layout, encode, Layout.plain, Layout.plainMembers]

@[simp] theorem plainMembers_member (span : Span) (rest : List Member) :
    Layout.plainMembers (span.member :: rest) =
      ("loc", span.encode) :: Layout.plainMembers rest := by
  rw [member, Layout.plainMembers_defaulted, plain_layout]

theorem reads (limit : Nat) (span : Span) : decoder.Reads limit span.layout span := by
  have hstart := takes_required (span.start.reads limit) "start"
  have hstop := takes_required (span.stop.reads limit) "end"
  exact .record ((hstart.map mk).seq hstop) (of_decide_eq_true rfl) _

theorem takes (limit : Nat) (span : Span) : field.Takes limit [span.member] span :=
  takes_defaulted (span.reads limit) of_decide_eq_true "loc"

end Span

namespace Symbol

def layout (s : Symbol) : Layout :=
  .object .record [.required "value" (.leaf (.string s.value)),
    .optional "description" (fun text => .leaf (.string text)) s.description, s.loc.member]

@[simp] theorem plain_layout (s : Symbol) : s.layout.plain = s.encode := by
  simp [layout, encode, Layout.plain, Layout.plainMembers]

theorem reads (limit : Nat) (s : Symbol) : decoder.Reads limit s.layout s := by
  have hvalue := takes_required (reads_string limit s.value) "value"
  have hdescription := takes_optional (reads_string limit) (by simp [Decoder.string])
    "description" s.description
  exact .record (((hvalue.map mk).seq hdescription).seq (s.loc.takes limit))
    (of_decide_eq_true rfl) _

end Symbol

/-! ## Written types -/

namespace TypeTerm

mutual

def layout : TypeTerm → Layout
  | var name => .tagged "Var" (.leaf (.string name))
  | con name => .tagged "Constructor" (.leaf (.string name))
  | constraint c => .tagged "Constraint" (layoutConstraint c)
  | qualified context body =>
      .variant "Constrained" [.required "context" (.row (layoutConstraints context)),
        .required "body" body.layout]
  | arrow inputs output =>
      .variant "Function" [.required "from" (.row (layoutAll inputs)),
        .required "to" output.layout]
  | apply base args =>
      .variant "Application" [.required "base" base.layout,
        .required "args" (.row (layoutAll args))]
  | list element => .tagged "List" element.layout
  | tuple elements => .tagged "Tuple" (.row (layoutAll elements))
  | data name cases =>
      .variant "Data" [.required "name" (.leaf (.string name)),
        .required "constructors" (.row (layoutCases cases))]
  | conditional condition yes no =>
      .variant "IfThenElse" [.required "condition" condition.layout,
        .required "then" yes.layout, .required "else" no.layout]

def layoutConstraint : Constraint → Layout
  | ⟨className, params⟩ =>
      .object .record [.required "className" (.leaf (.string className)),
        .required "params" (.row (layoutAll params))]

def layoutCase : DataCase → Layout
  | ⟨name, fields⟩ =>
      .object .record [.required "name" (.leaf (.string name)),
        .required "fields" (.row (layoutAll fields))]

def layoutAll : List TypeTerm → List Layout
  | [] => []
  | term :: rest => term.layout :: layoutAll rest

def layoutConstraints : List Constraint → List Layout
  | [] => []
  | c :: rest => layoutConstraint c :: layoutConstraints rest

def layoutCases : List DataCase → List Layout
  | [] => []
  | c :: rest => layoutCase c :: layoutCases rest

end

mutual

@[simp] theorem plain_layout : (term : TypeTerm) → term.layout.plain = term.encode
  | var _ | con _ => by
      simp [layout, encode, Layout.plain]
  | constraint c => by
      simp [layout, encode, plain_layoutConstraint c]
  | qualified context body => by
      simp [layout, encode, Layout.plain, Layout.plainMembers, plain_layout body,
        plain_layoutConstraints context]
  | arrow inputs output => by
      simp [layout, encode, Layout.plain, Layout.plainMembers, plain_layout output,
        plain_layoutAll inputs]
  | apply base args => by
      simp [layout, encode, Layout.plain, Layout.plainMembers, plain_layout base,
        plain_layoutAll args]
  | list element => by
      simp [layout, encode, plain_layout element]
  | tuple elements => by
      simp [layout, encode, Layout.plain, plain_layoutAll elements]
  | data name cases => by
      simp [layout, encode, Layout.plain, Layout.plainMembers, plain_layoutCases cases]
  | conditional condition yes no => by
      simp [layout, encode, Layout.plainMembers, plain_layout condition, plain_layout yes,
        plain_layout no]

theorem plain_layoutConstraint : (c : Constraint) →
    (layoutConstraint c).plain = encodeConstraint c
  | ⟨className, params⟩ => by
      simp [layoutConstraint, encodeConstraint, Layout.plain, Layout.plainMembers,
        plain_layoutAll params]

theorem plain_layoutCase : (c : DataCase) → (layoutCase c).plain = encodeCase c
  | ⟨name, fields⟩ => by
      simp [layoutCase, encodeCase, Layout.plain, Layout.plainMembers, plain_layoutAll fields]

theorem plain_layoutAll : (terms : List TypeTerm) →
    Layout.plainAll (layoutAll terms) = encodeAll terms
  | [] => by
      rw [layoutAll, Layout.plainAll, encodeAll]
  | term :: rest => by
      rw [layoutAll, Layout.plainAll, encodeAll, plain_layout term, plain_layoutAll rest]

theorem plain_layoutConstraints : (cs : List Constraint) →
    Layout.plainAll (layoutConstraints cs) = encodeConstraints cs
  | [] => by
      rw [layoutConstraints, Layout.plainAll, encodeConstraints]
  | c :: rest => by
      rw [layoutConstraints, Layout.plainAll, encodeConstraints, plain_layoutConstraint c,
        plain_layoutConstraints rest]

theorem plain_layoutCases : (cs : List DataCase) →
    Layout.plainAll (layoutCases cs) = encodeCases cs
  | [] => by
      rw [layoutCases, Layout.plainAll, encodeCases]
  | c :: rest => by
      rw [layoutCases, Layout.plainAll, encodeCases, plain_layoutCase c, plain_layoutCases rest]

end

theorem layoutAll_eq_map (terms : List TypeTerm) : layoutAll terms = terms.map layout := by
  induction terms with
  | nil => rw [layoutAll, List.map_nil]
  | cons term rest ih => rw [layoutAll, ih, List.map_cons]

theorem layoutConstraints_eq_map (cs : List Constraint) :
    layoutConstraints cs = cs.map layoutConstraint := by
  induction cs with
  | nil => rw [layoutConstraints, List.map_nil]
  | cons c rest ih => rw [layoutConstraints, ih, List.map_cons]

theorem layoutCases_eq_map (cs : List DataCase) : layoutCases cs = cs.map layoutCase := by
  induction cs with
  | nil => rw [layoutCases, List.map_nil]
  | cons c rest ih => rw [layoutCases, ih, List.map_cons]

section Levels

variable {limit : Nat} {term : Decoder TypeTerm}

theorem reads_constraintOf (h : ∀ t : TypeTerm, term.Reads limit t.layout t) (c : Constraint) :
    (constraintOf term).Reads limit (layoutConstraint c) c := by
  obtain ⟨className, params⟩ := c
  have hname := takes_required (reads_string limit className) "className"
  have hparams := takes_required (Decoder.Reads.sequence h params) "params"
  rw [layoutConstraint, layoutAll_eq_map]
  exact .record ((hname.map Constraint.mk).seq hparams) (of_decide_eq_true rfl) _

theorem reads_caseOf (h : ∀ t : TypeTerm, term.Reads limit t.layout t) (c : DataCase) :
    (caseOf term).Reads limit (layoutCase c) c := by
  obtain ⟨name, fields⟩ := c
  have hname := takes_required (reads_string limit name) "name"
  have hfields := takes_required (Decoder.Reads.sequence h fields) "fields"
  rw [layoutCase, layoutAll_eq_map]
  exact .record ((hname.map DataCase.mk).seq hfields) (of_decide_eq_true rfl) _

theorem reads_termOf (h : ∀ t : TypeTerm, term.Reads limit t.layout t) (t : TypeTerm) :
    (termOf term).Reads (limit + 1) t.layout t := by
  cases t with
  | var name =>
      rw [layout]
      exact .single ((reads_string limit name).map var) rfl
  | con name =>
      rw [layout]
      exact .single ((reads_string limit name).map con) rfl
  | constraint c =>
      rw [layout]
      exact .single ((reads_constraintOf h c).map constraint) rfl
  | qualified context body =>
      have hcontext := takes_required
        (Decoder.Reads.sequence (reads_constraintOf h) context) "context"
      have hbody := takes_required (h body) "body"
      rw [layout, layoutConstraints_eq_map]
      exact .fields ((hcontext.map qualified).seq hbody) (of_decide_eq_true rfl) rfl
  | arrow inputs output =>
      have hinputs := takes_required (Decoder.Reads.sequence h inputs) "from"
      have houtput := takes_required (h output) "to"
      rw [layout, layoutAll_eq_map]
      exact .fields ((hinputs.map arrow).seq houtput) (of_decide_eq_true rfl) rfl
  | apply base args =>
      have hbase := takes_required (h base) "base"
      have hargs := takes_required (Decoder.Reads.sequence h args) "args"
      rw [layout, layoutAll_eq_map]
      exact .fields ((hbase.map apply).seq hargs) (of_decide_eq_true rfl) rfl
  | list element =>
      rw [layout]
      exact .single ((h element).map list) rfl
  | tuple elements =>
      rw [layout, layoutAll_eq_map]
      exact .single ((Decoder.Reads.sequence h elements).map tuple) rfl
  | data name cases =>
      have hname := takes_required (reads_string limit name) "name"
      have hcases := takes_required (Decoder.Reads.sequence (reads_caseOf h) cases) "constructors"
      rw [layout, layoutCases_eq_map]
      exact .fields ((hname.map data).seq hcases) (of_decide_eq_true rfl) rfl
  | conditional condition yes no =>
      have hcondition := takes_required (h condition) "condition"
      have hyes := takes_required (h yes) "then"
      have hno := takes_required (h no) "else"
      rw [layout]
      exact .fields (((hcondition.map conditional).seq hyes).seq hno) (of_decide_eq_true rfl) rfl

end Levels

theorem reads_decoderWithin (levels : Nat) (t : TypeTerm) :
    (decoderWithin levels).Reads levels t.layout t := by
  induction levels generalizing t with
  | zero =>
      intro reading json _ hadmits
      exact absurd hadmits.2 (Nat.not_lt_zero _)
  | succ levels ih => exact reads_termOf ih t

theorem reads (limit : Nat) (t : TypeTerm) : decoder.Reads limit t.layout t := by
  intro reading json hjson hadmits
  exact reads_decoderWithin _ t reading json hjson ⟨hadmits.1, Nat.lt_succ_of_le hadmits.1⟩

end TypeTerm

end Rubric
