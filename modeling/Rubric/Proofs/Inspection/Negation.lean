import Rubric.Inspection.Grader
import Rubric.Proofs.Inspection.Expectations

/-!
# Negated expectations are graded oppositely

An expectation and its negation become rules that differ only in the answer they expect. A new
grader knows the built-in inspections under their names, and these always have an answer. So
one of the two rules passes when the inspection is a built-in one or asks for the use of a
name, and otherwise the inspection is unknown to both. Every verdict depends on its own rule
only.
-/

namespace Rubric

namespace Grader

/-! ## The inspections of a new grader -/

theorem get?_standard (builtin : Builtin) :
    standard.inspections.get? builtin.text = some (ofBuiltin builtin) := by
  cases builtin <;> rfl

theorem get?_standard_eq_none {name : String} (h : ∀ builtin : Builtin, builtin.text ≠ name) :
    standard.inspections.get? name = none := by
  have hkeys : ∀ (builtins : List Builtin) (table : Table String Inspection),
      table.get? name = none →
      (builtins.foldl (fun table builtin => table.insert builtin.text (ofBuiltin builtin))
        table).get? name = none := by
    intro builtins
    induction builtins with
    | nil => exact fun _ htable => htable
    | cons builtin rest ih =>
        intro table htable
        refine ih _ ?_
        rw [Table.get?_insert, if_neg (h builtin), htable]
  have hempty : (Table.empty : Table String Inspection).get? name = none := rfl
  simpa only [standard, Table.ofList, List.foldl_map] using hkeys Builtin.all .empty hempty

variable (program : Program) {rule : Rule}

theorem grade_of_builtin {builtin : Builtin} (h : builtin.text = rule.inspection) :
    standard.grade program rule =
      { rule, passed := builtin.evaluate program rule.args == rule.expected,
        actual := some (builtin.evaluate program rule.args) } := by
  unfold grade
  rw [← h, get?_standard]
  rfl

theorem grade_of_unknown (h : ∀ builtin : Builtin, builtin.text ≠ rule.inspection) :
    standard.grade program rule = { rule, passed := false, error := some unknownInspection } := by
  unfold grade
  rw [get?_standard_eq_none h]

end Grader

namespace Expectation

/-! ## An expectation and its negation -/

section Rules

variable (inspection binding : String)

theorem toRule_of_plain (h : ∀ rest, inspection ≠ "Not:" ++ rest) :
    toRule inspection binding = positive inspection binding true := by
  have hplain : after? negation inspection = none := after?_eq_none.mpr h
  rw [toRule, hplain]

theorem toRule_negated :
    toRule ("Not:" ++ inspection) binding = positive inspection binding false := by
  have hnegated : after? negation ("Not:" ++ inspection) = some inspection :=
    after?_eq_some.mpr rfl
  rw [toRule, hnegated]

/-- What is asked does not depend on the answer that is expected. -/
theorem positive_eq (expected : Bool) :
    positive inspection binding expected =
      { positive inspection binding true with expected } := by
  unfold positive
  cases after? usage inspection <;> rfl

/-- A new grader can answer the inspection of an expectation without a negation: it is a
built-in one or asks for the use of a name. -/
def Known : Prop :=
  (∃ builtin : Builtin, builtin.text = inspection) ∨ ∃ used, inspection = "Uses:" ++ used

/-- Taking off the mark makes no inspection known or unknown. -/
theorem known_iff (expected : Bool) :
    Known inspection ↔
      ∃ builtin : Builtin, builtin.text = (positive inspection binding expected).inspection := by
  unfold positive
  cases hused : after? usage inspection with
  | some used =>
      have hinspection : inspection = "Uses:" ++ used := after?_eq_some.mp hused
      exact ⟨fun _ => ⟨.uses, rfl⟩, fun _ => .inr ⟨used, hinspection⟩⟩
  | none =>
      have hother : ∀ used, inspection ≠ "Uses:" ++ used := after?_eq_none.mp hused
      constructor
      · rintro (hbuiltin | ⟨used, hinspection⟩)
        · exact hbuiltin
        · exact (hother used hinspection).elim
      · exact .inl

end Rules

/-! ## Documents and their verdicts -/

/-- The entry for an inspection and a binding. -/
def entry (inspection binding : String) : Json :=
  .object [("inspection", .string inspection), ("binding", .string binding)]

/-- The document with an entry for each inspection and binding. -/
def document (pairs : List (String × String)) : Json :=
  .object [("expectations", .array (pairs.map fun pair => entry pair.1 pair.2))]

/-- The verdicts of a new grader on a document. -/
def verdicts (program : Program) (pairs : List (String × String)) :
    Except ExpectationError (List Verdict) :=
  (ofDocument (document pairs)).map (Grader.standard.gradeAll program)

theorem ofDocument_document (pairs : List (String × String)) :
    ofDocument (document pairs) = .ok (pairs.map fun pair => toRule pair.1 pair.2) := by
  refine ofDocument_eq_ok.mpr ⟨_, rfl, ?_⟩
  rw [List.forall₂_map_left_iff, List.forall₂_map_right_iff, List.forall₂_same]
  intro pair _
  exact ⟨pair.1, pair.2, ⟨rfl, rfl⟩, rfl, expectation?_toRule pair.1 pair.2⟩

theorem verdicts_eq (program : Program) (pairs : List (String × String)) :
    verdicts program pairs =
      .ok (pairs.map fun pair => Grader.standard.grade program (toRule pair.1 pair.2)) := by
  rw [verdicts, ofDocument_document, Except.map, Grader.gradeAll, List.map_map]
  rfl

/-! ## Verdicts on what is known and unknown -/

section Verdicts

variable (program : Program) {inspection : String} (binding : String)

/-- The answer to a known inspection is the same whichever one is expected. -/
theorem grade_of_known (h : Known inspection) :
    ∃ actual, ∀ expected, Grader.standard.grade program (positive inspection binding expected) =
      { rule := positive inspection binding expected, passed := actual == expected,
        actual := some actual } := by
  obtain ⟨builtin, hbuiltin⟩ := (known_iff inspection binding true).mp h
  refine ⟨builtin.evaluate program (positive inspection binding true).args, fun expected => ?_⟩
  rw [positive_eq inspection binding expected]
  exact Grader.grade_of_builtin program hbuiltin

theorem grade_of_not_known (h : ¬ Known inspection) (expected : Bool) :
    Grader.standard.grade program (positive inspection binding expected) =
      { rule := positive inspection binding expected, passed := false,
        error := some "Unknown inspection" } := by
  rw [known_iff inspection binding expected] at h
  exact Grader.grade_of_unknown program (not_exists.mp h)

end Verdicts

/-- An expectation without a negation and the negated one. If a new grader knows the inspection,
both verdicts have the same answer and no error, and exactly one passes. Otherwise neither passes,
and both say that the inspection is unknown. In a document with any expectations, each verdict is
the one on its expectation alone. -/
theorem negation_turns_verdict (program : Program) (inspection binding : String)
    (hplain : ∀ rest, inspection ≠ "Not:" ++ rest) :
    (∃ verdict turned, verdicts program [(inspection, binding)] = .ok [verdict] ∧
      verdicts program [("Not:" ++ inspection, binding)] = .ok [turned] ∧
      (Known inspection →
        (∃ actual, verdict.actual = some actual ∧ turned.actual = some actual) ∧
        verdict.error = none ∧ turned.error = none ∧ turned.passed = !verdict.passed) ∧
      (¬ Known inspection →
        verdict.passed = false ∧ turned.passed = false ∧
        verdict.error = some "Unknown inspection" ∧
        turned.error = some "Unknown inspection")) ∧
    ∀ pairs, ∃ all, verdicts program pairs = .ok all ∧
      List.Forall₂ (fun pair verdict => verdicts program [pair] = .ok [verdict]) pairs all := by
  have hverdict := verdicts_eq program [(inspection, binding)]
  have hturned := verdicts_eq program [("Not:" ++ inspection, binding)]
  simp only [List.map_singleton, toRule_of_plain inspection binding hplain, toRule_negated]
    at hverdict hturned
  refine ⟨⟨_, _, hverdict, hturned, fun hknown => ?_, fun hunknown => ?_⟩, fun pairs => ?_⟩
  · obtain ⟨actual, hgrade⟩ := grade_of_known program binding hknown
    rw [hgrade, hgrade]
    refine ⟨⟨actual, rfl, rfl⟩, rfl, rfl, ?_⟩
    cases actual <;> rfl
  · rw [grade_of_not_known program binding hunknown, grade_of_not_known program binding hunknown]
    exact ⟨rfl, rfl, rfl, rfl⟩
  · refine ⟨_, verdicts_eq program pairs, ?_⟩
    rw [List.forall₂_map_right_iff, List.forall₂_same]
    exact fun pair _ => verdicts_eq program [pair]

/-- A program whose function `negate` has a clause for each truth value. -/
def twoClauses : Program :=
  let clause (value : Bool) : Clause :=
    { parameters := [.literal (.boolean value {})]
      body := .unguarded (.primitive (.boolean (!value) {}))
      result := .unguarded (.primitive (.boolean (!value) {})) }
  ⟨[.function ⟨⟨"negate", none, {}⟩, [clause true, clause false]⟩]⟩

/-- The function with two clauses matches patterns, so the expectation that it does not fails. -/
theorem negation_turns_verdict_twoClauses :
    (∀ rest, "HasPatternMathing" ≠ "Not:" ++ rest) ∧ Known "HasPatternMathing" ∧
    ∃ verdict turned, verdicts twoClauses [("HasPatternMathing", "negate")] = .ok [verdict] ∧
      verdicts twoClauses [("Not:HasPatternMathing", "negate")] = .ok [turned] ∧
      verdict.passed = true ∧ turned.passed = false ∧ turned.actual = some true := by
  have hplain : ∀ rest, "HasPatternMathing" ≠ "Not:" ++ rest :=
    after?_eq_none.mp (by decide +kernel)
  have hknown : Known "HasPatternMathing" := .inl ⟨.hasPatternMatching, rfl⟩
  obtain ⟨⟨verdict, turned, hverdict, hturned, hpair, -⟩, -⟩ :=
    negation_turns_verdict twoClauses "HasPatternMathing" "negate" hplain
  obtain ⟨⟨actual, hactual, hsame⟩, -, -, hopposite⟩ := hpair hknown
  have hfirst : verdict =
      Grader.standard.grade twoClauses (toRule "HasPatternMathing" "negate") := by
    simpa [verdicts_eq] using hverdict.symm
  have hpassed : verdict.passed = true := by rw [hfirst]; decide +kernel
  have htrue : verdict.actual = some true := by rw [hfirst]; decide +kernel
  refine ⟨hplain, hknown, verdict, turned, hverdict, hturned, hpassed, ?_, ?_⟩
  · rw [hopposite, hpassed]; rfl
  · rw [hsame, ← hactual, htrue]

end Expectation

end Rubric
