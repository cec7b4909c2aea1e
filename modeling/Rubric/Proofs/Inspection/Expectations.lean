import Mathlib.Data.List.Forall2
import Rubric.Inspection.Expectation

/-!
# Expectations are read all or nothing

A document is read entry by entry, and the first entry without a text for its inspection or
its binding refuses the whole document. A rule loses nothing of the entry that it was read
from: `Rule.expectation?` writes the two texts again. Both marks are taken off at most once
and in a fixed order, so what is left may begin with a mark without being confused with one.
-/

namespace Rubric

namespace Rule

/-- The inspection of a rule as an expectation writes it, before any negation. -/
def stem (rule : Rule) : String :=
  match rule.args.usage? with
  | some used => "Uses:" ++ used
  | none => rule.inspection

/-- The inspection and the binding that an expectation for a rule has. -/
def expectation? (rule : Rule) : Option (String × String) :=
  rule.args.name?.map fun binding =>
    (if rule.expected then rule.stem else "Not:" ++ rule.stem, binding)

end Rule

namespace Json

theorem string?_eq_some {value : Json} {text : String} :
    value.string? = some text ↔ value = .string text := by
  cases value <;> simp [string?]

theorem array?_eq_some {value : Json} {elements : List Json} :
    value.array? = some elements ↔ value = .array elements := by
  cases value <;> simp [array?]

end Json

namespace Arguments

@[simp] theorem name?_named (binding : String) : (named binding).name? = some binding := by
  simp [name?, string?, named, ArgValue.string?]

@[simp] theorem usage?_named (binding : String) : (named binding).usage? = none := by
  have hempty : empty.get? "usage" = none := rfl
  simp [usage?, string?, named, hempty]

@[simp] theorem name?_set_usage (args : Arguments) (value : ArgValue) :
    (args.set "usage" value).name? = args.name? := by
  simp [name?, string?]

@[simp] theorem usage?_set_usage (args : Arguments) (used : String) :
    (args.set "usage" (.string used)).usage? = some used := by
  simp [usage?, string?, ArgValue.string?]

end Arguments

namespace Expectation

/-! ## Marks -/

theorem after?_eq_some {beginning text rest : String} :
    after? beginning text = some rest ↔ text = beginning ++ rest := by
  have hlength : beginning.length = beginning.toList.length := String.length_toList.symm
  unfold after?
  rw [hlength, ← @String.toList_inj text, String.toList_append]
  split
  · next hbegins =>
      obtain ⟨tail, htail⟩ := List.isPrefixOf_iff_prefix.mp hbegins
      rw [← htail, List.drop_left, Option.some.injEq, List.append_cancel_left_eq,
        ← String.toList_inj, String.toList_ofList]
  · next hother =>
      refine ⟨fun h => (by cases h), fun h => (hother ?_).elim⟩
      exact List.isPrefixOf_iff_prefix.mpr ⟨rest.toList, h.symm⟩

theorem after?_eq_none {beginning text : String} :
    after? beginning text = none ↔ ∀ rest, text ≠ beginning ++ rest := by
  rw [Option.eq_none_iff_forall_not_mem]
  exact forall_congr' fun rest => not_congr after?_eq_some

/-! ## Rules and back -/

section Positive

variable (inspection binding : String) (expected : Bool)

@[simp] theorem expected_positive : (positive inspection binding expected).expected = expected := by
  unfold positive
  split <;> rfl

@[simp] theorem name?_positive :
    (positive inspection binding expected).args.name? = some binding := by
  unfold positive
  split <;> simp

@[simp] theorem stem_positive : (positive inspection binding expected).stem = inspection := by
  unfold positive
  split
  · next used hused =>
      simp only [Rule.stem, Arguments.usage?_set_usage]
      exact (after?_eq_some.mp hused).symm
  · simp [Rule.stem]

end Positive

/-- A rule gives back the texts that it was made from. -/
theorem expectation?_toRule (inspection binding : String) :
    (toRule inspection binding).expectation? = some (inspection, binding) := by
  unfold toRule
  split
  · next rest hrest =>
      have hinspection : inspection = "Not:" ++ rest := after?_eq_some.mp hrest
      simp [Rule.expectation?, hinspection]
  · simp [Rule.expectation?]

theorem toRule_inj {inspection binding inspection' binding' : String} :
    toRule inspection binding = toRule inspection' binding' ↔
      inspection = inspection' ∧ binding = binding' := by
  constructor
  · intro h
    have hback := congrArg Rule.expectation? h
    rw [expectation?_toRule, expectation?_toRule] at hback
    simpa using hback
  · rintro ⟨rfl, rfl⟩
    rfl

/-! ## Entries -/

/-- An entry has these texts for its inspection and for its binding. -/
def States (entry : Json) (inspection binding : String) : Prop :=
  entry.get? "inspection" = some (.string inspection) ∧
    entry.get? "binding" = some (.string binding)

/-- An entry has a text for its inspection and for its binding. -/
def WellFormed (entry : Json) : Prop :=
  ∃ inspection binding, States entry inspection binding

theorem ofEntry?_eq_some {entry : Json} {rule : Rule} :
    ofEntry? entry = some rule ↔
      ∃ inspection binding, States entry inspection binding ∧ rule = toRule inspection binding := by
  unfold ofEntry?
  simp only [Option.bind_eq_bind, Option.bind_eq_some_iff, Json.string?_eq_some, exists_eq_right,
    Option.some.injEq, States]
  constructor
  · rintro ⟨inspection, hinspection, binding, hbinding, rfl⟩
    exact ⟨inspection, binding, ⟨hinspection, hbinding⟩, rfl⟩
  · rintro ⟨inspection, binding, ⟨hinspection, hbinding⟩, rfl⟩
    exact ⟨inspection, hinspection, binding, hbinding, rfl⟩

theorem exists_ofEntry?_iff {entry : Json} :
    (∃ rule, ofEntry? entry = some rule) ↔ WellFormed entry := by
  simp only [ofEntry?_eq_some]
  constructor
  · rintro ⟨_, inspection, binding, hstates, _⟩
    exact ⟨inspection, binding, hstates⟩
  · rintro ⟨inspection, binding, hstates⟩
    exact ⟨_, inspection, binding, hstates, rfl⟩

theorem ofEntry?_eq_none {entry : Json} : ofEntry? entry = none ↔ ¬ WellFormed entry := by
  rw [← exists_ofEntry?_iff, ← Option.ne_none_iff_exists', not_not]

/-! ## Lists of entries -/

theorem ofEntries_eq_ok {start : Nat} {entries : List Json} {rules : List Rule} :
    ofEntries start entries = .ok rules ↔
      List.Forall₂ (fun entry rule => ofEntry? entry = some rule) entries rules := by
  induction entries generalizing start rules with
  | nil => simp [ofEntries, eq_comm]
  | cons entry rest ih =>
      rw [ofEntries, List.forall₂_cons_left_iff]
      cases hentry : ofEntry? entry with
      | none => simp
      | some rule =>
          simp only [← @ih (start + 1), Option.some.injEq]
          cases ofEntries (start + 1) rest with
          | error error => simp
          | ok others => grind

/-- The first malformed entry is reported, with the number that counting has come to. -/
theorem ofEntries_eq_error {start : Nat} {entries : List Json} {error : ExpectationError} :
    ofEntries start entries = .error error ↔
      ∃ index entry, error = .malformed (start + index) entry ∧ entries[index]? = some entry ∧
        ¬ WellFormed entry ∧ ∀ earlier ∈ entries.take index, WellFormed earlier := by
  induction entries generalizing start with
  | nil => simp [ofEntries]
  | cons first rest ih =>
      rw [ofEntries]
      cases hfirst : ofEntry? first with
      | none =>
          have hmalformed := ofEntry?_eq_none.mp hfirst
          constructor
          · intro h
            cases h
            exact ⟨0, first, rfl, rfl, hmalformed, by simp⟩
          · rintro ⟨index, entry, rfl, hentry, _, hearlier⟩
            cases index with
            | zero =>
                cases hentry
                rfl
            | succ index => exact (hmalformed (hearlier first List.mem_cons_self)).elim
      | some rule =>
          have hformed : WellFormed first := exists_ofEntry?_iff.mp ⟨rule, hfirst⟩
          have hskip : ofEntries (start + 1) rest = .error error ↔
              ∃ index entry, error = .malformed (start + index) entry ∧
                (first :: rest)[index]? = some entry ∧ ¬ WellFormed entry ∧
                ∀ earlier ∈ (first :: rest).take index, WellFormed earlier := by
            rw [ih]
            constructor
            · rintro ⟨index, entry, rfl, hentry, hmalformed, hearlier⟩
              refine ⟨index + 1, entry, by rw [Nat.add_right_comm]; rfl, hentry, hmalformed, ?_⟩
              exact List.forall_mem_cons.mpr ⟨hformed, hearlier⟩
            · rintro ⟨index, entry, rfl, hentry, hmalformed, hearlier⟩
              cases index with
              | zero =>
                  cases hentry
                  exact (hmalformed hformed).elim
              | succ index =>
                  refine ⟨index, entry, by rw [Nat.add_right_comm]; rfl, hentry, hmalformed, ?_⟩
                  exact (List.forall_mem_cons.mp hearlier).2
          rw [← hskip]
          cases ofEntries (start + 1) rest <;> simp

/-! ## Documents -/

theorem ofDocument_of_array {document : Json} {entries : List Json}
    (h : document.get? "expectations" = some (.array entries)) :
    ofDocument document = ofEntries 0 entries := by
  unfold ofDocument
  rw [h]
  rfl

theorem ofDocument_eq_invalid {document : Json} :
    ofDocument document = .error .invalidDocument ↔
      ∀ entries, document.get? "expectations" ≠ some (.array entries) := by
  constructor
  · intro h entries hentries
    rw [ofDocument_of_array hentries, ofEntries_eq_error] at h
    obtain ⟨_, _, hmalformed, _⟩ := h
    cases hmalformed
  · intro h
    have hnone : (document.get? "expectations").bind Json.array? = none := by
      rw [Option.eq_none_iff_forall_not_mem]
      intro entries hentries
      obtain ⟨value, hvalue, helements⟩ := Option.bind_eq_some_iff.mp hentries
      exact h entries (hvalue.trans (congrArg some (Json.array?_eq_some.mp helements)))
    unfold ofDocument
    rw [hnone]

/-- An entry is read as a rule from which its two texts can be written again. -/
def ReadAs (entry : Json) (rule : Rule) : Prop :=
  ∃ inspection binding, States entry inspection binding ∧ rule = toRule inspection binding ∧
    rule.expectation? = some (inspection, binding)

theorem readAs_iff {entry : Json} {rule : Rule} :
    ReadAs entry rule ↔ ofEntry? entry = some rule := by
  rw [ofEntry?_eq_some]
  constructor
  · rintro ⟨inspection, binding, hstates, hrule, _⟩
    exact ⟨inspection, binding, hstates, hrule⟩
  · rintro ⟨inspection, binding, hstates, rfl⟩
    exact ⟨inspection, binding, hstates, rfl, expectation?_toRule inspection binding⟩

theorem ofDocument_eq_ok {document : Json} {rules : List Rule} :
    ofDocument document = .ok rules ↔
      ∃ entries, document.get? "expectations" = some (.array entries) ∧
        List.Forall₂ ReadAs entries rules := by
  have hreadAs : ReadAs = fun entry rule => ofEntry? entry = some rule := by
    funext entry rule
    exact propext readAs_iff
  constructor
  · intro h
    by_cases harray : ∃ entries, document.get? "expectations" = some (.array entries)
    · obtain ⟨entries, hentries⟩ := harray
      rw [ofDocument_of_array hentries, ofEntries_eq_ok] at h
      exact ⟨entries, hentries, hreadAs ▸ h⟩
    · have hinvalid := ofDocument_eq_invalid.mpr (not_exists.mp harray)
      rw [h] at hinvalid
      cases hinvalid
  · rintro ⟨entries, hentries, hrules⟩
    rw [ofDocument_of_array hentries, ofEntries_eq_ok]
    exact hreadAs ▸ hrules

/-- A list of entries is read as rules when none of them is malformed. -/
theorem exists_readAs_iff {entries : List Json} :
    (∃ rules, List.Forall₂ ReadAs entries rules) ↔ ∀ entry ∈ entries, WellFormed entry := by
  induction entries with
  | nil => exact ⟨fun _ => by simp, fun _ => ⟨[], .nil⟩⟩
  | cons entry rest ih =>
      rw [List.forall_mem_cons, ← ih, ← exists_ofEntry?_iff]
      constructor
      · rintro ⟨_, _ | ⟨hentry, hrest⟩⟩
        exact ⟨⟨_, readAs_iff.mp hentry⟩, _, hrest⟩
      · rintro ⟨⟨rule, hentry⟩, rules, hrest⟩
        exact ⟨rule :: rules, .cons (readAs_iff.mpr hentry) hrest⟩

/-- A document is read whole or not at all. It is read exactly if it has a list of
expectations that all have a text for their inspection and their binding, as one rule for
each entry and in their order, and each rule gives back the texts of its entry. A list with
malformed entries is refused with the number of the first of them, and a document without a
list is refused as a whole. Different expectations are different rules. -/
theorem documents_read_whole (document : Json) :
    ((∃ rules, ofDocument document = .ok rules) ↔
      ∃ entries, document.get? "expectations" = some (.array entries) ∧
        ∀ entry ∈ entries, WellFormed entry) ∧
    (∀ rules, ofDocument document = .ok rules ↔
      ∃ entries, document.get? "expectations" = some (.array entries) ∧
        List.Forall₂ ReadAs entries rules) ∧
    (∀ entries, document.get? "expectations" = some (.array entries) →
      (∃ entry ∈ entries, ¬ WellFormed entry) →
      ∃ index entry, ofDocument document = .error (.malformed index entry) ∧
        entries[index]? = some entry ∧ ¬ WellFormed entry ∧
        ∀ earlier ∈ entries.take index, WellFormed earlier) ∧
    (ofDocument document = .error .invalidDocument ↔
      ∀ entries, document.get? "expectations" ≠ some (.array entries)) ∧
    ∀ inspection binding inspection' binding',
      toRule inspection binding = toRule inspection' binding' ↔
        inspection = inspection' ∧ binding = binding' := by
  refine ⟨?_, fun _ => ofDocument_eq_ok, ?_, ofDocument_eq_invalid, fun _ _ _ _ => toRule_inj⟩
  · simp only [ofDocument_eq_ok, ← exists_readAs_iff]
    constructor
    · rintro ⟨rules, entries, hentries, hrules⟩
      exact ⟨entries, hentries, rules, hrules⟩
    · rintro ⟨entries, hentries, rules, hrules⟩
      exact ⟨rules, entries, hentries, hrules⟩
  · rintro entries hentries ⟨malformed, hmem, hmalformed⟩
    rw [ofDocument_of_array hentries]
    cases hread : ofEntries 0 entries with
    | ok rules =>
        have hrules := ofDocument_eq_ok.mp ((ofDocument_of_array hentries).trans hread)
        obtain ⟨_, hentries', hrules⟩ := hrules
        cases hentries.symm.trans hentries'
        exact (hmalformed (exists_readAs_iff.mp ⟨rules, hrules⟩ malformed hmem)).elim
    | error error =>
        obtain ⟨index, entry, rfl, hentry⟩ := ofEntries_eq_error.mp hread
        exact ⟨index, entry, by rw [Nat.zero_add], hentry⟩

/-- Marks that are repeated, in the other order, or followed by nothing. -/
example : ["Not:Not:X", "Uses:Not:x", "Not:Uses:", "Uses", "Not:"].map
    (fun inspection => (toRule inspection "f").expectation?) =
      [some ("Not:Not:X", "f"), some ("Uses:Not:x", "f"), some ("Not:Uses:", "f"),
        some ("Uses", "f"), some ("Not:", "f")] := by
  decide +kernel

end Expectation

end Rubric
