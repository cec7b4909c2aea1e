import Rubric.Proofs.Checker.Application
import Rubric.Proofs.Checker.Reachable

/-!
# Building a value and applying its constructor

A data value names a constructor and gives its fields. The fields are lowered one after the
other, each just before its value is looked at, and share their written variables. A
constructor can also be used as a function and applied to the values. Then all fields are
lowered first, and each argument takes one arrow off the type of the function and a new
variable for what is left.

Where the fields have no names, both ways do the same. The second run has spare variables for
the fields that the first has not come to. When the first lowers a field, it takes variables
for which the second has kept those of that field.
-/

namespace Rubric

namespace TypeTerm

theorem run_lowerAll_cons {term : TypeTerm} {terms : List TypeTerm} {use last : Naming}
    {types : List Ty} (h : (lowerAll (term :: terms)).run use = (types, last)) :
    ∃ t use' rest, term.lower.run use = (t, use') ∧ (lowerAll terms).run use' = (rest, last) ∧
      types = t :: rest := by
  rw [lowerAll, run_bind, run_bind, run_pure] at h
  obtain ⟨rfl, rfl⟩ := Prod.mk.inj h
  exact ⟨_, _, _, rfl, rfl, rfl⟩

end TypeTerm

namespace Session

variable {aliases : Aliases} {ν : Numbering} {s s' : Session} {names : Table String TypeVar}
  {use use' naming : Naming} {expected expected' : Ty}

/-- The second run has lowered a written type before, with variables that are still spare. -/
theorem Paired.lower (h : Paired aliases ν s s') (term : TypeTerm)
    (hlower : term.lower.run ⟨names, s.next⟩ = (expected, naming))
    (hlower' : term.lower.run use = (expected', use'))
    (hnames : ν.shift.Names names use.names) (hbelow : (⟨names, s.next⟩ : Naming).Below)
    (hspare : ∀ n, use.next ≤ n → n < use'.next → ν.spare n) :
    ∃ ν', Paired aliases ν' { s with next := naming.next } s' ∧ ν.Keeps s.next ν' ∧
      expected' = expected.rename ν'.var ∧ ν'.shift.Names naming.names use'.names ∧
      ∀ n, use'.next ≤ n → ν.spare n → ν'.spare n := by
  -- The variables of the field are moved to those that the second run has kept.
  let r : Shift :=
    { first := s.next
      target := use.next
      rename v := if v.id < s.next then ν.var v else ⟨use.next + (v.id - s.next), v.name⟩
      moves n name := by
        rw [if_neg (Nat.not_lt.mpr (Nat.le_add_right _ _)), Nat.add_sub_cancel_left] }
  have hnames' : r.Names names use.names := by
    intro name
    rw [hnames name]
    cases hname : names.get? name with
    | none => rfl
    | some v => exact congrArg some (if_pos (hbelow name v hname)).symm
  have hexpected := term.below_lower _ hbelow
  have hgrown := (term.grows_lower ⟨names, s.next⟩).below hbelow
  obtain ⟨hanswer, hafter⟩ := r.lowers_lower term ⟨names, s.next⟩ use ⟨hnames', r.counts_first⟩
  rw [hlower] at hexpected hgrown hanswer hafter
  rw [hlower'] at hanswer hafter
  obtain ⟨taken, hnext, hnext'⟩ := hafter.counts
  have hnext : naming.next = s.next + taken := hnext
  have hnext' : use'.next = use.next + taken := hnext'
  obtain ⟨ν', hpaired, hkeeps, hnumber, hkept⟩ := h.take use.next taken
    fun n hn => hspare _ (Nat.le_add_right _ _) (hnext' ▸ Nat.add_lt_add_left hn _)
  have hvar : ∀ v : TypeVar, v.id < naming.next → r.rename v = ν'.var v := by
    intro v hv
    by_cases hold : v.id < s.next
    · exact (if_pos hold).trans (hkeeps.var hold).symm
    · have hnew := hnumber (v.id - s.next) (by omega)
      rw [Nat.add_sub_of_le (Nat.le_of_not_lt hold)] at hnew
      exact (if_neg hold).trans (congrArg (TypeVar.mk · v.name) hnew.symm)
  rw [← hnext] at hpaired
  refine ⟨ν', hpaired, hkeeps, ?_, ?_, fun n hn => hkept n (hnext' ▸ hn)⟩
  · exact hanswer.trans (Ty.rename_congr (Ty.All.mono hexpected hvar))
  · intro name
    refine (hafter.names name).trans ?_
    show (naming.names.get? name).map r.rename = (naming.names.get? name).map ν'.var
    cases hname : naming.names.get? name with
    | none => rfl
    | some v => exact congrArg some (hvar v (hgrown name v hname))

end Session

namespace Setting

open Check Session

variable (setting : Setting)

/-- Apply a function to arguments one after the other. -/
def applyEach (function : Ty) : List Expression → Check Ty
  | [] => pure function
  | e :: rest => do
      let argument ← setting.inferExpression e
      let result ← setting.applied "application" function [argument]
      applyEach result rest

theorem inferExpression_call (function : Expression) (arguments : List Expression) :
    setting.inferExpression (.call function arguments) =
      setting.inferExpression function >>= fun t => setting.applyEach t arguments := by
  induction arguments generalizing function with
  | nil => exact (bind_pure _).symm
  | cons e rest ih =>
      refine (ih (.application function e)).trans ?_
      rw [inferExpression]
      simp only [applyEach, applied, bind_assoc]
      rfl

/-! ## Field by field -/

/-- The first run has come to some field of a value, and the second to the argument for it.
What is left of the type of the constructor are the remaining fields. They were lowered with
names that correspond to those of the first run, over variables that are spare. -/
structure Progress (start : Session) (record : String) (remaining : List TypeTerm)
    (names : Table String TypeVar) (ν : Numbering) (s s' : Session) (function : Ty) : Prop where
  next : start.next ≤ s.next
  keeps : (Numbering.same start.next).Keeps start.next ν
  paired : Paired setting.aliases ν s s'
  below : (⟨names, s.next⟩ : Naming).Below
  lowered : ∃ use fields last, (TypeTerm.lowerAll remaining).run use = (fields, last) ∧
    use.Below ∧ ν.shift.Names names use.names ∧
    (∀ n, use.next ≤ n → n < last.next → ν.spare n) ∧ last.next ≤ s'.next ∧
    s'.subst.apply function = s'.subst.apply (.curried fields (.con record))

variable {start : Session} {record : String}

/-- One field and one argument. -/
theorem Progress.step {setting : Setting} (hfree : setting.aliases.VarFree) {term : TypeTerm}
    {remaining : List TypeTerm} {names : Table String TypeVar} {ν : Numbering} {s s' : Session}
    {function : Ty}
    (h : setting.Progress start record (term :: remaining) names ν s s' function)
    (context : String) (value : Expression) :
    Agree (fun names after function after' => ∃ ν,
        setting.Progress start record remaining names ν after after' function)
      (do
        let lowered ← lowering names term.lower
        let found ← setting.inferExpression value
        setting.constrainIn context lowered.1 found
        pure lowered.2) s
      (do
        let argument ← setting.inferExpression value
        setting.applied "application" function [argument]) s' := by
  obtain ⟨use, _, last, hall, huse, hnames, hspare, htaken, hfunction⟩ := h.lowered
  obtain ⟨expected', use', fields, hlower', hfields, rfl⟩ := TypeTerm.run_lowerAll_cons hall
  obtain ⟨⟨expected, naming⟩, hlower⟩ : ∃ lowered, term.lower.run ⟨names, s.next⟩ = lowered :=
    ⟨_, rfl⟩
  have hgrows := term.grows_lower ⟨names, s.next⟩
  have hbelow := term.below_lower _ h.below
  have hgrows' := term.grows_lower use
  have hle := (TypeTerm.grows_lowerAll remaining use').next_le
  have hparts := TypeTerm.below_lowerAll (term :: remaining) use huse
  rw [hlower] at hgrows hbelow
  rw [hlower'] at hgrows'
  rw [hfields] at hle
  rw [hall] at hparts
  obtain ⟨hexpected', hrest⟩ := List.forall_mem_cons.mp hparts
  have hresult : (Ty.curried fields (.con record)).Below last.next :=
    Ty.all_curried hrest Ty.all_con
  obtain ⟨ν₁, hpaired₁, hkeeps₁, rfl, hnames₁, hkept₁⟩ := h.paired.lower term hlower hlower'
    hnames h.below fun n hn hlt => hspare n hn (Nat.lt_of_lt_of_le hlt hle)
  refine .left (gives_lowering.mpr ⟨rfl, rfl⟩) ?_
  rw [hlower]
  refine (hpaired₁.infer hfree value).bind ?_
  rintro found s₂ _ s₂' ⟨rfl, hfound, hpaired₂, hreaches₂, hreaches₂'⟩
  have hle₂ : naming.next ≤ s₂.next := hreaches₂.next_le
  have hle₂' : last.next ≤ s₂'.next := Nat.le_trans htaken hreaches₂'.next_le
  have hfunction₂ := hreaches₂'.apply_congr hfree hpaired₁.tidy'.solved hfunction
  have hequation : Agree (fun answer after _ middle => answer = naming.names ∧
      Paired setting.aliases ν₁ after middle ∧ s₂.Reaches setting.aliases after)
      (setting.constrainIn context expected found >>= fun _ => pure naming.names) s₂
      (constrainAll setting.aliases setting.literals
        [(expected.rename ν₁.var, found.rename ν₁.var)]) s₂' := by
    refine (hpaired₂.constrainIn hfree context (hbelow.of_le hle₂) hfound rfl rfl).bind ?_
    rintro _ after _ middle ⟨hpaired, hreaches, _⟩
    exact .of_gives (gives_pure.mpr ⟨rfl, rfl⟩) (gives_pure.mpr ⟨rfl, rfl⟩)
      ⟨rfl, hpaired, hreaches⟩
  have hvar : (Ty.curried fields (.con record)).isVar = false := by
    cases fields <;> rfl
  refine (setting.agree_applied hfree hpaired₂.tidy' "application" hfunction₂
    (List.forall_mem_singleton.mpr ⟨hexpected'.of_le hle₂', hpaired₂.below hfound⟩)
    (hresult.of_le hle₂') hvar hequation).mono ?_
  rintro _ after _ _ ⟨middle, ⟨rfl, hpaired₃, hreaches₃⟩, hnext, rfl, rfl⟩
  have hle₃ := Nat.le_trans hle₂ hreaches₃.next_le
  have hle₃' : last.next ≤ middle.next := hnext ▸ hle₂'
  have hstart := Nat.le_trans h.next (Nat.le_trans hgrows.next_le hle₃)
  have hresult₃ := hresult.of_le hle₃'
  have htidy := hpaired₃.tidy'
  obtain ⟨ν₂, hpaired₄, hkeeps₄, hkept₄⟩ := hpaired₃.define hresult₃
  have hnamed : (⟨naming.names, after.next⟩ : Naming).Below :=
    fun name v hv => Nat.lt_of_lt_of_le (hgrows.below h.below name v hv) hle₃
  refine ⟨ν₂, hstart, (h.keeps.trans hkeeps₁ h.next).trans hkeeps₄ hstart, hpaired₄, hnamed,
    use', fields, last, hfields, hgrows'.below huse, ?_, ?_, Nat.le_succ_of_le hle₃', ?_⟩
  · intro name
    refine (hnames₁ name).trans ?_
    show (naming.names.get? name).map ν₁.var = (naming.names.get? name).map ν₂.var
    cases hname : naming.names.get? name with
    | none => rfl
    | some v => exact congrArg some (hkeeps₄.var (hnamed name v hname)).symm
  · intro n hn hlt
    have hold := hspare n (Nat.le_trans hgrows'.next_le hn) hlt
    exact hkept₄ n (Nat.lt_of_lt_of_le hlt hle₃') (hkept₁ n hn hold)
  · rw [htidy.apply_define hresult₃ (htidy.subst.apply hresult₃),
      htidy.apply_define hresult₃ hresult₃, htidy.apply_apply]

variable {info : ConstructorInfo}

/-- All remaining fields and all remaining arguments. -/
theorem agree_fields (hfree : setting.aliases.VarFree) (name : String)
    (hpositional : info.isPositional = true) (values : List FieldExpression) (position : Nat)
    (hlength : position + values.length = info.fields.length) {names : Table String TypeVar}
    {ν : Numbering} {s s' : Session} {function : Ty}
    (h : setting.Progress start info.record ((info.fields.drop position).map Field.value) names ν
      s s' function) :
    Agree (fun _ after t after' => ∃ ν,
        start.EndAlike setting.aliases (.con info.record) after t after' ν)
      (setting.inferFields name info values position names) s
      (setting.applyEach function (values.map FieldExpression.value)) s' := by
  induction values generalizing position names ν s s' function with
  | nil =>
      have hdone : info.fields.drop position = [] := List.drop_eq_nil_of_le (by simp_all)
      rw [hdone] at h
      obtain ⟨use, fields, last, hall, _, _, _, _, hfunction⟩ := h.lowered
      obtain ⟨rfl, rfl⟩ := Prod.mk.inj hall
      rw [inferFields]
      exact .of_gives (gives_pure.mpr ⟨rfl, rfl⟩) (gives_pure.mpr ⟨rfl, rfl⟩)
        ⟨ν, h.next, h.keeps, h.paired, Ty.all_con, hfunction⟩
  | cons value rest ih =>
      obtain ⟨fieldName, e⟩ := value
      rw [List.length_cons] at hlength
      have hlt : position < info.fields.length := by omega
      have hfield : info.fieldFor? position fieldName.value = some info.fields[position] := by
        rw [ConstructorInfo.fieldFor?, if_pos hpositional, List.getElem?_eq_getElem hlt]
      rw [List.drop_eq_getElem_cons hlt, List.map_cons] at h
      have hsplit : setting.inferFields name info (⟨fieldName, e⟩ :: rest) position names =
          (do
            let lowered ← lowering names info.fields[position].value.lower
            let found ← setting.inferExpression e
            setting.constrainIn ("field `" ++ fieldName.value ++ "` of `" ++ name ++ "`") lowered.1
              found
            pure lowered.2) >>= setting.inferFields name info rest (position + 1) := by
        rw [inferFields, hfield]
        simp only [bind_assoc, pure_bind]
      rw [hsplit, List.map_cons, applyEach, ← bind_assoc]
      refine (h.step hfree _ e).bind ?_
      rintro names after function after' ⟨ν, hprogress⟩
      exact ih (position + 1) (by omega) hprogress

/-- The second run has lowered all fields before the first one starts. -/
theorem exists_progress (htidy : start.Tidy setting.aliases) (record : String)
    {terms : List TypeTerm} {types : List Ty} {naming : Naming}
    (hlower : (TypeTerm.lowerAll terms).run ⟨{}, start.next⟩ = (types, naming)) :
    ∃ ν, setting.Progress start record terms {} ν start { start with next := naming.next }
      (.curried types (.con record)) := by
  have hle := (TypeTerm.grows_lowerAll terms ⟨{}, start.next⟩).next_le
  rw [hlower] at hle
  have hmore : start.next + (naming.next - start.next) = naming.next := Nat.add_sub_of_le hle
  have hpaired := (paired_same htidy).skip (naming.next - start.next)
  rw [hmore] at hpaired
  refine ⟨_, Nat.le_refl _, Numbering.keeps_skip _ _, hpaired, below_no_names _, ⟨{}, start.next⟩,
    types, naming, hlower, below_no_names _, fun _ => rfl, ?_, Nat.le_refl _, rfl⟩
  intro n hn hlt
  rw [← hmore] at hlt
  exact .inr ⟨hn, hlt⟩

theorem agree_construction (hfree : setting.aliases.VarFree) (htidy : start.Tidy setting.aliases)
    {name function : Symbol} (hname : function.value = name.value)
    (hconstructor : setting.globals.constructors.get? name.value = some info)
    (hpositional : info.isPositional = true) {fields : List FieldExpression}
    (hlength : fields.length = info.fields.length)
    (hscope : start.scopes.lookup name.value = none)
    (hsignature : setting.globals.signatures.get? name.value = none) :
    Agree (fun t after t' after' => t = .con info.record ∧
        ∃ ν, start.EndAlike setting.aliases t after t' after' ν)
      (setting.inferExpression (.data name fields)) start
      (setting.inferExpression
        (.call (.primitive (.symbol function)) (fields.map FieldExpression.value))) start := by
  obtain ⟨⟨types, naming⟩, hlower⟩ :
      ∃ lowered, (TypeTerm.lowerAll (info.fields.map Field.value)).run ⟨{}, start.next⟩ = lowered :=
    ⟨_, rfl⟩
  obtain ⟨ν, hprogress⟩ := setting.exists_progress htidy info.record hlower
  rw [inferExpression_call, inferExpression, inferExpression, inferPrimitive, hconstructor, hname]
  refine .right (setting.lookup_of_found (.constructor hscope hsignature hconstructor hlower)) ?_
  have hfields := setting.agree_fields hfree name.value hpositional fields 0
    (by rw [Nat.zero_add, hlength]) hprogress
  dsimp only
  rw [if_neg (by simp [hlength]), ← bind_pure (setting.applyEach _ _)]
  refine hfields.bind ?_
  rintro _ after t' after' hends
  exact .of_gives (gives_pure.mpr ⟨rfl, rfl⟩) (gives_pure.mpr ⟨rfl, rfl⟩) ⟨rfl, hends⟩

end Setting

namespace Program

/-- At every point of a check run, with any names in scope, a data value and the application of
its constructor to the values of the fields are interchangeable, and both have the type of the
record. The fields of the constructor have no names, and the name of the constructor has no
other meaning. -/
theorem construction_interchangeable (program : Program) {orders : Orders} {setting : Setting}
    {first : Nat} {session : Session}
    (hsetting : Setting.ofGlobals (.collect program) orders = (setting, first))
    (hfree : setting.aliases.VarFree) (hreachable : setting.Reachable first session)
    {name function : Symbol} {info : ConstructorInfo} {fields : List FieldExpression}
    (hname : function.value = name.value)
    (hconstructor : setting.globals.constructors.get? name.value = some info)
    (hpositional : info.isPositional = true) (hlength : fields.length = info.fields.length)
    (hscope : session.scopes.lookup name.value = none)
    (hsignature : setting.globals.signatures.get? name.value = none) :
    let value := setting.inferExpression (.data name fields)
    let application := setting.inferExpression
      (.call (.primitive (.symbol function)) (fields.map FieldExpression.value))
    Check.Interchangeable session value application ∧
      (∀ t after, value.Gives session t after → after.subst.apply t = .con info.record) ∧
      ∀ t after, application.Gives session t after → after.subst.apply t = .con info.record := by
  intro value application
  have htidy := program.tidy_of_reachable hsetting hfree hreachable
  have hagree := setting.agree_construction hfree htidy hname hconstructor hpositional hlength
    hscope hsignature
  refine ⟨Check.interchangeable_of_agree (hagree.mono fun _ _ _ _ h => h.2), ?_, ?_⟩
  · intro t after hgives
    obtain ⟨_, _, _, rfl, _⟩ := hagree.forth t after hgives
    rfl
  · intro t' after' hgives'
    obtain ⟨t, after, hgives⟩ := hagree.back t' after' hgives'
    obtain ⟨rfl, ν, hends⟩ := hagree.related hgives hgives'
    exact hends.answer

/-- A list and a number as the fields of a move, whose types share a variable. -/
theorem construction_interchangeable_move :
    let fields : List FieldExpression :=
      [⟨⟨"", none, {}⟩, .primitive (.list [Moving.literal 2] {})⟩,
        ⟨⟨"", none, {}⟩, Moving.literal 3⟩]
    let value := Moving.setting.inferExpression (.data ⟨"Move", none, {}⟩ fields)
    let application := Moving.setting.inferExpression
      (.call (.ofName "Move") (fields.map FieldExpression.value))
    Moving.setting.Reachable 0 Moving.session ∧
      Moving.setting.globals.constructors.get? "Move" = some ⟨"Move", Moving.fields⟩ ∧
      (Check.runOn value Moving.session).1 = .ok (.con "Move") ∧
      (Check.runOn application Moving.session).1 = .ok (.con "Move") ∧
      Check.Interchangeable Moving.session value application := by
  intro fields value application
  have hconstructor : Moving.setting.globals.constructors.get? "Move" =
      some ⟨"Move", Moving.fields⟩ := rfl
  have hname : (Symbol.mk "Move" none {}).value = (Symbol.mk "Move" none {}).value := rfl
  refine ⟨Moving.reachable_session, hconstructor, rfl, rfl, ?_⟩
  exact (construction_interchangeable Moving.program Moving.ofGlobals_program Moving.varFree
    Moving.reachable_session hname hconstructor rfl rfl rfl rfl).1

end Program

end Rubric
