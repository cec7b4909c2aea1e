import Rubric.Proofs.Checker.Operands
import Rubric.Proofs.Checker.Points

/-!
# Numeric literals stay numeric

A literal of the generic numeric kind gets a variable that no equation has bound yet, and an
equation is accepted only if every such variable may still be a number then. So the variable
is open or a number at every point of the run on a clause, also after equations that were
refused and in the guards behind one that failed. In a clause without errors every literal
of the parameters and of the result has such a variable.
-/

namespace Rubric

/-! ## An example

A literal pattern and a literal result, behind a guard and behind one that is refused:

    type Amount = Int

    settle : Amount -> Amount
    settle 0 | True = 1
    settle 0 | 2 = 1
-/

namespace Settling

def literal (value : Float) : Primitive :=
  .number "number" value {}

def signature : Signature where
  name := ⟨"settle", none, {}⟩
  inputs := [.con "Amount"]
  output := .con "Amount"

def clause (condition : Primitive) : Clause :=
  .ofGuards [.literal (literal 0)] [.simple (.primitive condition) (.primitive (literal 1))]

def program : Program where
  declarations :=
    [.typeAlias ⟨⟨"Amount", none, {}⟩, .con "Int"⟩, .signature signature,
      .function ⟨⟨"settle", none, {}⟩, [clause (.boolean true {}), clause (literal 2)]⟩]

def setting : Setting where
  globals :=
    { signatures := .singleton "settle" signature, aliases := .singleton "Amount" (.con "Int") }
  aliases := .ofList [("Amount", .con "Int")]

theorem ofGlobals_program : Setting.ofGlobals (.collect program) = (setting, 0) := by
  rw [Globals.collect_eq]
  rfl

end Settling

namespace Setting

open Check

variable (setting : Setting)

/-- Every numeric literal of a session has a type that is a variable or expands to a numeric
kind. -/
def LiteralsNumeric (session : Session) : Prop :=
  ∀ v ∈ session.numeric, setting.Admits (isOneOf Ty.numericKinds) (session.subst.apply (.var v))

theorem literalsNumeric_of_orderly {ledger : Ledger} {session : Session}
    (h : session.Orderly setting.aliases ledger) : setting.LiteralsNumeric session :=
  fun v hv => setting.admits_of_mayBeNumeric (h.kinds v hv)

/-- A literal of the generic kind gets a variable that is recorded. -/
theorem gives_generic {kind : String} (h : isGenericKind kind = true) (value : Float) (loc : Span)
    (session : Session) :
    ∃ v, (setting.inferPrimitive (.number kind value loc)).Gives session (.var v)
        (setting.outcome ⟨.primitive (.number kind value loc), session⟩) ∧
      v ∈ (setting.outcome ⟨.primitive (.number kind value loc), session⟩).numeric := by
  have hgives : (setting.inferPrimitive (.number kind value loc)).Gives session
      (.var ⟨session.next, none⟩) { session with
        next := session.next + 1, numeric := ⟨session.next, none⟩ :: session.numeric } := by
    rw [inferPrimitive, if_pos h]
    exact gives_freshNumeric.mpr ⟨rfl, rfl⟩
  have houtcome : setting.outcome ⟨.primitive (.number kind value loc), session⟩ = { session with
      next := session.next + 1, numeric := ⟨session.next, none⟩ :: session.numeric } :=
    congrArg Prod.snd hgives
  rw [houtcome]
  exact ⟨_, hgives, List.mem_cons_self⟩

end Setting

namespace Program

/-- A clause is checked after any others, when the aliases have taken the first numbers. At
every call of the run, before it and after it, the variables of numeric literals are open or
numbers, and so they are at the end. Every literal of the generic kind that the run comes to
has such a variable. A clause without errors has come to all of them, in its parameters and
in its result. -/
theorem literals_stay_numeric (program : Program) (signature : Signature) (clause : Clause)
    {orders : Orders} {setting : Setting} {first : Nat} {session after : Session}
    {errors : List TypeError}
    (hsetting : Setting.ofGlobals (.collect program) orders = (setting, first))
    (hfirst : first ≤ session.next)
    (hrun : (setting.checkClause signature clause).run session.reset = (errors, after)) :
    (∀ moment ∈ setting.clauseTrace signature clause session.reset,
      setting.LiteralsNumeric moment.session ∧
        setting.LiteralsNumeric (setting.outcome moment)) ∧
    setting.LiteralsNumeric after ∧
    (∀ moment ∈ setting.clauseTrace signature clause session.reset, ∀ kind value loc,
      moment.call = .primitive (.number kind value loc) → Setting.isGenericKind kind = true →
        ∃ t, (setting.inferPrimitive (.number kind value loc)).Gives moment.session t
            (setting.outcome moment) ∧
          setting.Admits (Setting.isOneOf Ty.numericKinds) (after.subst.apply t)) ∧
    (errors = [] → (setting.clauseTrace signature clause session.reset).filterMap Moment.node? =
      Node.typedNodesOf
        (clause.parameters.map .pattern ++ clause.result.typed.map .expression)) := by
  have hle : (Setting.ofGlobals (.collect program) orders).2 ≤ session.next := by
    rw [hsetting]
    exact hfirst
  obtain ⟨ledger, hnext, hbodies⟩ := Ledger.exists_ofGlobals (.collect program) orders hle
  rw [hsetting] at hbodies
  obtain ⟨later, hlater, hcalls⟩ := setting.orderly_clause signature clause hbodies hnext
  rw [hrun] at hlater hcalls
  have hend := setting.literalsNumeric_of_orderly hlater
  refine ⟨?_, hend, ?_, fun hnone => setting.nodes_clauseTrace (hnone ▸ hrun)⟩
  · intro moment hmoment
    obtain ⟨⟨_, _, hbefore, _, _, hafter⟩, _⟩ := hcalls moment hmoment
    exact ⟨setting.literalsNumeric_of_orderly hbefore, setting.literalsNumeric_of_orderly hafter⟩
  · rintro ⟨_, seen⟩ hmoment kind value loc rfl hkind
    obtain ⟨v, hgives, hv⟩ := setting.gives_generic hkind value loc seen
    obtain ⟨_, hnumeric⟩ := hcalls _ hmoment
    exact ⟨.var v, hgives, hend v (hnumeric hv)⟩

/-- The literals of the pattern and of the result become amounts, which are numbers. -/
theorem literals_stay_numeric_settled :
    ∃ after, (Settling.setting.checkClause Settling.signature
        (Settling.clause (.boolean true {}))).run (Session.reset {}) = ([], after) ∧
      ∀ value ∈ [0, 1], ∃ moment ∈ Settling.setting.clauseTrace Settling.signature
          (Settling.clause (.boolean true {})) (Session.reset {}),
        moment.call = .primitive (Settling.literal value) ∧
        ∃ t, (Settling.setting.inferPrimitive (Settling.literal value)).Gives moment.session t
            (Settling.setting.outcome moment) ∧
          after.subst.apply t = .con "Amount" ∧
          Settling.setting.Admits (Setting.isOneOf Ty.numericKinds) (after.subst.apply t) := by
  have hrun : (Settling.setting.checkClause Settling.signature
      (Settling.clause (.boolean true {}))).run (Session.reset {}) = ([], _) := rfl
  obtain ⟨_, _, hliterals, _⟩ := literals_stay_numeric Settling.program Settling.signature _
    Settling.ofGlobals_program (Nat.zero_le _) hrun
  refine ⟨_, hrun, List.forall_mem_cons.mpr ⟨?_, List.forall_mem_singleton.mpr ?_⟩⟩
  · obtain ⟨t, hgives, hadmits⟩ :=
      hliterals _ (List.mem_of_getElem? (i := 1) rfl) "number" 0 {} rfl rfl
    obtain ⟨rfl, _⟩ := Check.gives_freshNumeric.mp hgives
    exact ⟨_, List.mem_of_getElem? (i := 1) rfl, rfl, _, hgives, rfl, hadmits⟩
  · obtain ⟨t, hgives, hadmits⟩ :=
      hliterals _ (List.mem_of_getElem? (i := 7) rfl) "number" 1 {} rfl rfl
    obtain ⟨rfl, _⟩ := Check.gives_freshNumeric.mp hgives
    exact ⟨_, List.mem_of_getElem? (i := 7) rfl, rfl, _, hgives, rfl, hadmits⟩

/-- A number is refused as a condition, and the result behind it is still checked. -/
example :
    ((Settling.setting.checkClause Settling.signature
      (Settling.clause (Settling.literal 2))).run (Session.reset {})).1 =
        [.nonNumericLiteral .bool] := rfl

end Program

end Rubric
