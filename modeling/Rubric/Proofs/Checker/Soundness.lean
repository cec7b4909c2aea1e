import Rubric.Proofs.Checker.Ensures
import Rubric.Typing.Checking

/-!
# Soundness of the checker

What inference gives back is a type of the expression under every solution of the session
it leaves, also when that type was given back before it was fully known.
-/

namespace Rubric

namespace Setting

open Check

variable (setting : Setting)

/-- An expression has a type in the given scopes under a valuation. -/
def TypedUnder (σ : TypeVar → Ty) (scopes : Scopes) (e : Expression) (t : Ty) : Prop :=
  Typed (.lenient setting.aliases) setting (scopes.under σ) e (t.subst σ)

/-- A pattern leads from one scope to another under a valuation. -/
def MatchesUnder (σ : TypeVar → Ty) (before after : Scopes) (p : Pattern) (t : Ty) : Prop :=
  Matches (.lenient setting.aliases) setting (before.under σ) p (t.subst σ) (after.under σ)

/-- Patterns lead from one scope to another under a valuation. -/
def MatchesAllUnder (σ : TypeVar → Ty) (before after : Scopes) (ps : List Pattern)
    (τs : List Ty) : Prop :=
  MatchesAll (.lenient setting.aliases) setting (before.under σ) ps τs (after.under σ)

mutual

theorem ensures_inferExpression (hfree : setting.aliases.VarFree) :
    (e : Expression) → (n : Nat) →
      (setting.inferExpression e).Ensures setting.aliases n Ty.Below fun σ before after t =>
        after = before ∧ setting.TypedUnder σ before e t
  | .primitive p, n => by
      rw [inferExpression]
      exact ensures_inferPrimitive hfree p n
  | .operation o, n => by
      rw [inferExpression]
      exact ensures_inferOperation hfree o n
  | .tuple elements, n => by
      rw [inferExpression]
      refine (ensures_inferAll hfree elements n).bind hfree fun m ts _ hts => ?_
      refine .pure (fun k hk => Ty.all_tuple.mpr fun t ht => (hts t ht).of_le hk) ?_
      rintro σ _ before ⟨rfl, htyped⟩
      exact ⟨rfl, .tuple htyped⟩
  | .conditional condition yes no, n => by
      rw [inferExpression]
      refine (ensures_inferExpression hfree condition n).bind hfree fun m t _ ht => ?_
      refine (setting.ensures_constrainIn hfree _ Ty.all_con ht).bind hfree fun m _ _ _ => ?_
      refine (ensures_inferExpression hfree yes m).bind hfree fun m yesType _ hyes => ?_
      refine (ensures_inferExpression hfree no m).bind hfree fun m noType hm hno => ?_
      refine (setting.ensures_constrainIn hfree _ (hyes.of_le hm) hno).bind hfree
        fun k _ hk _ => ?_
      refine (ensures_resolve (hyes.of_le (Nat.le_trans hm hk))).mono ?_
      rintro σ _ _ u ⟨rfl, hresult⟩ _ ⟨rfl, hequal⟩ _ ⟨rfl, hno⟩ _ ⟨rfl, hyes⟩ _ ⟨rfl, hbool⟩ _
        ⟨rfl, hcondition⟩
      refine ⟨rfl, .convert (.conditional (.convert hcondition hbool.symm) hyes ?_) hresult.symm⟩
      exact .convert hno hequal.symm
  | .cons head tail, n => by
      rw [inferExpression]
      refine (ensures_inferExpression hfree head n).bind hfree fun m headType _ hhead => ?_
      refine (ensures_inferExpression hfree tail m).bind hfree fun m tailType hm htail => ?_
      have hlist := Ty.all_list.mpr (hhead.of_le hm)
      refine (setting.ensures_constrainIn hfree _ hlist htail).bind hfree fun k _ hk _ => ?_
      refine (ensures_resolve (Ty.Below.of_le hlist hk)).mono ?_
      rintro σ _ _ u ⟨rfl, hresult⟩ _ ⟨rfl, hequal⟩ _ ⟨rfl, htail⟩ _ ⟨rfl, hhead⟩
      exact ⟨rfl, .convert (.cons hhead (.convert htail hequal.symm)) hresult.symm⟩
  | .data name fields, n => by
      rw [inferExpression]
      split
      · exact .throw
      · next info hinfo =>
          split
          · exact .throw
          · next hlength =>
              refine (ensures_inferFields hfree name.value info fields 0 {} n
                (below_no_names n)).bind hfree fun _ _ _ _ => ?_
              refine .pure (fun _ _ => Ty.all_con) ?_
              rintro σ _ before ⟨rfl, ρ, φ, _, hfields⟩
              simp only [Nat.zero_add] at hfields
              refine ⟨rfl, .data hinfo ?_ (fun i given hi => (hfields i given hi).1)
                fun i given hi => (hfields i given hi).2⟩
              intro hpositional
              simpa [hpositional] using hlength
  | .composition left right, n => by
      rw [inferExpression]
      refine (ensures_inferExpression hfree left n).bind hfree fun m₁ leftType _ hleft => ?_
      refine (ensures_inferExpression hfree right m₁).bind hfree fun m₂ rightType h₂ hright => ?_
      refine (ensures_fresh m₂).bind hfree fun m₃ a h₃ ha => ?_
      refine (ensures_fresh m₃).bind hfree fun m₄ b h₄ hb => ?_
      refine (ensures_fresh m₄).bind hfree fun m₅ c h₅ hc => ?_
      have h₃₅ := Nat.le_trans h₄ h₅
      have hbc := Ty.all_func.mpr ⟨hb.of_le h₅, hc⟩
      have hleft' := hleft.of_le (Nat.le_trans h₂ (Nat.le_trans h₃ h₃₅))
      refine (setting.ensures_constrainIn hfree _ hbc hleft').bind hfree fun m₆ _ h₆ _ => ?_
      have h₃₆ := Nat.le_trans h₃₅ h₆
      have hab := Ty.all_func.mpr ⟨ha.of_le h₃₆, hb.of_le (Nat.le_trans h₅ h₆)⟩
      have hright' := hright.of_le (Nat.le_trans h₃ h₃₆)
      refine (setting.ensures_constrainIn hfree _ hab hright').bind hfree fun m₇ _ h₇ _ => ?_
      have hac := Ty.all_func.mpr
        ⟨ha.of_le (Nat.le_trans h₃₆ h₇), hc.of_le (Nat.le_trans h₆ h₇)⟩
      refine (ensures_resolve hac).mono ?_
      rintro σ _ _ u ⟨rfl, hresult⟩ _ ⟨rfl, hequal₂⟩ _ ⟨rfl, hequal₁⟩ _ rfl _ rfl _ rfl _
        ⟨rfl, hright⟩ _ ⟨rfl, hleft⟩
      refine ⟨rfl, .convert (.composition (.convert hleft hequal₁.symm) ?_) hresult.symm⟩
      exact .convert hright hequal₂.symm
  | .lambda parameters body, n => by
      rw [inferExpression]
      refine (ensures_inNewScope hfree (R := fun σ before _ t =>
        setting.TypedUnder σ before (.lambda parameters body) t) ?_).mono ?_
      · refine (ensures_bindParameters hfree parameters n).bind hfree
          fun m inputs _ hinputs => ?_
        refine (ensures_inferExpression hfree body m).bind hfree fun k output hk houtput => ?_
        refine (ensures_resolve
          (Ty.all_curried (fun t ht => (hinputs t ht).of_le hk) houtput)).mono ?_
        rintro σ _ _ u ⟨rfl, hresult⟩ _ ⟨rfl, hbody⟩ before hmatches
        rw [Ty.subst_curried, ← Ty.substAll_eq_map] at hresult
        exact .convert (.lambda hmatches hbody) hresult.symm
      · rintro σ before after t ⟨rfl, inside, htyped⟩
        unfold TypedUnder at htyped ⊢
        rw [Scopes.under_push] at htyped
        exact ⟨rfl, htyped⟩
  | .application f argument, n => by
      rw [inferExpression]
      refine (ensures_inferExpression hfree f n).bind hfree fun m functionType _ hf => ?_
      refine (ensures_inferExpression hfree argument m).bind hfree
        fun m₂ argumentType h₂ harg => ?_
      refine (ensures_fresh m₂).bind hfree fun m₃ result h₃ hresult => ?_
      have harrow := Ty.all_func.mpr ⟨harg.of_le h₃, hresult⟩
      refine (setting.ensures_constrainIn hfree _ (hf.of_le (Nat.le_trans h₂ h₃)) harrow).bind
        hfree fun k _ hk _ => ?_
      refine (ensures_resolve (hresult.of_le hk)).mono ?_
      rintro σ _ _ u ⟨rfl, hresult⟩ _ ⟨rfl, hequal⟩ _ rfl _ ⟨rfl, hargument⟩ _ ⟨rfl, hf⟩
      exact ⟨rfl, .convert (.application (.convert hf hequal) hargument) hresult.symm⟩
  | .infixed operator left right, n => by
      rw [inferExpression]
      refine .get fun session => ?_
      split
      · next hjoined =>
          refine (ensures_inferExpression hfree left n).bind hfree fun m leftType _ hleft => ?_
          refine (ensures_inferExpression hfree right m).bind hfree
            fun k rightType hk hright => ?_
          refine (setting.ensures_uniform hfree _ _ _ (hleft.of_le hk) hright).mono ?_
          rintro σ _ _ t ⟨rfl, hequal, hresult⟩ _ ⟨rfl, hright⟩ _ ⟨rfl, hleft⟩ rfl
          simp only [Bool.and_eq_true, decide_eq_true_eq, Bool.not_eq_true',
            setting.declares_eq_false (Scopes.under_eq_none σ)] at hjoined
          refine ⟨rfl, .convert (.joined hjoined.1 hjoined.2 hleft ?_ trivial) hresult.symm⟩
          exact .convert hright hequal.symm
      · next hjoined =>
          refine (setting.ensures_lookup operator.value n).bind hfree fun m₁ opType _ hop => ?_
          refine (ensures_inferExpression hfree left m₁).bind hfree
            fun m₂ leftType h₂ hleft => ?_
          refine (ensures_inferExpression hfree right m₂).bind hfree
            fun m₃ rightType h₃ hright => ?_
          refine (ensures_fresh m₃).bind hfree fun m₄ result h₄ hresult => ?_
          have hop' := hop.of_le (Nat.le_trans h₂ (Nat.le_trans h₃ h₄))
          have hleft' := hleft.of_le (Nat.le_trans h₃ h₄)
          have harrow : (Ty.curried [leftType, rightType] result).Below m₄ :=
            Ty.all_func.mpr ⟨hleft', Ty.all_func.mpr ⟨hright.of_le h₄, hresult⟩⟩
          refine (setting.ensures_constrainIn hfree _ hop' harrow).bind hfree fun k _ hk _ => ?_
          refine (ensures_resolve (hresult.of_le hk)).mono ?_
          rintro σ _ _ u ⟨rfl, hresult⟩ _ ⟨rfl, hequal⟩ _ rfl _ ⟨rfl, hright⟩ _ ⟨rfl, hleft⟩ _
            ⟨rfl, hnamed⟩ rfl
          simp only [Bool.and_eq_true, decide_eq_true_eq, Bool.not_eq_true',
            setting.declares_eq_false (Scopes.under_eq_none σ)] at hjoined
          exact ⟨rfl, .convert (.infixed hjoined hnamed hequal hleft hright) hresult.symm⟩

theorem ensures_inferPrimitive (hfree : setting.aliases.VarFree) :
    (p : Primitive) → (n : Nat) →
      (setting.inferPrimitive p).Ensures setting.aliases n Ty.Below fun σ before after t =>
        after = before ∧ setting.TypedUnder σ before (.primitive p) t
  | .number kind value loc, n => by
      rw [inferPrimitive]
      split
      · next hkind =>
          refine (ensures_freshNumeric n).mono ?_
          rintro σ before after t ⟨rfl, hnumber⟩
          exact ⟨rfl, .genericNumber hkind hnumber⟩
      · next hkind =>
          exact .pure (fun _ _ => Ty.all_con) fun σ scopes =>
            ⟨rfl, .number (Bool.eq_false_of_not_eq_true hkind)⟩
  | .boolean value loc, n => by
      rw [inferPrimitive]
      exact .pure (fun _ _ => Ty.all_con) fun σ scopes => ⟨rfl, .boolean⟩
  | .char value loc, n => by
      rw [inferPrimitive]
      exact .pure (fun _ _ => Ty.all_con) fun σ scopes => ⟨rfl, .char⟩
  | .string value loc, n => by
      rw [inferPrimitive]
      exact .pure (fun _ _ => Ty.all_con) fun σ scopes => ⟨rfl, .string⟩
  | .null loc, n => by
      rw [inferPrimitive]
      exact (ensures_fresh n).mono fun σ before after t h => ⟨h, .null _⟩
  | .undefined loc, n => by
      rw [inferPrimitive]
      exact (ensures_fresh n).mono fun σ before after t h => ⟨h, .undefined _⟩
  | .symbol symbol, n => by
      rw [inferPrimitive]
      exact (setting.ensures_lookup symbol.value n).mono fun σ before after t h =>
        ⟨h.1, .symbol h.2⟩
  | .list elements loc, n => by
      rw [inferPrimitive]
      refine (ensures_fresh n).bind hfree fun m element _ helement => ?_
      refine (ensures_inferElements hfree elements helement).bind hfree fun k _ hk _ => ?_
      refine (ensures_resolve (Ty.all_list.mpr (helement.of_le hk))).mono ?_
      rintro σ _ _ u ⟨rfl, hresult⟩ _ ⟨rfl, helements⟩ _ rfl
      exact ⟨rfl, .convert (.list helements) hresult.symm⟩

theorem ensures_inferOperation (hfree : setting.aliases.VarFree) :
    (o : Operation) → (n : Nat) →
      (setting.inferOperation o).Ensures setting.aliases n Ty.Below fun σ before after t =>
        after = before ∧ setting.TypedUnder σ before (.operation o) t
  | ⟨operator, left, right, loc⟩, n => by
      rw [inferOperation]
      refine (ensures_inferExpression hfree left n).bind hfree fun m leftType _ hleft => ?_
      refine (ensures_inferExpression hfree right m).bind hfree fun k rightType hk hright => ?_
      refine (setting.ensures_operated hfree operator (hleft.of_le hk) hright).mono ?_
      rintro σ _ _ t ⟨rfl, α, β, τ, hoperates, hα, hβ, hτ⟩ _ ⟨rfl, hright⟩ _ ⟨rfl, hleft⟩
      exact ⟨rfl, .convert (.operation (.convert hleft hα) (.convert hright hβ) hoperates) hτ⟩

theorem ensures_inferAll (hfree : setting.aliases.VarFree) :
    (es : List Expression) → (n : Nat) →
      (setting.inferAll es).Ensures setting.aliases n (fun m ts => ∀ t ∈ ts, t.Below m)
        fun σ before after ts => after = before ∧
          TypedAll (.lenient setting.aliases) setting (before.under σ) es (Ty.substAll σ ts)
  | [], n => by
      rw [inferAll]
      exact .pure (by simp) fun σ scopes => ⟨rfl, .nil⟩
  | e :: rest, n => by
      rw [inferAll]
      refine (ensures_inferExpression hfree e n).bind hfree fun m t _ ht => ?_
      refine (ensures_inferAll hfree rest m).bind hfree fun k ts hk hts => ?_
      refine .pure ?_ ?_
      · intro l hl
        exact List.forall_mem_cons.mpr
          ⟨ht.of_le (Nat.le_trans hk hl), fun t' ht' => (hts t' ht').of_le hl⟩
      · rintro σ _ _ ⟨rfl, hrest⟩ _ ⟨rfl, he⟩
        exact ⟨rfl, .cons he hrest⟩

theorem ensures_inferElements (hfree : setting.aliases.VarFree) {n : Nat} {element : Ty} :
    (es : List Expression) → element.Below n →
      (setting.inferElements element es).Ensures setting.aliases n (fun _ _ => True)
        fun σ before after _ => after = before ∧
          ∀ e ∈ es, setting.TypedUnder σ before e element
  | [], _ => by
      rw [inferElements]
      exact .pure (fun _ _ => trivial) (by simp)
  | e :: rest, helement => by
      rw [inferElements]
      refine (ensures_inferExpression hfree e n).bind hfree fun m found hm hfound => ?_
      refine (setting.ensures_constrainIn hfree _ (helement.of_le hm) hfound).bind hfree
        fun k _ hk _ => ?_
      refine (ensures_inferElements hfree rest (helement.of_le (Nat.le_trans hm hk))).mono ?_
      rintro σ _ _ _ ⟨rfl, hrest⟩ _ ⟨rfl, hequal⟩ _ ⟨rfl, he⟩
      exact ⟨rfl, List.forall_mem_cons.mpr ⟨.convert he hequal.symm, hrest⟩⟩

theorem ensures_inferFields (hfree : setting.aliases.VarFree) (name : String)
    (info : ConstructorInfo) :
    (fields : List FieldExpression) → (position : Nat) → (names : Table String TypeVar) →
      (n : Nat) → (⟨names, n⟩ : Naming).Below →
        (setting.inferFields name info fields position names).Ensures setting.aliases n
          (fun _ _ => True) fun σ before after _ => after = before ∧
            ∃ (ρ : String → Ty) (φ : Nat → Ty), (⟨names, 0⟩ : Naming).Values σ ρ ∧
              ∀ i given, fields[i]? = some given →
                (∃ field, info.fieldFor? (position + i) given.name.value = some field ∧
                  field.value.Instance ρ (φ i)) ∧
                Typed (.lenient setting.aliases) setting (before.under σ) given.value (φ i)
  | [], _, names, n, _ => by
      rw [inferFields]
      refine .pure (fun _ _ => trivial) ?_
      intro σ scopes
      exact ⟨rfl, Naming.valueOf ⟨names, 0⟩ σ, fun _ => .bool,
        Naming.values_valueOf ⟨names, 0⟩ σ, by simp⟩
  | ⟨fieldName, value⟩ :: rest, position, names, n, hnames => by
      rw [inferFields]
      split
      · exact .throw
      · next field hfield =>
          refine (ensures_lowering field.value hnames).bind hfree fun m answer _ h => ?_
          obtain ⟨hexpected, hnames'⟩ := h
          refine (ensures_inferExpression hfree value m).bind hfree fun m₂ found h₂ hfound => ?_
          refine (setting.ensures_constrainIn hfree _ (hexpected.of_le h₂) hfound).bind hfree
            fun k _ hk _ => ?_
          refine (ensures_inferFields hfree name info rest (position + 1) answer.2 k ?_).mono ?_
          · intro n' v hv
            exact Nat.lt_of_lt_of_le (hnames' n' v hv) (Nat.le_trans h₂ hk)
          · rintro σ _ _ _ ⟨rfl, ρ, φ, hvalues, hrest⟩ _ ⟨rfl, hequal⟩ _ ⟨rfl, hvalue⟩ _
              ⟨rfl, hlowered⟩
            obtain ⟨hvalues', hinstance⟩ := hlowered ρ hvalues
            -- The field at hand comes first, the others move up by one position.
            refine ⟨rfl, ρ, fun i => Nat.casesOn i (answer.1.subst σ) φ, hvalues', ?_⟩
            intro i given hi
            cases i with
            | zero =>
                cases hi
                exact ⟨⟨field, hfield, hinstance⟩, .convert hvalue hequal.symm⟩
            | succ i =>
                obtain ⟨hfieldFor, htyped⟩ := hrest i given hi
                rw [Nat.add_right_comm] at hfieldFor
                exact ⟨hfieldFor, htyped⟩

theorem ensures_bindPattern (hfree : setting.aliases.VarFree) {n : Nat} {expected : Ty} :
    (p : Pattern) → expected.Below n →
      (setting.bindPattern p expected).Ensures setting.aliases n (fun _ _ => True)
        fun σ before after _ => setting.MatchesUnder σ before after p expected
  | .wildcard, _ => by
      rw [bindPattern]
      exact .pure (fun _ _ => trivial) fun σ scopes => .wildcard
  | .literal p, hexpected => by
      rw [bindPattern]
      refine (ensures_inferPrimitive hfree p n).bind hfree fun m found hm hfound => ?_
      refine (setting.ensures_constrainIn hfree _ (hexpected.of_le hm) hfound).mono ?_
      rintro σ _ _ _ ⟨rfl, hequal⟩ _ ⟨rfl, htyped⟩
      exact .literal (.convert htyped hequal.symm)
  | .var symbol, hexpected => by
      rw [bindPattern]
      refine (ensures_bindName symbol.value hexpected).mono ?_
      rintro σ before after _ rfl
      unfold MatchesUnder
      rw [Scopes.under_insert]
      exact .var
  | .constructor name patterns, hexpected => by
      rw [bindPattern]
      split
      · next htruth =>
          refine (ensures_constrain hfree hexpected Ty.all_con).mono ?_
          rintro σ _ _ _ ⟨rfl, hequal⟩
          simp only [Bool.and_eq_true, Bool.or_eq_true, decide_eq_true_eq,
            List.isEmpty_iff] at htruth
          obtain ⟨htruth, rfl⟩ := htruth
          exact .convert (.truth htruth) hequal.symm
      · next htruth =>
          refine (setting.ensures_constructorFor name patterns.length n).bind hfree
            fun m info hm hinfo => ?_
          refine (setting.ensures_constrainIn hfree _ (hexpected.of_le hm) Ty.all_con).bind hfree
            fun k _ _ _ => ?_
          refine (ensures_bindFields hfree patterns info.fields {} k (below_no_names k)
            hinfo.2.symm).mono ?_
          rintro σ _ _ _ ⟨ρ, τs, _, hinstances, hmatches⟩ _ ⟨rfl, hequal⟩ _ rfl
          refine .convert (.constructor ?_ hinfo.1 hinstances hmatches) hequal.symm
          simpa using htruth
  | .list elements, hexpected => by
      rw [bindPattern]
      refine (ensures_fresh n).bind hfree fun m element hm helement => ?_
      refine (setting.ensures_constrainIn hfree _ (hexpected.of_le hm)
        (Ty.all_list.mpr helement)).bind hfree fun k _ hk _ => ?_
      refine (ensures_bindEach hfree elements (helement.of_le hk)).mono ?_
      rintro σ _ _ _ hmatches _ ⟨rfl, hequal⟩ _ rfl
      exact .convert (.list hmatches) hequal.symm
  | .cons head tail, hexpected => by
      rw [bindPattern]
      refine (ensures_fresh n).bind hfree fun m element hm helement => ?_
      have hlist := Ty.all_list.mpr helement
      refine (setting.ensures_constrainIn hfree _ (hexpected.of_le hm) hlist).bind hfree
        fun k _ hk _ => ?_
      refine (ensures_bindPattern hfree head (helement.of_le hk)).bind hfree fun l _ hl _ => ?_
      refine (ensures_bindPattern hfree tail
        (Ty.Below.of_le hlist (Nat.le_trans hk hl))).mono ?_
      rintro σ _ _ _ htail _ hhead _ ⟨rfl, hequal⟩ _ rfl
      exact .convert (.cons hhead htail) hequal.symm
  | .as whole pattern, hexpected => by
      rw [bindPattern]
      refine (ensures_bindPattern hfree whole hexpected).bind hfree fun m _ hm _ => ?_
      refine (ensures_bindPattern hfree pattern (hexpected.of_le hm)).mono ?_
      rintro σ _ _ _ hpattern _ hwhole
      exact .as hwhole hpattern
  | .tuple elements, hexpected => by
      rw [bindPattern]
      refine (ensures_freshFor hfree elements n).bind hfree fun m types hm htypes => ?_
      refine (setting.ensures_constrainIn hfree _ (hexpected.of_le hm)
        (Ty.all_tuple.mpr htypes)).bind hfree fun k _ hk _ => ?_
      refine (ensures_bindAll hfree elements fun t ht => (htypes t ht).of_le hk).mono ?_
      rintro σ _ _ _ hmatches _ ⟨rfl, hequal⟩ _ ⟨rfl, hlength⟩
      have hmatches := hmatches (Nat.le_of_eq hlength.symm)
      rw [← hlength, List.take_length] at hmatches
      exact .convert (.tuple hmatches) hequal.symm

theorem ensures_bindFields (hfree : setting.aliases.VarFree) :
    (patterns : List Pattern) → (fields : List Field) → (names : Table String TypeVar) →
      (n : Nat) → (⟨names, n⟩ : Naming).Below → patterns.length = fields.length →
        (setting.bindFields patterns fields names).Ensures setting.aliases n (fun _ _ => True)
          fun σ before after _ => ∃ (ρ : String → Ty) (τs : List Ty),
            (⟨names, 0⟩ : Naming).Values σ ρ ∧
            TypeTerm.Instances ρ (fields.map Field.value) τs ∧
            setting.MatchesAllUnder σ before after patterns τs
  | pattern :: rest, field :: fields, names, n, hnames, hlength => by
      rw [bindFields]
      refine (ensures_lowering field.value hnames).bind hfree fun m answer _ h => ?_
      obtain ⟨hexpected, hnames'⟩ := h
      refine (ensures_bindPattern hfree pattern hexpected).bind hfree fun k _ hk _ => ?_
      refine (ensures_bindFields hfree rest fields answer.2 k ?_ (Nat.succ.inj hlength)).mono ?_
      · intro n' v hv
        exact Nat.lt_of_lt_of_le (hnames' n' v hv) hk
      · rintro σ _ _ _ ⟨ρ, τs, hvalues, hinstances, hrest⟩ _ hpattern _ ⟨rfl, hlowered⟩
        obtain ⟨hvalues', hinstance⟩ := hlowered ρ hvalues
        exact ⟨ρ, _, hvalues', .cons hinstance hinstances, .cons hpattern hrest⟩
  | [], [], names, n, _, _ => by
      rw [bindFields]
      · refine .pure (fun _ _ => trivial) ?_
        intro σ scopes
        exact ⟨_, [], Naming.values_valueOf ⟨names, 0⟩ σ, .nil, .nil⟩
      · simp

theorem ensures_bindEach (hfree : setting.aliases.VarFree) {n : Nat} {expected : Ty} :
    (patterns : List Pattern) → expected.Below n →
      (setting.bindEach patterns expected).Ensures setting.aliases n (fun _ _ => True)
        fun σ before after _ => setting.MatchesAllUnder σ before after patterns
          (List.replicate patterns.length (expected.subst σ))
  | [], _ => by
      rw [bindEach]
      exact .pure (fun _ _ => trivial) fun σ scopes => .nil
  | pattern :: rest, hexpected => by
      rw [bindEach]
      refine (ensures_bindPattern hfree pattern hexpected).bind hfree fun m _ hm _ => ?_
      refine (ensures_bindEach hfree rest (hexpected.of_le hm)).mono ?_
      rintro σ _ _ _ hrest _ hpattern
      exact .cons hpattern hrest

theorem ensures_bindAll (hfree : setting.aliases.VarFree) {n : Nat} :
    (patterns : List Pattern) → {types : List Ty} → (∀ t ∈ types, t.Below n) →
      (setting.bindAll patterns types).Ensures setting.aliases n (fun _ _ => True)
        fun σ before after _ => patterns.length ≤ types.length →
          setting.MatchesAllUnder σ before after patterns
            (Ty.substAll σ (types.take patterns.length))
  | pattern :: rest, expected :: types, htypes => by
      rw [bindAll]
      rw [List.forall_mem_cons] at htypes
      refine (ensures_bindPattern hfree pattern htypes.1).bind hfree fun m _ hm _ => ?_
      refine (ensures_bindAll hfree rest fun t ht => (htypes.2 t ht).of_le hm).mono ?_
      rintro σ _ _ _ hrest _ hpattern hlength
      exact .cons hpattern (hrest (Nat.le_of_succ_le_succ hlength))
  | [], types, _ => by
      rw [bindAll]
      · exact .pure (fun _ _ => trivial) fun σ scopes _ => .nil
      · simp
  | _ :: _, [], _ => by
      rw [bindAll]
      · refine .pure (fun _ _ => trivial) ?_
        intro σ scopes hlength
        cases hlength
      · simp

theorem ensures_bindParameters (hfree : setting.aliases.VarFree) :
    (patterns : List Pattern) → (n : Nat) →
      (setting.bindParameters patterns).Ensures setting.aliases n
        (fun m ts => ∀ t ∈ ts, t.Below m) fun σ before after ts =>
          setting.MatchesAllUnder σ before after patterns (Ty.substAll σ ts)
  | [], n => by
      rw [bindParameters]
      exact .pure (by simp) fun σ scopes => .nil
  | pattern :: rest, n => by
      rw [bindParameters]
      refine (ensures_fresh n).bind hfree fun m t _ ht => ?_
      refine (ensures_bindPattern hfree pattern ht).bind hfree fun m₂ _ h₂ _ => ?_
      refine (ensures_bindParameters hfree rest m₂).bind hfree fun k ts hk hts => ?_
      refine .pure ?_ ?_
      · intro l hl
        exact List.forall_mem_cons.mpr
          ⟨ht.of_le (Nat.le_trans h₂ (Nat.le_trans hk hl)), fun t' ht' => (hts t' ht').of_le hl⟩
      · rintro σ _ _ hrest _ hpattern _ rfl
        exact .cons hpattern hrest

end

end Setting

end Rubric
