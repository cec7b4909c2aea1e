import Rubric.Proofs.Checker.Queries

/-!
# Operands and the domains of operators

Arithmetic, bitwise operations and joining restrict the types of their operands. The
operator looks at the type of its operands once, when they have just been equated. A type
that is known by then is in the domain and stays in it, since later equations only solve
variables. A variable is let through, and nothing remembers the restriction. The variable
of a numeric literal still becomes a number or stays a variable, because the literal is
remembered; any other variable can become any type afterwards.
-/

namespace Rubric

/-! ## An example

The argument of a function is added to itself, once in a lambda and once in a clause with
a parameter:

    double : T -> T
    double = \x -> x + x
    double x = x + x
-/

namespace Doubling

def signature (kind : String) : Signature where
  name := ⟨"double", none, {}⟩
  inputs := [.con kind]
  output := .con kind

def setting : Setting where
  aliases := .ofList [("Amount", .con "Int")]

def argument : Pattern :=
  .var ⟨"x", none, {}⟩

def sum : Expression :=
  .binary (.arithmetic .add) (.ofName "x") (.ofName "x")

def byLambda : Clause :=
  .ofExpression [] (.lambda [argument] sum)

def byParameter : Clause :=
  .ofExpression [argument] sum

end Doubling

namespace Setting

open Check

variable (setting : Setting)

/-! ## Restrictions -/

/-- The operands of a query for a restricted operation, and the types that it allows. -/
def restricted? (query : Query) : Option (Expression × Expression × (Ty → Bool)) :=
  match query.expression with
  | .operation ⟨.arithmetic _, left, right, _⟩ => some (left, right, isOneOf Ty.numericKinds)
  | .operation ⟨.bitwise _, left, right, _⟩ => some (left, right, isOneOf Ty.integralKinds)
  | .operation ⟨.concat, left, right, _⟩ => some (left, right, isJoinable)
  | .infixed operator left right =>
      if operator.value = "++" && !setting.declares query.session.scopes operator.value then
        some (left, right, isJoinable)
      else none
  | _ => none

/-- The left operand of a query gets a type, and the type of the right one is equated with
it. The last session is the one in which the operator looks at that type. -/
def Sees (query : Query) (left right : Expression) (t : Ty) (seen : Session) : Prop :=
  ∃ rightType s₁ s₂, (setting.inferExpression left).Gives query.session t s₁ ∧
    (setting.inferExpression right).Gives s₁ rightType s₂ ∧
    (setting.constrain t rightType).Gives s₂ () seen

theorem Sees.unique {setting : Setting} {query : Query} {left right : Expression} {t t' : Ty}
    {seen seen' : Session} (h : setting.Sees query left right t seen)
    (h' : setting.Sees query left right t' seen') : t = t' ∧ seen = seen' := by
  obtain ⟨rightType, s₁, s₂, hleft, hright, hequal⟩ := h
  obtain ⟨rightType', s₁', s₂', hleft', hright', hequal'⟩ := h'
  obtain ⟨rfl, rfl⟩ := hleft.unique hleft'
  obtain ⟨rfl, rfl⟩ := hright.unique hright'
  obtain ⟨_, rfl⟩ := hequal.unique hequal'
  exact ⟨rfl, rfl⟩

/-- A type is a variable or allowed, after alias expansion. -/
def Admits (allowed : Ty → Bool) (t : Ty) : Prop :=
  (setting.aliases.expand t).isVar = true ∨ allowed (setting.aliases.expand t) = true

theorem sees_of_uniform {query : Query} {left right : Expression} {leftType rightType t : Ty}
    {s₁ s₂ after : Session} {context operator : String} {allowed : Ty → Bool}
    (hleft : (setting.inferExpression left).Gives query.session leftType s₁)
    (hright : (setting.inferExpression right).Gives s₁ rightType s₂)
    (h : (do
      setting.constrainIn context leftType rightType
      setting.checkOperand operator leftType allowed : Check Ty).Gives s₂ t after) :
    setting.Sees query left right leftType after ∧
      setting.Admits allowed (after.subst.apply leftType) := by
  obtain ⟨_, middle, hequal, hcheck⟩ := gives_bind.mp h
  obtain ⟨⟨rfl, rfl⟩, hadmits⟩ := setting.gives_checkOperand.mp hcheck
  exact ⟨⟨rightType, s₁, s₂, hleft, hright, gives_inContext.mp hequal⟩, hadmits⟩

theorem sees_of_restricted {query : Query} {left right : Expression} {allowed : Ty → Bool}
    (hrestricted : setting.restricted? query = some (left, right, allowed)) {t : Ty}
    {after : Session} (h : (setting.inferExpression query.expression).Gives query.session t after) :
    ∃ operand, setting.Sees query left right operand after ∧
      setting.Admits allowed (after.subst.apply operand) := by
  obtain ⟨e, session⟩ := query
  cases e with
  | operation o =>
      obtain ⟨operator, left', right', loc⟩ := o
      rw [inferExpression, inferOperation] at h
      obtain ⟨leftType, s₁, hleft, hrest⟩ := gives_bind.mp h
      obtain ⟨rightType, s₂, hright, hoperated⟩ := gives_bind.mp hrest
      cases operator with
      | arithmetic operator | bitwise operator | concat =>
          cases hrestricted
          exact ⟨leftType, setting.sees_of_uniform hleft hright hoperated⟩
      | comparison operator | logical operator => cases hrestricted
  | infixed operator left' right' =>
      unfold restricted? at hrestricted
      dsimp only at hrestricted
      rw [inferExpression, gives_get_bind] at h
      split at hrestricted
      · next hjoin =>
          cases hrestricted
          rw [if_pos hjoin] at h
          obtain ⟨leftType, s₁, hleft, hrest⟩ := gives_bind.mp h
          obtain ⟨rightType, s₂, hright, hjoined⟩ := gives_bind.mp hrest
          exact ⟨leftType, setting.sees_of_uniform hleft hright hjoined⟩
      · cases hrestricted
  | _ => cases hrestricted

/-! ## Known operands -/

/-- Types are allowed for their name or for being lists. -/
def HeadOnly (allowed : Ty → Bool) : Prop :=
  ∀ t, allowed t = true →
    (∃ name, t = .con name) ∨ ((∃ element, t = .list element) ∧ ∀ element, allowed (.list element))

theorem headOnly_isOneOf (names : List String) : HeadOnly (isOneOf names) := by
  intro t ht
  cases t with
  | con name => exact .inl ⟨name, rfl⟩
  | _ => simp [isOneOf] at ht

theorem headOnly_isJoinable : HeadOnly isJoinable := by
  intro t ht
  cases t with
  | con name => exact .inl ⟨name, rfl⟩
  | list element => exact .inr ⟨⟨element, rfl⟩, fun _ => rfl⟩
  | _ => simp [isJoinable] at ht

theorem headOnly_of_restricted {query : Query} {left right : Expression} {allowed : Ty → Bool}
    (h : setting.restricted? query = some (left, right, allowed)) : HeadOnly allowed := by
  unfold restricted? at h
  split at h
  · cases h
    exact headOnly_isOneOf _
  · cases h
    exact headOnly_isOneOf _
  · cases h
    exact headOnly_isJoinable
  · split at h
    · cases h
      exact headOnly_isJoinable
    · cases h
  · cases h

/-- A type that is allowed stays allowed when its variables are solved. -/
theorem allowed_apply {allowed : Ty → Bool} (hallowed : HeadOnly allowed) {t : Ty}
    (h : allowed (setting.aliases.expand t) = true) (s : Substitution) :
    allowed (setting.aliases.expand (s.apply t)) = true := by
  have hhead := hallowed _ h
  cases t with
  | con name => exact h
  | list element =>
      have hlist : ∀ u, setting.aliases.expand (.list u) = .list u :=
        fun u => Aliases.expand_of_unfoldHead rfl
      rw [hlist] at hhead
      show allowed (setting.aliases.expand (.list (s.apply element))) = true
      rw [hlist]
      cases hhead with
      | inl hname =>
          obtain ⟨name, hname⟩ := hname
          cases hname
      | inr hlists => exact hlists.2 _
  | app base args =>
      obtain ⟨base', hbase⟩ := setting.aliases.expand_app base args
      rw [hbase] at hhead
      simp at hhead
  | _ =>
      rw [Aliases.expand_of_unfoldHead rfl] at hhead
      simp at hhead

theorem admits_of_mayBeNumeric {t : Ty} (h : Session.mayBeNumeric setting.aliases t = true) :
    setting.Admits (isOneOf Ty.numericKinds) t := by
  unfold Session.mayBeNumeric at h
  unfold Admits
  split at h
  · next hexpand => exact .inl (by rw [hexpand]; rfl)
  · next hexpand => exact .inr (by rw [hexpand]; exact h)
  · cases h

/-- What an operator has seen of the type of an operand, and what this means for the type
in a later session. -/
structure Upholds (allowed : Ty → Bool) (t : Ty) (seen after : Session) : Prop where
  admits : setting.Admits allowed (seen.subst.apply t)
  known : (setting.aliases.expand (seen.subst.apply t)).isVar = false →
    allowed (setting.aliases.expand (after.subst.apply (seen.subst.apply t))) = true
  resolved : setting.aliases.VarFree →
    after.subst.apply (seen.subst.apply t) = after.subst.apply t
  literal : setting.aliases.VarFree → ∀ v ∈ seen.numeric,
    seen.subst.apply (.var v) = seen.subst.apply t →
      setting.Admits (isOneOf Ty.numericKinds) (after.subst.apply t)

theorem upholds_of_grows {query : Query} {left right : Expression} {allowed : Ty → Bool}
    (hallowed : HeadOnly allowed) {t : Ty} {seen after : Session}
    (hsees : setting.Sees query left right t seen)
    (hadmits : setting.Admits allowed (seen.subst.apply t))
    (hsolved : setting.aliases.VarFree → seen.subst.Idempotent)
    (hgrows : seen.Grows setting.aliases after) : setting.Upholds allowed t seen after := by
  have hresolved : setting.aliases.VarFree → ∀ u,
      after.subst.apply (seen.subst.apply u) = after.subst.apply u :=
    fun hfree => hgrows.apply_apply hfree (hsolved hfree)
  refine ⟨hadmits, ?_, fun hfree => hresolved hfree t, ?_⟩
  · intro hknown
    refine setting.allowed_apply hallowed (hadmits.resolve_left ?_) _
    simp [hknown]
  · intro hfree v hv hsame
    -- The equation of the two operands has looked at every literal so far.
    obtain ⟨_, _, _, _, _, hequal⟩ := hsees
    obtain ⟨subst, hequate, rfl⟩ := gives_constrain.mp hequal
    obtain ⟨_, _, _, hlooked⟩ := Session.equate_eq_ok.mp hequate
    have hnumeric := setting.admits_of_mayBeNumeric (hgrows.mayBeNumeric hlooked v hv)
    rwa [← hresolved hfree, hsame, hresolved hfree] at hnumeric

/-- In a clause without errors every expression of the result was asked for in order. Every
restricted operation among them saw a variable or a type of its domain. If it was no
variable, or that of a numeric literal, the equations of the whole clause uphold this. -/
theorem known_operands_in_domain (signature : Signature) (clause : Clause)
    (session after : Session)
    (h : (setting.checkClause signature clause).run session.reset = ([], after)) :
    (setting.clauseQueries signature clause session.reset).map Query.expression =
      Node.expressionsOf (clause.result.typed.map .expression) ∧
    ∀ query ∈ setting.clauseQueries signature clause session.reset, ∀ left right allowed,
      setting.restricted? query = some (left, right, allowed) →
        (∃ t seen, setting.Sees query left right t seen) ∧
        ∀ t seen, setting.Sees query left right t seen →
          setting.Upholds allowed t seen after := by
  obtain ⟨horder, hanswered⟩ := setting.covers_clause h
  refine ⟨horder, ?_⟩
  intro query hquery left right allowed hrestricted
  obtain ⟨_, seen, hinfer, hbefore, hafter⟩ := hanswered query hquery
  obtain ⟨t, hsees, hadmits⟩ := setting.sees_of_restricted hrestricted hinfer
  refine ⟨⟨t, seen, hsees⟩, ?_⟩
  intro t' seen' hsees'
  obtain ⟨rfl, rfl⟩ := hsees.unique hsees'
  exact setting.upholds_of_grows (setting.headOnly_of_restricted hrestricted) hsees hadmits
    (fun hfree => hbefore.accepts.idempotent hfree Substitution.idempotent_empty) hafter

/-- An operand of a type that an alias stands for. -/
theorem known_operands_in_domain_alias :
    ∃ after query t seen,
      (Doubling.setting.checkClause (Doubling.signature "Amount") Doubling.byParameter).run
        (Session.reset {}) = ([], after) ∧
      query ∈ Doubling.setting.clauseQueries (Doubling.signature "Amount") Doubling.byParameter
        (Session.reset {}) ∧
      Doubling.setting.restricted? query =
        some (.ofName "x", .ofName "x", isOneOf Ty.numericKinds) ∧
      Doubling.setting.Sees query (.ofName "x") (.ofName "x") t seen ∧
      Doubling.setting.aliases.VarFree ∧ (seen.subst.apply t).isVar = false ∧
      isOneOf Ty.numericKinds (Doubling.setting.aliases.expand (after.subst.apply t)) = true := by
  let session : Session := { scopes := Scopes.empty.insert "x" (.con "Amount") }
  have hx : (Doubling.setting.inferExpression (.ofName "x")).Gives session (.con "Amount")
      session := (rfl : runOn _ _ = _)
  have hequal : (Doubling.setting.constrain (.con "Amount") (.con "Amount")).Gives session ()
      session := (rfl : runOn _ _ = _)
  have hsees : Doubling.setting.Sees ⟨Doubling.sum, session⟩ (.ofName "x") (.ofName "x")
      (.con "Amount") session := ⟨_, session, session, hx, hx, hequal⟩
  have hmem : ⟨Doubling.sum, session⟩ ∈ Doubling.setting.clauseQueries
      (Doubling.signature "Amount") Doubling.byParameter (Session.reset {}) :=
    List.mem_of_getElem? (i := 0) rfl
  have hfree : Doubling.setting.aliases.VarFree := Aliases.varFree_empty.insert Ty.all_con
  obtain ⟨after, hrun⟩ : ∃ after,
      (Doubling.setting.checkClause (Doubling.signature "Amount") Doubling.byParameter).run
        (Session.reset {}) = ([], after) := ⟨_, rfl⟩
  have hupholds := ((known_operands_in_domain _ _ _ _ _ hrun).2 _ hmem _ _ _ rfl).2 _ _ hsees
  have hknown := hupholds.known rfl
  rw [hupholds.resolved hfree] at hknown
  exact ⟨after, _, _, _, hrun, hmem, rfl, hsees, hfree, rfl, hknown⟩

/-- In the lambda the operator sees a variable, and the signature makes it a text. With the
parameter the type is known before, and the clause is refused. -/
theorem variable_operand_leaves_domain :
    ∃ after query t seen,
      (Doubling.setting.checkClause (Doubling.signature "String") Doubling.byLambda).run
        (Session.reset {}) = ([], after) ∧
      query ∈ Doubling.setting.clauseQueries (Doubling.signature "String") Doubling.byLambda
        (Session.reset {}) ∧
      Doubling.setting.restricted? query =
        some (.ofName "x", .ofName "x", isOneOf Ty.numericKinds) ∧
      Doubling.setting.Sees query (.ofName "x") (.ofName "x") t seen ∧
      Doubling.setting.aliases.expand (after.subst.apply t) = .string ∧
      isOneOf Ty.numericKinds .string = false ∧
      ((Doubling.setting.checkClause (Doubling.signature "String") Doubling.byParameter).run
        (Session.reset {})).1 = [.unsupportedOperand "+" .string] := by
  let session : Session := { next := 1, scopes := Scopes.empty.push.insert "x" (.var ⟨0, none⟩) }
  have hx : (Doubling.setting.inferExpression (.ofName "x")).Gives session (.var ⟨0, none⟩)
      session := (rfl : runOn _ _ = _)
  have hequal : (Doubling.setting.constrain (.var ⟨0, none⟩) (.var ⟨0, none⟩)).Gives session ()
      session := (rfl : runOn _ _ = _)
  have hmem : ⟨Doubling.sum, session⟩ ∈ Doubling.setting.clauseQueries
      (Doubling.signature "String") Doubling.byLambda (Session.reset {}) :=
    List.mem_of_getElem? (i := 1) rfl
  exact ⟨_, ⟨Doubling.sum, session⟩, .var ⟨0, none⟩, session, rfl, hmem, rfl,
    ⟨_, session, session, hx, hx, hequal⟩, rfl, rfl, rfl⟩

end Setting

end Rubric
