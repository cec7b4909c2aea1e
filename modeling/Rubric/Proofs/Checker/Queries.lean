import Rubric.Proofs.Checker.Growth
import Rubric.Proofs.Checker.Shape

/-!
# The order in which expressions are typed

When a step of the checker succeeds, so have all calls inside it, and they were made for the
nodes of its part of the tree in the order of a walk. The sessions that the calls for expressions
leave lie between the first session and the last one. So a clause without errors has asked for the
type of every expression of its result once, in order, and got an answer each time.
-/

namespace Rubric

namespace Setting

open Check

variable (setting : Setting)

/-- Between two sessions there are calls for the given nodes, and those for expressions succeed. -/
structure Covers (before after : Session) (moments : List Moment) (nodes : List Node) : Prop where
  grows : before.Grows setting.aliases after
  order : moments.filterMap Moment.node? = nodes
  answered : ∀ query ∈ moments.filterMap Moment.query?, ∃ t seen,
    (setting.inferExpression query.expression).Gives query.session t seen ∧
      before.Grows setting.aliases seen ∧ seen.Grows setting.aliases after

namespace Covers

variable {setting} {before middle after : Session} {moments moments' : List Moment}
  {nodes nodes' : List Node}

theorem nil (h : before.Grows setting.aliases after) : setting.Covers before after [] [] where
  grows := h
  order := rfl
  answered := List.forall_mem_nil _

theorem between {first last : Session} (hfirst : first.Grows setting.aliases before)
    (h : setting.Covers before after moments nodes) (hlast : after.Grows setting.aliases last) :
    setting.Covers first last moments nodes where
  grows := (hfirst.trans h.grows).trans hlast
  order := h.order
  answered := by
    intro query hquery
    obtain ⟨t, seen, hgives, hbefore, hafter⟩ := h.answered query hquery
    exact ⟨t, seen, hgives, hfirst.trans hbefore, hafter.trans hlast⟩

theorem append (h : setting.Covers before middle moments nodes)
    (h' : setting.Covers middle after moments' nodes') :
    setting.Covers before after (moments ++ moments') (nodes ++ nodes') where
  grows := h.grows.trans h'.grows
  order := by rw [List.filterMap_append, h.order, h'.order]
  answered := by
    rw [List.filterMap_append]
    exact List.forall_mem_append.mpr
      ⟨(h.between .refl h'.grows).answered, (h'.between h.grows .refl).answered⟩

/-- A call for a node that succeeds. -/
theorem call {α : Type} {step : Check α} {a : α} {call : Call} (hcall : Calls setting call step)
    (h : step.Gives before a after) (hinside : setting.Covers before after moments nodes) :
    setting.Covers before after (⟨call, before⟩ :: moments) (call.node?.toList ++ nodes) := by
  cases hcall with
  | expression e =>
      refine ⟨hinside.grows, congrArg (Node.expression e :: ·) hinside.order, ?_⟩
      exact List.forall_mem_cons.mpr ⟨⟨a, after, h, hinside.grows, .refl⟩, hinside.answered⟩
  | primitive p =>
      exact ⟨hinside.grows, congrArg (Node.primitive p :: ·) hinside.order, hinside.answered⟩
  | pattern p expected =>
      exact ⟨hinside.grows, congrArg (Node.pattern p :: ·) hinside.order, hinside.answered⟩

end Covers

end Setting

open Check

variable {setting : Setting} {known : List Ty} {watch : Watch} {nodes : List Node}

/-- The calls of a step that succeeds. -/
theorem Check.Follows.covers {α : Type} [Holds α] {step : Check α}
    (h : step.Follows setting known watch nodes) :
    ∀ (p : Point) (a : α) (after : Session), step.Gives p.session a after →
      setting.Covers p.session after (Mark.moments (watch p)) nodes := by
  induction h with
  | pure _ => exact fun p a after h => .nil (Extends.pure _ _ _ _ h)
  | throw _ => exact fun p a after h => (gives_throw.mp h).elim
  | freshVar =>
      intro p a after h
      obtain ⟨_, rfl⟩ := gives_freshVar.mp h
      exact .nil (.of_same rfl rfl)
  | freshNumeric => exact fun p a after h => .nil (extends_freshNumeric _ _ _ h)
  | unnamed _ | named _ => exact fun p a after h => .nil (extends_lowering _ _ _ _ _ h)
  | resolve _ => exact fun p a after h => .nil (extends_resolve _ _ _ _ h)
  | bindName _ => exact fun p a after h => .nil (extends_bindName _ _ _ _ _ h)
  | constrain _ _ =>
      exact fun p a after h =>
        ⟨extends_constrain _ _ _ _ _ h, rfl, List.forall_mem_nil _⟩
  | bind _ _ ih ihnext =>
      intro p b after h
      obtain ⟨a, middle, hfirst, hsecond⟩ := gives_bind.mp h
      let reached : Point := ⟨p.aliases, middle, Holds.types a ++ p.types, p.recorded⟩
      have hnext := ihnext a ⟨_, _, hfirst⟩ reached b after hsecond
      unfold watched
      rw [hfirst.upon_eq, arrived_eq hfirst, Mark.moments_append, Mark.moments_point]
      exact (ih p a middle hfirst).append hnext
  | last _ _ ih ihnext =>
      intro p b after h
      obtain ⟨a, middle, hfirst, hsecond⟩ := gives_bind.mp h
      let reached : Point := ⟨p.aliases, middle, Holds.types a ++ p.types, p.recorded⟩
      have hnext := ihnext a ⟨_, _, hfirst⟩ reached b after hsecond
      exact (ih p a middle hfirst).between .refl hnext.grows
  | look _ _ _ ih => exact fun p a after h => ih p.session p a after (gives_get_bind.mp h)
  | inContext _ _ ih => exact fun p a after h => ih p a after (gives_inContext.mp h)
  | inNewScope _ ih =>
      intro p a after h
      obtain ⟨inside, hinside, rfl⟩ := gives_inNewScope.mp h
      let opened : Point := { p with session := { p.session with scopes := p.session.scopes.push } }
      have hpush : p.session.Grows setting.aliases opened.session := .of_same rfl rfl
      exact (ih opened a inside hinside).between hpush (.of_same rfl rfl)
  | within hcall _ _ ih => exact fun p a after h => .call hcall h (ih p a after h)
  | expanding _ _ ih => exact ih

/-- The calls of a step that reports no errors. -/
theorem Setting.Reports.covers {record : TypeError → Diagnostic}
    {step : StateM Session (List TypeError)} (h : setting.Reports record known step watch nodes) :
    ∀ (p : Point) (after : Session), step.run p.session = ([], after) →
      setting.Covers p.session after (Mark.moments (watch p)) nodes := by
  induction h with
  | nothing =>
      intro p after h
      cases h
      exact .nil .refl
  | refused _ =>
      intro p after h
      cases h
  | @tried step _ _ _ _ _ hstep _ ih =>
      intro p after h
      obtain ⟨hnone, hrest⟩ := Prod.ext_iff.mp h
      obtain ⟨hfirst, hsecond⟩ := List.append_eq_nil_iff.mp hnone
      have hgives := failure_eq_nil.mp (Prod.ext hfirst rfl)
      unfold Check.tried
      rw [Mark.moments_append]
      exact (hstep.covers p () _ hgives).append
        (ih (p.concluded record step) after (Prod.ext hsecond hrest))
  | @required step _ _ _ _ _ hstep _ ih =>
      intro p after h
      obtain ⟨middle, hgives, hrest⟩ := reporting_eq_nil.mp h
      have hsession : (p.concluded record step).session = middle :=
        congrArg Prod.snd (failure_eq_nil.mpr hgives)
      unfold Check.required
      rw [hgives.upon_eq, Mark.moments_append]
      refine (hstep.covers p () middle hgives).append ?_
      rw [← hsession]
      exact ih (p.concluded record step) after (hsession.symm ▸ hrest)

namespace Setting

variable (setting : Setting)

theorem map_expression_query (moments : List Moment) :
    (moments.filterMap Moment.query?).map Query.expression =
      (moments.filterMap Moment.node?).filterMap Node.asExpression? := by
  rw [List.map_filterMap, List.filterMap_filterMap]
  congr 1
  funext moment
  obtain ⟨call, session⟩ := moment
  cases call <;> rfl

/-- A clause without errors has called the checker on all its nodes. -/
theorem nodes_clauseTrace {signature : Signature} {clause : Clause} {session after : Session}
    (h : (setting.checkClause signature clause).run session = ([], after)) :
    (setting.clauseTrace signature clause session).filterMap Moment.node? =
      Node.typedNodesOf
        (clause.parameters.map .pattern ++ clause.result.typed.map .expression) := by
  obtain ⟨⟨⟨inputs, output⟩, naming⟩, hlower⟩ :
      ∃ lowered, signature.lower.run ⟨{}, session.next⟩ = lowered := ⟨_, rfl⟩
  rw [setting.run_checkClause signature clause session hlower] at h
  let p := setting.pointAt session
  have hgives : (lowering {} signature.lower).Gives p.opened.session _ _ := gives_signature hlower
  have hsignature := (follows_signature setting signature []).covers p.opened _ _ hgives
  have hclause := (setting.reports_clause (Diagnostic.mk signature.name.value 1 signature.name.loc)
    clause inputs output).covers ((lowering {} signature.lower).arrived p.opened) after (by
      rw [arrived_eq hgives]
      exact h)
  unfold clauseTrace
  rw [setting.clauseWatch_eq _ clause hlower, Mark.moments_point, Mark.moments_append,
    Mark.moments_point, List.filterMap_append, hsignature.order, hclause.order, List.nil_append]

/-- A clause without errors has asked for all expressions of its result, and got answers. -/
theorem covers_clause {signature : Signature} {clause : Clause} {session after : Session}
    (h : (setting.checkClause signature clause).run session = ([], after)) :
    (setting.clauseQueries signature clause session).map Query.expression =
      Node.expressionsOf (clause.result.typed.map .expression) ∧
    ∀ query ∈ setting.clauseQueries signature clause session, ∃ t seen,
      (setting.inferExpression query.expression).Gives query.session t seen ∧
        session.Grows setting.aliases seen ∧ seen.Grows setting.aliases after := by
  obtain ⟨⟨⟨inputs, output⟩, naming⟩, hlower⟩ :
      ∃ lowered, signature.lower.run ⟨{}, session.next⟩ = lowered := ⟨_, rfl⟩
  obtain ⟨hlength, hgives⟩ := (setting.run_checkClause_eq_nil hlower).mp h
  obtain ⟨_, middle, hbind, hresult⟩ := gives_bind.mp hgives
  let start : Session := { session with scopes := .empty, next := naming.next }
  let expected : Ty := .curried (inputs.drop clause.parameters.length) output
  let record := Diagnostic.mk signature.name.value 1 signature.name.loc
  have hstart : session.Grows setting.aliases start := .of_same rfl rfl
  have hinputs : Holds.MadeFrom inputs inputs := fun _ => Ty.madeFrom_of_mem
  have hparameters := ((setting.follows_row clause.parameters inputs inputs hlength hinputs).covers
    (setting.pointAt start) () middle hbind).grows
  have hexpected : expected.MadeFrom [expected] := Ty.madeFrom_of_mem List.mem_cons_self
  have hcovers := ((setting.reports_result record clause.result hexpected).covers
    (setting.pointAt middle) after (setting.checkResult_eq_nil.mpr hresult)).between
      (hstart.trans hparameters) .refl
  unfold clauseQueries
  rw [hlower]
  dsimp only
  rw [hbind.upon_eq]
  refine ⟨?_, hcovers.answered⟩
  rw [map_expression_query, hcovers.order, Node.filterMap_typedNodesOf]

end Setting

end Rubric
