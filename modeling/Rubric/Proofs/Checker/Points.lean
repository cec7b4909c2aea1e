import Rubric.Proofs.Checker.History
import Rubric.Proofs.Checker.Shape

/-!
# Every point of a run is orderly

At every point of a run there is a ledger with all variables that exist then: those of the aliases,
of the session, of the types in hand and of the recorded diagnostics. A step leaves such a point,
whether it succeeds or fails, and comes to such points only. The session is orderly at the start
of every call and after it, and no numeric literal is forgotten on the way. The induction is over
the way in which steps are built, so nothing here depends on the forms of expressions.
-/

namespace Rubric

open Check Watch

namespace Point

variable {p : Point} {ledger : Ledger}

/-- Everything that exists at a point was issued. -/
structure On (p : Point) (ledger : Ledger) : Prop where
  orderly : p.session.Orderly p.aliases ledger
  types : ∀ t ∈ p.types, ledger.Types t
  recorded : ∀ diagnostic ∈ p.recorded, ledger.Errors diagnostic.error

theorem On.holding (h : p.On ledger) {types : List Ty} (htypes : ∀ t ∈ types, ledger.Types t) :
    (p.holding types).On ledger :=
  ⟨h.orderly, List.forall_mem_append.mpr ⟨htypes, h.types⟩, h.recorded⟩

/-- Some of the types in hand are dropped. -/
theorem On.dropping (h : p.On ledger) {types : List Ty} (hsubset : types ⊆ p.types) :
    Point.On { p with types := types } ledger :=
  ⟨h.orderly, fun t ht => h.types t (hsubset ht), h.recorded⟩

theorem On.released (h : p.On ledger) : p.released.On ledger :=
  h.dropping (List.nil_subset _)

end Point

theorem Ledger.types_of_madeFrom {ledger : Ledger} {known : List Ty} {t : Ty}
    (hknown : ∀ u ∈ known, ledger.Types u) (h : t.MadeFrom known) : ledger.Types t := by
  refine Ty.All.mono h fun v hv => ?_
  obtain ⟨u, hu, hv⟩ := hv
  exact hknown u hu v hv

/-! ## Passing through marks -/

namespace Setting

variable (setting : Setting)

/-- The session is orderly when a call starts and when it is over, and the types that the
call is given were issued. -/
def OrderlyAt (moment : Moment) : Prop :=
  ∃ ledger later : Ledger, moment.session.Orderly setting.aliases ledger ∧
    (∀ t ∈ moment.call.types, ledger.Types t) ∧ ledger <+: later ∧
    (setting.outcome moment).Orderly setting.aliases later

/-- A run comes from one session to another through some marks. -/
structure Passes (before : Session) (marks : List Mark) (after : Session) : Prop where
  numeric : before.numeric ⊆ after.numeric
  points : ∀ mark ∈ marks, ∃ ledger, mark.point.On ledger
  calls : ∀ moment ∈ Mark.moments marks, setting.OrderlyAt moment ∧
    (setting.outcome moment).numeric ⊆ after.numeric

namespace Passes

variable {setting} {before middle after : Session} {marks marks' : List Mark} {p : Point}

theorem nil (h : before.numeric ⊆ after.numeric) : setting.Passes before [] after :=
  ⟨h, List.forall_mem_nil _, List.forall_mem_nil _⟩

theorem point (hp : ∃ ledger, p.On ledger) (h : setting.Passes before marks after) :
    setting.Passes before (⟨p, none⟩ :: marks) after :=
  ⟨h.numeric, List.forall_mem_cons.mpr ⟨hp, h.points⟩, h.calls⟩

theorem call {call : Call} (hp : ∃ ledger, p.On ledger)
    (hcall : setting.OrderlyAt ⟨call, p.session⟩)
    (hnumeric : (setting.outcome ⟨call, p.session⟩).numeric ⊆ after.numeric)
    (h : setting.Passes before marks after) :
    setting.Passes before (⟨p, some call⟩ :: marks) after :=
  ⟨h.numeric, List.forall_mem_cons.mpr ⟨hp, h.points⟩,
    List.forall_mem_cons.mpr ⟨⟨hcall, hnumeric⟩, h.calls⟩⟩

theorem append (h : setting.Passes before marks middle)
    (h' : setting.Passes middle marks' after) :
    setting.Passes before (marks ++ marks') after where
  numeric := List.Subset.trans h.numeric h'.numeric
  points := List.forall_mem_append.mpr ⟨h.points, h'.points⟩
  calls := by
    rw [Mark.moments_append]
    refine List.forall_mem_append.mpr ⟨?_, h'.calls⟩
    intro moment hmoment
    obtain ⟨horderly, hnumeric⟩ := h.calls moment hmoment
    exact ⟨horderly, List.Subset.trans hnumeric h'.numeric⟩

theorem upTo (h : setting.Passes before marks middle) (hnumeric : middle.numeric ⊆ after.numeric) :
    setting.Passes before marks after := by
  have hall := h.append (.nil hnumeric)
  rwa [List.append_nil] at hall

end Passes

end Setting

namespace Check

variable {α β : Type} [Holds α] [Holds β] {setting : Setting} {known : List Ty} {step : Check α}
  {watch : Watch} {p : Point} {ledger : Ledger}

/-- From any point on a ledger with the types in hand, a step comes through its watch to a point on
a longer ledger. -/
def Settles (setting : Setting) (known : List Ty) (step : Check α) (watch : Watch) : Prop :=
  ∀ (p : Point) (ledger : Ledger), p.aliases = setting.aliases →
    (∀ t ∈ known, ledger.Types t) → p.On ledger →
      ∃ later : Ledger, ledger <+: later ∧ (step.arrived p).On later ∧
        setting.Passes p.session (watch p) (runOn step p.session).2

/-- A step that always succeeds and has nothing to watch. -/
theorem settles_of_gives (h : ∀ session (ledger : Ledger), (∀ t ∈ known, ledger.Types t) →
      session.Orderly setting.aliases ledger → ∃ (a : α) (after : Session) (later : Ledger),
        step.Gives session a after ∧ ledger <+: later ∧ after.Orderly setting.aliases later ∧
        session.numeric ⊆ after.numeric ∧ ∀ t ∈ Holds.types a, later.Types t) :
    step.Settles setting known silent := by
  intro p ledger haliases hknown hp
  have horderly := hp.orderly
  rw [haliases] at horderly
  obtain ⟨a, after, later, hgives, hle, hafter, hnumeric, ha⟩ := h p.session ledger hknown horderly
  have htypes : ∀ t ∈ p.types, later.Types t := fun t ht => (hp.types t ht).mono hle
  refine ⟨later, hle, ?_, ?_⟩
  · rw [arrived_eq hgives]
    rw [← haliases] at hafter
    exact ⟨hafter, List.forall_mem_append.mpr ⟨ha, htypes⟩,
      fun diagnostic hd => (hp.recorded diagnostic hd).mono hle⟩
  · rw [show runOn step p.session = (.ok a, after) from hgives]
    exact .nil hnumeric

theorem settles_freshVar : freshVar.Settles setting known silent := by
  refine settles_of_gives fun session ledger _ horderly => ?_
  have hle : ledger <+: ledger ++ [none] := List.prefix_append _ _
  have hafter := horderly.advance hle
  rw [← ledger.length_issued none, ← horderly.next] at hafter
  have hv := ledger.types_issued
  rw [← horderly.next] at hv
  exact ⟨_, _, _, gives_freshVar.mpr ⟨rfl, rfl⟩, hle, hafter, List.Subset.refl _,
    List.forall_mem_singleton.mpr hv⟩

theorem settles_freshNumeric : freshNumeric.Settles setting known silent := by
  refine settles_of_gives fun session ledger _ horderly => ?_
  have ht := ledger.types_issued
  rw [← horderly.next] at ht
  exact ⟨_, _, _, gives_freshNumeric.mpr ⟨rfl, rfl⟩, List.prefix_append _ _, horderly.literal,
    List.subset_cons_self _ _, List.forall_mem_singleton.mpr ht⟩

theorem settles_lowering {names : Table String TypeVar} {term : StateM Naming TypeVar}
    (hterm : ∀ first : Ledger, first.Issues term Ledger.Has)
    (hnames : Holds.MadeFrom known names) :
    (lowering names term).Settles setting known silent := by
  refine settles_of_gives fun session ledger hknown horderly => ?_
  have hmatches : ledger.Matches ⟨names, session.next⟩ := by
    refine ⟨horderly.next, fun name v hv => ?_⟩
    have hmem : Ty.var v ∈ Holds.types names :=
      List.mem_map_of_mem (Table.mem_values_iff.mpr ⟨name, hv⟩)
    exact Ty.all_var.mp (Ledger.types_of_madeFrom hknown (hnames _ hmem))
  obtain ⟨later, hle, hmatches', hv⟩ := hterm ledger _ ledger List.prefix_rfl hmatches
  have hafter := horderly.advance hle
  rw [← hmatches'.next] at hafter
  refine ⟨_, _, later, gives_lowering.mpr ⟨rfl, rfl⟩, hle, hafter, List.Subset.refl _, ?_⟩
  refine List.forall_mem_append.mpr ⟨List.forall_mem_singleton.mpr (Ty.all_var.mpr hv), ?_⟩
  intro t ht
  obtain ⟨w, hw, rfl⟩ := List.mem_map.mp ht
  obtain ⟨name, hname⟩ := Table.mem_values_iff.mp hw
  exact Ty.all_var.mpr (hmatches'.names name w hname)

/-- A step and what follows it. The watch of what follows starts where the step has arrived. -/
theorem Settles.sequence {next : α → Check β} {nextWatch : α → Watch}
    (hstep : step.Settles setting known watch)
    (hnext : ∀ a, step.MayGive a →
      (next a).Settles setting (Holds.types a ++ known) (nextWatch a))
    (haliases : p.aliases = setting.aliases) (hknown : ∀ t ∈ known, ledger.Types t)
    (hp : p.On ledger) :
    ∃ later : Ledger, ledger <+: later ∧ ((step >>= next).arrived p).On later ∧
      ∃ middle, setting.Passes p.session (watch p) middle ∧
        setting.Passes middle (⟨step.arrived p, none⟩ ::
          step.upon p.session fun a _ => nextWatch a (step.arrived p))
          (runOn (step >>= next) p.session).2 := by
  obtain ⟨middle, hle, harrived, hpasses⟩ := hstep p ledger haliases hknown hp
  have hbind := runOn_bind step next p.session
  rcases hrun : runOn step p.session with ⟨outcome, session⟩
  rw [hrun] at hpasses hbind
  cases outcome with
  | error error =>
      refine ⟨middle, hle, ?_, session, hpasses, .point ⟨middle, harrived⟩ ?_⟩
      · rw [arrived_error hbind, ← arrived_error hrun]
        exact harrived
      · rw [hbind]
        unfold upon
        rw [hrun]
        exact .nil (List.Subset.refl _)
  | ok a =>
      have hgives : step.Gives p.session a session := hrun
      let reached : Point := ⟨p.aliases, session, Holds.types a ++ p.types, p.recorded⟩
      have heq : step.arrived p = reached := arrived_eq hgives
      rw [heq] at harrived ⊢
      have hhand : ∀ t ∈ Holds.types a ++ known, middle.Types t :=
        List.forall_mem_append.mpr ⟨(List.forall_mem_append.mp harrived.types).1,
          fun t ht => (hknown t ht).mono hle⟩
      obtain ⟨later, hle', hlater, hpasses'⟩ :=
        hnext a ⟨_, _, hgives⟩ reached middle haliases hhand harrived
      have hdrop : ∀ types : List Ty, types ++ p.types ⊆ types ++ reached.types := fun types =>
        List.append_subset.mpr ⟨List.subset_append_left _ _,
          List.Subset.trans (List.subset_append_right _ _) (List.subset_append_right _ _)⟩
      refine ⟨later, hle.trans hle', ?_, session, hpasses, ?_⟩
      · rcases hrun' : runOn (next a) session with ⟨outcome', after⟩
        cases outcome' with
        | ok b =>
            rw [arrived_eq (p := p) (hbind.trans hrun')]
            rw [arrived_eq (p := reached) hrun'] at hlater
            exact hlater.dropping (hdrop _)
        | error error =>
            rw [arrived_error (p := p) (hbind.trans hrun')]
            rw [arrived_error (p := reached) hrun'] at hlater
            exact hlater.dropping (hdrop _)
      · rw [hbind, hgives.upon_eq]
        exact .point ⟨middle, harrived⟩ hpasses'

theorem arrived_inNewScope (step : Check α) (p : Point) :
    (inNewScope step).arrived p =
      { step.arrived { p with session := { p.session with scopes := p.session.scopes.push } } with
        session := { (runOn step { p.session with scopes := p.session.scopes.push }).2 with
          scopes := p.session.scopes } } := by
  have hrun : runOn (inNewScope step) p.session =
      ((runOn step { p.session with scopes := p.session.scopes.push }).1,
        { (runOn step { p.session with scopes := p.session.scopes.push }).2 with
          scopes := p.session.scopes }) := rfl
  unfold arrived
  rw [hrun]
  rcases runOn step { p.session with scopes := p.session.scopes.push } with ⟨outcome, after⟩
  cases outcome <;> rfl

/-- The names from before the scope are on the longer ledger too. -/
theorem Settles.inNewScope (hstep : step.Settles setting known watch) :
    (Check.inNewScope step).Settles setting known (Watch.inNewScope watch) := by
  intro p ledger haliases hknown hp
  let pushed : Point := { p with session := { p.session with scopes := p.session.scopes.push } }
  have hpushed : pushed.On ledger :=
    ⟨hp.orderly.rescope hp.orderly.scopes.push, hp.types, hp.recorded⟩
  obtain ⟨later, hle, hlater, hpasses⟩ := hstep pushed ledger haliases hknown hpushed
  have hscopes : p.session.scopes.All later.Has :=
    hp.orderly.scopes.mono fun _ hv => hv.mono hle
  have horderly := hlater.orderly.rescope hscopes
  rw [session_arrived] at horderly
  refine ⟨later, hle, ?_, .point ⟨ledger, hpushed⟩
    ⟨hpasses.numeric, hpasses.points, hpasses.calls⟩⟩
  rw [arrived_inNewScope]
  exact ⟨horderly, hlater.types, hlater.recorded⟩

omit [Holds α] in
theorem Calls.outcome_eq {call : Call} (h : Calls setting call step) (session : Session) :
    setting.outcome ⟨call, session⟩ = (runOn step session).2 := by
  cases h <;> rfl

theorem Settles.within {call : Call} (hstep : step.Settles setting known watch)
    (hcall : Calls setting call step) (htypes : ∀ t ∈ call.types, t.MadeFrom known) :
    step.Settles setting known (Watch.within call watch) := by
  intro p ledger haliases hknown hp
  obtain ⟨later, hle, hlater, hpasses⟩ := hstep p ledger haliases hknown hp
  have hgiven := fun t ht => Ledger.types_of_madeFrom hknown (htypes t ht)
  have hbefore := hp.orderly
  have hafter := hlater.orderly
  rw [haliases] at hbefore
  rw [aliases_arrived, haliases, session_arrived, ← hcall.outcome_eq] at hafter
  have hnumeric : (setting.outcome ⟨call, p.session⟩).numeric ⊆
      (runOn step p.session).2.numeric := by
    rw [hcall.outcome_eq]
    exact List.Subset.refl _
  exact ⟨later, hle, hlater, .call ⟨ledger, hp.holding hgiven⟩
    ⟨ledger, later, hbefore, hgiven, hle, hafter⟩ hnumeric hpasses⟩

end Check

/-- The types in hand while an equation is settled were issued. -/
theorem Session.Orderly.types_equation {aliases : Aliases} {ledger : Ledger} {session : Session}
    (h : session.Orderly aliases ledger) {expected found : Ty} (hexpected : ledger.Types expected)
    (hfound : ledger.Types found) :
    ∀ t ∈ session.equationTypes aliases expected found, ledger.Types t := by
  have hexpected' := h.subst.apply hexpected
  have hfound' := h.subst.apply hfound
  have hanswer := Unification.all_unify h.bodies hexpected' hfound'
  refine List.forall_mem_append.mpr ⟨Unification.all_visited h.bodies _ hexpected' hfound', ?_⟩
  cases hunify : unify aliases (session.subst.apply expected) (session.subst.apply found) with
  | error error =>
      rw [hunify] at hanswer
      exact hanswer
  | ok solution =>
      rw [hunify] at hanswer
      have hsubst := h.subst.compose hanswer
      have hliterals : ∀ t ∈ session.numeric.map fun v =>
          (session.subst.compose solution).apply (.var v), ledger.Types t := by
        intro t ht
        obtain ⟨v, hv, rfl⟩ := List.mem_map.mp ht
        exact hsubst.apply (Ty.all_var.mpr (h.numeric v hv))
      refine List.forall_mem_append.mpr ⟨Substitution.All.types hanswer, ?_⟩
      refine List.forall_mem_append.mpr ⟨hsubst.types, ?_⟩
      refine List.forall_mem_append.mpr ⟨hliterals, ?_⟩
      intro t ht
      obtain ⟨u, hu, rfl⟩ := List.mem_map.mp ht
      exact h.bodies.expand (hliterals u hu)

/-- An equation is accepted or refused. What it refuses leaves the session as it is. -/
theorem Setting.settles_constrain (setting : Setting) {known : List Ty} {expected found : Ty}
    (hexpected : expected.MadeFrom known) (hfound : found.MadeFrom known) :
    (setting.constrain expected found).Settles setting known
      (setting.equationWatch expected found) := by
  intro p ledger haliases hknown hp
  have horderly := hp.orderly
  rw [haliases] at horderly
  have hexpected' := Ledger.types_of_madeFrom hknown hexpected
  have hfound' := Ledger.types_of_madeFrom hknown hfound
  have hpair : ∀ t ∈ [expected, found], ledger.Types t :=
    List.forall_mem_cons.mpr ⟨hexpected', List.forall_mem_singleton.mpr hfound'⟩
  have hpoint := hp.holding (List.forall_mem_append.mpr
    ⟨hpair, horderly.types_equation hexpected' hfound'⟩)
  obtain ⟨hafter, hnumeric, harrived⟩ :
      (runOn (setting.constrain expected found) p.session).2.Orderly setting.aliases ledger ∧
      p.session.numeric ⊆ (runOn (setting.constrain expected found) p.session).2.numeric ∧
      ((setting.constrain expected found).arrived p).On ledger := by
    cases hequate : p.session.equate setting.aliases setting.literals expected found with
    | ok subst =>
        have hrun : (setting.constrain expected found).Gives p.session ()
            { p.session with subst } := gives_constrain.mpr ⟨subst, hequate, rfl⟩
        have hafter := horderly.accept hexpected' hfound' hequate
        rw [arrived_eq hrun, show runOn (setting.constrain expected found) p.session = _ from hrun]
        refine ⟨hafter, List.Subset.refl _, ?_, hp.types, hp.recorded⟩
        rw [haliases]
        exact hafter
    | error error =>
        have hrun : runOn (setting.constrain expected found) p.session =
            (.error error, p.session) := by
          unfold constrain
          rw [Session.runOn_constrain, hequate]
        rw [arrived_error hrun, hrun]
        exact ⟨horderly, List.Subset.refl _,
          hp.holding (horderly.refuse hexpected' hfound' hequate)⟩
  exact ⟨ledger, List.prefix_rfl, harrived, .call ⟨ledger, hpoint⟩
    ⟨ledger, ledger, horderly, hpair, List.prefix_rfl, hafter⟩ (List.Subset.refl _) (.nil hnumeric)⟩

/-- Every step that is built from primitive ones comes to points on a ledger only. -/
theorem Check.Follows.settles {α : Type} [Holds α] {setting : Setting} {known : List Ty}
    {step : Check α} {watch : Watch} {nodes : List Node}
    (h : step.Follows setting known watch nodes) : step.Settles setting known watch := by
  induction h with
  | pure ha =>
      refine settles_of_gives fun session ledger hknown horderly => ?_
      exact ⟨_, session, ledger, gives_pure.mpr ⟨rfl, rfl⟩, List.prefix_rfl, horderly,
        List.Subset.refl _, fun t ht => Ledger.types_of_madeFrom hknown (ha t ht)⟩
  | throw herror =>
      intro p ledger _ hknown hp
      exact ⟨ledger, List.prefix_rfl,
        hp.holding fun t ht => Ledger.types_of_madeFrom hknown (herror t ht),
        .nil (List.Subset.refl _)⟩
  | freshVar => exact settles_freshVar
  | freshNumeric =>
      intro p ledger haliases hknown hp
      obtain ⟨later, _, harrived, _⟩ := settles_freshVar p ledger haliases hknown hp
      obtain ⟨last, hle, hlast, hpasses⟩ := settles_freshNumeric p ledger haliases hknown hp
      exact ⟨last, hle, hlast, .point ⟨later, harrived⟩ hpasses⟩
  | unnamed hnames => exact settles_lowering Ledger.issues_fresh hnames
  | named hnames => exact settles_lowering (fun first => first.issues_named _) hnames
  | resolve ht =>
      refine settles_of_gives fun session ledger hknown horderly => ?_
      have ht' := Ledger.types_of_madeFrom hknown ht
      exact ⟨_, _, ledger, gives_resolve.mpr ⟨rfl, rfl⟩, List.prefix_rfl, horderly,
        List.Subset.refl _, List.forall_mem_singleton.mpr (horderly.subst.apply ht')⟩
  | @bindName _ name _ ht =>
      refine settles_of_gives fun session ledger hknown horderly => ?_
      have hscopes := horderly.scopes.insert name (Ledger.types_of_madeFrom hknown ht)
      exact ⟨(), _, ledger, gives_bindName.mpr rfl, List.prefix_rfl, horderly.rescope hscopes,
        List.Subset.refl _, List.forall_mem_nil _⟩
  | constrain hexpected hfound => exact setting.settles_constrain hexpected hfound
  | bind _ _ ih ihnext =>
      intro p ledger haliases hknown hp
      obtain ⟨later, hle, hlater, _, hfirst, hsecond⟩ := ih.sequence ihnext haliases hknown hp
      exact ⟨later, hle, hlater, hfirst.append hsecond⟩
  | last _ _ ih ihnext =>
      intro p ledger haliases hknown hp
      obtain ⟨later, hle, hlater, _, hfirst, hsecond⟩ := ih.sequence ihnext haliases hknown hp
      exact ⟨later, hle, hlater, hfirst.upTo hsecond.numeric⟩
  | look name _ _ ih =>
      intro p ledger haliases hknown hp
      refine ih p.session p ledger haliases ?_ hp
      refine List.forall_mem_append.mpr ⟨fun t ht => ?_, hknown⟩
      exact hp.orderly.scopes.lookup (Option.mem_toList.mp ht)
  | inContext _ context ih =>
      intro p ledger haliases hknown hp
      rw [arrived_inContext]
      exact ih p ledger haliases hknown hp
  | inNewScope _ ih => exact ih.inNewScope
  | within hcall htypes _ ih => exact ih.within hcall htypes
  | expanding ht _ ih =>
      intro p ledger haliases hknown hp
      obtain ⟨later, hle, hlater, hpasses⟩ := ih p ledger haliases hknown hp
      have hbodies := hp.orderly.bodies
      rw [haliases] at hbodies
      have hpoint := hp.holding (List.forall_mem_singleton.mpr
        (hbodies.expand (Ledger.types_of_madeFrom hknown ht)))
      exact ⟨later, hle, hlater, .point ⟨ledger, hpoint⟩ hpasses⟩

/-! ## Clauses -/

namespace Point

variable {p : Point} {record : TypeError → Diagnostic} {step : Check Unit} {after : Session}

theorem concluded_ok (h : step.Gives p.session () after) :
    p.concluded record step = { p with session := after } := by
  rw [concluded, reported_eq, Setting.failure_eq_nil.mpr h, List.map_nil, List.append_nil]

theorem concluded_error {error : TypeError} (h : runOn step p.session = (.error error, after)) :
    p.concluded record step =
      { p with session := after, recorded := p.recorded ++ [record error] } := by
  rw [concluded, reported_eq, Setting.failure_eq_reporting, Setting.run_reporting_error h,
    List.map_singleton]

/-- What follows a step that is required starts where the step has been concluded. -/
theorem reported_reporting (h : step.Gives p.session () after)
    (rest : StateM Session (List TypeError)) :
    p.reported record (Setting.reporting step rest) =
      (p.concluded record step).reported record rest := by
  rw [concluded_ok h, reported_eq, reported_eq, Setting.run_reporting h]

theorem reported_reporting_error {error : TypeError}
    (h : runOn step p.session = (.error error, after)) (rest : StateM Session (List TypeError)) :
    p.reported record (Setting.reporting step rest) = p.concluded record step := by
  rw [concluded_error h, reported_eq, Setting.run_reporting_error h, List.map_singleton]

end Point

/-- A step has been tried, and its error is recorded if there is one. -/
theorem Check.Settles.concluded {setting : Setting} {known : List Ty} {step : Check Unit}
    {watch : Watch} (hstep : step.Settles setting known watch) {record : TypeError → Diagnostic}
    (hrecord : ∀ error, (record error).error = error) {p : Point} {ledger : Ledger}
    (haliases : p.aliases = setting.aliases) (hknown : ∀ t ∈ known, ledger.Types t)
    (hp : p.On ledger) :
    ∃ later : Ledger, ledger <+: later ∧ (p.concluded record step).On later ∧
      ∀ {marks : List Mark} {last : Session},
        setting.Passes (p.concluded record step).session marks last →
        setting.Passes p.session (watch p ++ ⟨step.arrived p, none⟩ ::
          ⟨p.concluded record step, none⟩ :: marks) last := by
  obtain ⟨later, hle, harrived, hpasses⟩ := hstep p ledger haliases hknown hp
  have hconcluded : (p.concluded record step).On later ∧
      (p.concluded record step).session = (runOn step p.session).2 := by
    rcases hrun : runOn step p.session with ⟨outcome, after⟩
    cases outcome with
    | ok u =>
        rw [arrived_eq hrun] at harrived
        rw [Point.concluded_ok hrun]
        exact ⟨harrived, rfl⟩
    | error error =>
        rw [arrived_error hrun] at harrived
        obtain ⟨herror, htypes⟩ := List.forall_mem_append.mp harrived.types
        rw [Point.concluded_error hrun]
        refine ⟨⟨harrived.orderly, htypes, List.forall_mem_append.mpr ⟨harrived.recorded, ?_⟩⟩, rfl⟩
        refine List.forall_mem_singleton.mpr ?_
        rw [hrecord]
        exact herror
  refine ⟨later, hle, hconcluded.1, fun hmarks => ?_⟩
  rw [← hconcluded.2] at hpasses
  exact hpasses.append (.point ⟨later, harrived⟩ (.point ⟨later, hconcluded.1⟩ hmarks))

namespace Setting

variable {setting : Setting} {record : TypeError → Diagnostic} {known : List Ty}
  {step : StateM Session (List TypeError)} {watch : Watch} {nodes : List Node}

/-- The watch of a step ends where the errors of the step are recorded. -/
theorem Reports.ending (h : setting.Reports record known step watch nodes) (p : Point) :
    watch.ending p = p.reported record step := by
  induction h generalizing p with
  | nothing => exact (Point.after_nothing p).symm
  | refused _ => rfl
  | tried _ _ ih =>
      rw [ending_tried, ih, Point.reported_append]
      rfl
  | @required step rest _ _ _ _ _ _ ih =>
      rw [ending_required]
      rcases hrun : runOn step p.session with ⟨outcome, after⟩
      cases outcome with
      | ok u =>
          have hgives : step.Gives p.session () after := hrun
          rw [hgives.upon_eq, Point.reported_reporting hgives, ← ih]
          rfl
      | error error =>
          rw [Point.reported_reporting_error hrun]
          unfold upon
          rw [hrun]
          rfl

/-- A step that reports errors comes to points on a ledger only, and goes on after errors. -/
theorem Reports.passes (h : setting.Reports record known step watch nodes)
    (hrecord : ∀ error, (record error).error = error) :
    ∀ (p : Point) (ledger : Ledger), p.aliases = setting.aliases →
      (∀ t ∈ known, ledger.Types t) → p.On ledger →
        ∃ later : Ledger, ledger <+: later ∧ (p.reported record step).On later ∧
          setting.Passes p.session (watch p) (p.reported record step).session := by
  induction h with
  | nothing =>
      intro p ledger _ _ hp
      refine ⟨ledger, List.prefix_rfl, ?_, .nil (List.Subset.refl _)⟩
      rw [show p.reported record (pure []) = p from p.after_nothing]
      exact hp
  | @refused error _ herror =>
      intro p ledger _ hknown hp
      have hpoint : (p.reported record (pure [error])).On ledger := by
        refine ⟨hp.orderly, hp.types, List.forall_mem_append.mpr ⟨hp.recorded, ?_⟩⟩
        refine List.forall_mem_singleton.mpr ?_
        rw [hrecord]
        exact fun t ht => Ledger.types_of_madeFrom hknown (herror t ht)
      exact ⟨ledger, List.prefix_rfl, hpoint,
        .point ⟨ledger, hpoint⟩ (.nil (List.Subset.refl _))⟩
  | tried hstep _ ih =>
      intro p ledger haliases hknown hp
      obtain ⟨middle, hle, hmiddle, hthen⟩ :=
        hstep.settles.concluded hrecord haliases hknown hp
      obtain ⟨later, hle', hlater, hpasses⟩ := ih (p.concluded record _) middle haliases
        (fun t ht => (hknown t ht).mono hle) hmiddle
      rw [Point.reported_append]
      exact ⟨later, hle.trans hle', hlater, hthen hpasses⟩
  | @required step rest _ _ _ _ hstep _ ih =>
      intro p ledger haliases hknown hp
      obtain ⟨middle, hle, hmiddle, hthen⟩ :=
        hstep.settles.concluded hrecord haliases hknown hp
      unfold Check.required
      rcases hrun : runOn step p.session with ⟨outcome, after⟩
      cases outcome with
      | ok u =>
          have hgives : step.Gives p.session () after := hrun
          obtain ⟨later, hle', hlater, hpasses⟩ := ih (p.concluded record step) middle haliases
            (fun t ht => (hknown t ht).mono hle) hmiddle
          rw [hgives.upon_eq, Point.reported_reporting hgives]
          exact ⟨later, hle.trans hle', hlater, hthen hpasses⟩
      | error error =>
          rw [Point.reported_reporting_error hrun]
          unfold upon
          rw [hrun]
          exact ⟨middle, hle, hmiddle, hthen (.nil (List.Subset.refl _))⟩

variable (setting)

/-- The watch of a clause ends with the session and the errors of the clause. -/
theorem ending_clause (record : TypeError → Diagnostic) (signature : Signature) (clause : Clause)
    (p : Point) :
    ((setting.clauseWatch record signature clause).ending p).released =
      p.released.reported record (setting.checkClause signature clause) := by
  obtain ⟨⟨⟨inputs, output⟩, naming⟩, hlower⟩ :
      ∃ lowered, signature.lower.run ⟨{}, p.session.next⟩ = lowered := ⟨_, rfl⟩
  have hopened : (moving Point.opened).ending p = p.opened := rfl
  have hgives : (lowering {} signature.lower).Gives p.opened.session _ _ := gives_signature hlower
  have hrun := setting.run_checkClause signature clause p.released.session hlower
  rw [clauseWatch, ending_andThen, hopened, ending_watched hgives,
    (setting.reports_clause record clause inputs output).ending, Point.reported_eq p.released, hrun]
  rfl

/-- A clause is checked from its own start, whatever names were in scope before. -/
theorem passes_clause (record : TypeError → Diagnostic)
    (hrecord : ∀ error, (record error).error = error) (signature : Signature) (clause : Clause)
    {p : Point} {ledger : Ledger} (haliases : p.aliases = setting.aliases)
    (hp : p.opened.On ledger) :
    ∃ later : Ledger,
      (p.released.reported record (setting.checkClause signature clause)).On later ∧
      setting.Passes p.session (setting.clauseWatch record signature clause p)
        ((setting.checkClause signature clause).run p.session).2 := by
  obtain ⟨⟨⟨inputs, output⟩, naming⟩, hlower⟩ :
      ∃ lowered, signature.lower.run ⟨{}, p.session.next⟩ = lowered := ⟨_, rfl⟩
  have hgives : (lowering {} signature.lower).Gives p.opened.session _ _ := gives_signature hlower
  obtain ⟨middle, _, hlowered, hsignature⟩ := (follows_signature setting signature []).settles
    p.opened ledger haliases (List.forall_mem_nil _) hp
  rw [show runOn (lowering {} signature.lower) p.opened.session = _ from hgives] at hsignature
  have hrun := setting.run_checkClause signature clause p.session hlower
  have hreported := Point.reported_eq p.released record (setting.checkClause signature clause)
  rw [show p.released.session = p.session from rfl, hrun] at hreported
  rw [hreported, hrun, setting.clauseWatch_eq record clause hlower]
  let q : Point := ⟨p.aliases, { p.opened.session with next := naming.next },
    Holds.types ((inputs, output), naming.names) ++ p.types, p.recorded⟩
  have hq : (lowering {} signature.lower).arrived p.opened = q := arrived_eq hgives
  rw [hq] at hlowered ⊢
  have hknown : ∀ t ∈ inputs ++ [output], middle.Types t := fun t ht =>
    hlowered.types t (List.mem_append_left _ (List.mem_append_left _ ht))
  obtain ⟨later, _, hlater, hpasses⟩ := (setting.reports_clause record clause inputs output).passes
    hrecord q middle haliases hknown hlowered
  have hmarks := hsignature.append (.point ⟨middle, hlowered⟩ hpasses)
  exact ⟨later, hlater.released, .point ⟨ledger, hp⟩
    ⟨hmarks.numeric, hmarks.points, hmarks.calls⟩⟩

/-- After any other clauses, when the aliases have taken the first numbers. -/
theorem orderly_clause (signature : Signature) (clause : Clause) {ledger : Ledger}
    (hbodies : setting.aliases.All ledger.Has) {session : Session}
    (hnext : session.next = ledger.length) :
    ∃ later : Ledger,
      ((setting.checkClause signature clause).run session.reset).2.Orderly setting.aliases later ∧
      ∀ moment ∈ setting.clauseTrace signature clause session.reset,
        setting.OrderlyAt moment ∧ (setting.outcome moment).numeric ⊆
          ((setting.checkClause signature clause).run session.reset).2.numeric := by
  have hstart := Session.orderly_start hbodies
  rw [← hnext] at hstart
  let record := Diagnostic.mk signature.name.value 1 signature.name.loc
  obtain ⟨later, hlater, hpasses⟩ := setting.passes_clause record (fun _ => rfl) signature clause
    (p := setting.pointAt session.reset) rfl
    ⟨hstart, List.forall_mem_nil _, List.forall_mem_nil _⟩
  exact ⟨later, hlater.orderly, hpasses.calls⟩

end Setting

end Rubric
