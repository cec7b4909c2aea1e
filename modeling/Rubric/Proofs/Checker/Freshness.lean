import Rubric.Proofs.Checker.Copies
import Rubric.Proofs.Checker.Points

/-!
# New variables are new

The run on a program lowers its aliases and then checks the clauses of its functions one after the
other, each from the point that the one before has left. So every point of the run is on a ledger.
The counter is the length of the ledger, so the next variable has a number that no variable has
that exists at the point.
-/

namespace Rubric

open Check Watch

namespace Watch

variable {watch next : Watch} {p : Point} {motive : Mark → Prop}

theorem forall_andThen (h : ∀ mark ∈ watch p, motive mark)
    (hnext : ∀ mark ∈ next (watch.ending p), motive mark) :
    ∀ mark ∈ (watch.andThen next) p, motive mark :=
  List.forall_mem_append.mpr ⟨h, hnext⟩

theorem forall_moving {move : Point → Point} (h : motive ⟨move p, none⟩) :
    ∀ mark ∈ (moving move) p, motive mark :=
  List.forall_mem_singleton.mpr h

/-- If all points of a watch are on a ledger, so is its last one. -/
theorem on_ending {ledger : Ledger} (hp : p.On ledger)
    (h : ∀ mark ∈ watch p, ∃ later, mark.point.On later) :
    ∃ later, (watch.ending p).On later := by
  unfold ending
  rw [List.getLastD_eq_getLast?]
  cases hlast : ((watch p).map Mark.point).getLast? with
  | none => exact ⟨ledger, hp⟩
  | some q =>
      obtain ⟨mark, hmark, rfl⟩ := List.mem_map.mp (List.mem_of_getLast? hlast)
      exact h mark hmark

end Watch

namespace Setting

variable (setting : Setting)

/-! ## Functions -/

theorem after_clauses (group : FunctionGroup) (signature : Signature) (number : Nat)
    (clause : Clause) (rest : List Clause) (p : Point) :
    p.after (setting.checkClauses group signature number (clause :: rest)) =
      (Point.reported { p with session := p.session.reset }
        (Diagnostic.mk group.name.value number group.name.loc)
        (setting.checkClause signature clause)).after
          (setting.checkClauses group signature (number + 1) rest) := by
  unfold Point.reported Point.after
  rw [List.append_assoc]
  rfl

theorem ending_clauses (group : FunctionGroup) (signature : Signature) (number : Nat)
    (clauses : List Clause) (p : Point) :
    ((setting.clausesWatch group signature number clauses).ending p).released =
      p.released.after (setting.checkClauses group signature number clauses) := by
  induction clauses generalizing p number with
  | nil => exact (Point.after_nothing _).symm
  | cons clause rest ih =>
      rw [clausesWatch, ending_andThen, ending_andThen, ending_andThen, ih, after_clauses]
      exact congrArg (Point.after · _) (setting.ending_clause _ signature clause _)

theorem ending_function (group : FunctionGroup) (p : Point) :
    ((setting.functionWatch group).ending p).released =
      p.released.after (setting.checkFunction group) := by
  unfold functionWatch checkFunction
  cases setting.globals.signatures.get? group.name.value with
  | none => exact (Point.after_nothing _).symm
  | some signature => exact setting.ending_clauses group signature 1 group.clauses p

/-- The watch of several functions ends with the session and the diagnostics of all of them. -/
theorem ending_functions (groups : List FunctionGroup) (p : Point) :
    ((setting.functionsWatch groups).ending p).released =
      p.released.after (setting.checkFunctions groups) := by
  induction groups generalizing p with
  | nil => exact (Point.after_nothing _).symm
  | cons group rest ih =>
      rw [functionsWatch, ending_andThen, ih, checkFunctions, Point.after_append,
        setting.ending_function]

variable {setting} {p : Point} {ledger : Ledger}

theorem on_clauses (group : FunctionGroup) (signature : Signature) (number : Nat)
    (clauses : List Clause) (haliases : p.aliases = setting.aliases) (hp : p.On ledger) :
    ∀ mark ∈ setting.clausesWatch group signature number clauses p,
      ∃ later, mark.point.On later := by
  induction clauses generalizing p ledger number with
  | nil => exact List.forall_mem_nil _
  | cons clause rest ih =>
      let start : Point := { p with session := p.session.reset }
      have hstart : start.On ledger := ⟨hp.orderly.reset, hp.types, hp.recorded⟩
      have hopened : start.opened.On ledger :=
        ⟨hstart.orderly.rescope (Scopes.all_empty _), hstart.types, hstart.recorded⟩
      let record := Diagnostic.mk group.name.value number group.name.loc
      obtain ⟨later, hlater, hpasses⟩ := setting.passes_clause record (fun _ => rfl) signature
        clause (p := start) haliases hopened
      rw [← setting.ending_clause record signature clause start] at hlater
      have hsame : ((setting.clauseWatch record signature clause).ending start).released.aliases =
          setting.aliases := by
        rw [ending_clause]
        exact haliases
      refine forall_andThen (forall_moving ⟨ledger, hstart⟩) ?_
      refine forall_andThen hpasses.points ?_
      exact forall_andThen (forall_moving ⟨later, hlater⟩) (ih (number + 1) hsame hlater)

theorem on_function (group : FunctionGroup) (haliases : p.aliases = setting.aliases)
    (hp : p.On ledger) : ∀ mark ∈ setting.functionWatch group p, ∃ later, mark.point.On later := by
  unfold functionWatch
  cases setting.globals.signatures.get? group.name.value with
  | none => exact List.forall_mem_nil _
  | some signature => exact on_clauses group signature 1 group.clauses haliases hp

theorem on_functions (groups : List FunctionGroup) (haliases : p.aliases = setting.aliases)
    (hp : p.On ledger) :
    ∀ mark ∈ setting.functionsWatch groups p, ∃ later, mark.point.On later := by
  induction groups generalizing p ledger with
  | nil => exact List.forall_mem_nil _
  | cons group rest ih =>
      have hgroup := on_function group haliases hp
      obtain ⟨middle, hmiddle⟩ := on_ending hp hgroup
      have hsame : ((setting.functionWatch group).ending p).aliases = setting.aliases := by
        have hend := congrArg Point.aliases (setting.ending_function group p)
        exact hend.trans haliases
      exact forall_andThen hgroup (ih hsame hmiddle)

end Setting

/-! ## Aliases -/

theorem Setting.lowerAliases_concat (declared : List (String × TypeTerm)) (name : String)
    (term : TypeTerm) :
    lowerAliases (declared ++ [(name, term)]) 0 =
      ((lowerAliases declared 0).1.insert name
        (term.lower.run ⟨{}, (lowerAliases declared 0).2⟩).1,
        (term.lower.run ⟨{}, (lowerAliases declared 0).2⟩).2.next) := by
  unfold lowerAliases
  rw [List.foldl_append]
  rfl

theorem Aliases.ending_lowerWatch_append (declared more : List (String × TypeTerm)) (p : Point) :
    (lowerWatch (declared ++ more)).ending p =
      (lowerWatch more).ending ((lowerWatch declared).ending p) := by
  induction declared generalizing p with
  | nil => rfl
  | cons entry rest ih => rw [List.cons_append, lowerWatch, lowerWatch, ending_andThen,
      ending_andThen, ih]

/-- The watch of the aliases ends with all of them lowered. -/
theorem Aliases.ending_lowerWatch (declared : List (String × TypeTerm)) :
    (lowerWatch declared).ending Program.start =
      ⟨(Setting.lowerAliases declared 0).1, { next := (Setting.lowerAliases declared 0).2 }, [],
        []⟩ := by
  induction declared using List.reverseRecOn with
  | nil => rfl
  | append_singleton rest entry ih =>
      obtain ⟨name, term⟩ := entry
      rw [ending_lowerWatch_append, ih, Setting.lowerAliases_concat, lowerWatch, ending_andThen,
        ending_watched (gives_lowering.mpr ⟨rfl, rfl⟩)]
      rfl

/-- Before the first clause there are no equations, so an alias can be added. -/
theorem Point.On.declared {p : Point} {ledger : Ledger} (h : p.On ledger)
    (hsession : p.session = { next := p.session.next }) (name : String) {t : Ty}
    (ht : ledger.Types t) : (p.declared name t).On ledger := by
  refine ⟨?_, List.forall_mem_nil _, h.recorded⟩
  have hbodies : (p.aliases.insert name t).All ledger.Has := h.orderly.bodies.insert ht
  have hstart := Session.orderly_start hbodies
  rw [← h.orderly.next] at hstart
  show p.session.Orderly _ _
  rw [hsession]
  exact hstart

theorem Aliases.on_lowerWatch (declared : List (String × TypeTerm)) {p : Point} {ledger : Ledger}
    (hsession : p.session = { next := p.session.next }) (hp : p.On ledger) :
    ∀ mark ∈ lowerWatch declared p, ∃ later, mark.point.On later := by
  induction declared generalizing p ledger with
  | nil => exact List.forall_mem_nil _
  | cons entry rest ih =>
      obtain ⟨name, term⟩ := entry
      -- Lowering reads no declarations, only the counter.
      let setting : Setting := ⟨{}, p.aliases, .listed⟩
      have hfollows := follows_lower setting term {} [] (List.forall_mem_nil _)
      obtain ⟨later, _, harrived, hpasses⟩ :=
        hfollows.settles p ledger rfl (List.forall_mem_nil _) hp
      obtain ⟨answer, after, hgives, hafter⟩ : ∃ answer after,
          (lowering {} term.lower).Gives p.session answer after ∧
            after = { next := after.next } := by
        refine ⟨_, _, gives_lowering.mpr ⟨rfl, rfl⟩, ?_⟩
        rw [hsession]
      rw [arrived_eq hgives] at harrived
      have hterm : later.Types answer.1 := harrived.types _ List.mem_cons_self
      have hdeclared := harrived.declared hafter name hterm
      refine forall_andThen ?_ ?_
      · refine List.forall_mem_append.mpr ⟨hpasses.points, ?_⟩
        rw [hgives.upon_eq, arrived_eq hgives]
        exact List.forall_mem_cons.mpr ⟨⟨later, harrived⟩, forall_moving ⟨later, hdeclared⟩⟩
      · rw [ending_watched hgives]
        exact ih hafter hdeclared

/-! ## Programs -/

namespace Program

/-- The last point of a run has the diagnostics of the program. -/
theorem recorded_points (program : Program) (orders : Orders) :
    (program.points orders).getLast?.map Point.recorded = some (program.diagnostics orders) := by
  let globals := Globals.collect program
  have hlast : (program.points orders).getLast? =
      some ((((Aliases.lowerWatch (globals.aliases.arranged orders.aliases)).andThen
        ((Setting.ofGlobals globals orders).1.functionsWatch
          ((Node.program program).subtree.filterMap Node.asFunction?))).ending start)) := by
    unfold points
    rw [List.getLast?_cons, ending, List.getLastD_eq_getLast?]
    rfl
  rw [hlast, ending_andThen, Aliases.ending_lowerWatch, Option.map_some]
  exact congrArg (fun q => some (Point.recorded q)) (Setting.ending_functions _ _ _)

/-- Every point of a run is on a ledger. -/
theorem on_points (program : Program) (orders : Orders) :
    ∀ point ∈ program.points orders, ∃ ledger, point.On ledger := by
  have hstart : start.On [] := by
    refine ⟨Session.orderly_start ?_, List.forall_mem_nil _, List.forall_mem_nil _⟩
    intro name body hbody
    cases hbody
  let declared := (Globals.collect program).aliases.arranged orders.aliases
  have haliases := Aliases.on_lowerWatch declared rfl hstart
  obtain ⟨ledger, hledger⟩ := on_ending hstart haliases
  have hlowered := Aliases.ending_lowerWatch declared
  have hmarks : ∀ mark ∈ program.marks orders, ∃ ledger, mark.point.On ledger := by
    refine forall_andThen haliases (Setting.on_functions _ ?_ hledger)
    rw [hlowered]
    rfl
  refine List.forall_mem_cons.mpr ⟨⟨[], hstart⟩, fun point hpoint => ?_⟩
  obtain ⟨mark, hmark, rfl⟩ := List.mem_map.mp hpoint
  exact hmarks mark hmark

end Program

/-! ## New variables -/

/-- A variable stands somewhere at a point: in the aliases or the session, in a type in hand or in
a recorded diagnostic. -/
inductive Point.Mentions (p : Point) (v : TypeVar) : Prop where
  | session (h : p.session.Mentions p.aliases v)
  | inHand {t : Ty} (ht : t ∈ p.types) (hv : t.occurs v = true)
  | recorded {diagnostic : Diagnostic} {t : Ty} (hdiagnostic : diagnostic ∈ p.recorded)
      (ht : t ∈ diagnostic.error.types) (hv : t.occurs v = true)

theorem Point.On.has_of_mentions {p : Point} {ledger : Ledger} (h : p.On ledger) {v : TypeVar}
    (hv : p.Mentions v) : ledger.Has v := by
  cases hv with
  | session hv => exact h.orderly.has_of_mentions hv
  | inHand ht hv => exact h.types _ ht v hv
  | recorded hdiagnostic ht hv => exact h.recorded _ hdiagnostic _ ht v hv

namespace Program

/-- The points of a run lead to the diagnostics of the program. At each of them all variables that
exist then have numbers below the counter, and a number belongs to one variable only. A new
variable is always given, and its number is that of none of them, so it stays apart from them
whatever name it gets. -/
theorem fresh_never_collides (program : Program) (orders : Orders) :
    (program.points orders).getLast?.map Point.recorded = some (program.diagnostics orders) ∧
    ∀ point ∈ program.points orders,
      (∀ v, point.Mentions v → v.id < point.session.next) ∧
      (∀ v w, point.Mentions v → point.Mentions w → v.id = w.id → v = w) ∧
      ∃ fresh after, Check.freshVar.Gives point.session fresh after ∧
        ∀ v, point.Mentions v → v ≠ fresh ∧ v.id ≠ fresh.id := by
  refine ⟨program.recorded_points orders, ?_⟩
  intro point hpoint
  obtain ⟨ledger, hon⟩ := program.on_points orders point hpoint
  have hbelow : ∀ v, point.Mentions v → v.id < point.session.next := by
    intro v hv
    rw [hon.orderly.next]
    exact (hon.has_of_mentions hv).lt_length
  refine ⟨hbelow, ?_, ⟨point.session.next, none⟩, _, gives_freshVar.mpr ⟨rfl, rfl⟩, ?_⟩
  · exact fun v w hv hw => (hon.has_of_mentions hv).unique (hon.has_of_mentions hw)
  · intro v hv
    have hne : v.id ≠ point.session.next := Nat.ne_of_lt (hbelow v hv)
    exact ⟨fun heq => hne (congrArg TypeVar.id heq), hne⟩

end Program

/-! ## An example

The first clause is refused with a variable of its signature. The second one copies the signature
again, and an alias has a variable as well:

    type Boxes = [a]

    pick : b -> Bool
    pick x = x x
    pick 0 = True
-/

namespace Picking

def signature : Signature where
  name := ⟨"pick", none, {}⟩
  inputs := [.var "b"]
  output := .con "Bool"

def symbol (name : String) : Expression :=
  .primitive (.symbol ⟨name, none, {}⟩)

def clauses : List Clause :=
  [.ofExpression [.var ⟨"x", none, {}⟩] (.application (symbol "x") (symbol "x")),
    .ofExpression [.literal (.number "number" 0 {})] (.primitive (.boolean true {}))]

def program : Program where
  declarations :=
    [.typeAlias ⟨⟨"Boxes", none, {}⟩, .list (.var "a")⟩, .signature signature,
      .function ⟨⟨"pick", none, {}⟩, clauses⟩]

/-- The point at which the literal pattern has been compared with the second copy of `b`. -/
def compared : Point where
  aliases := .ofList [("Boxes", .list (.var ⟨0, some "a"⟩))]
  session :=
    { next := 5
      subst := .singleton ⟨3, some "b"⟩ (.var ⟨4, none⟩)
      numeric := [⟨4, none⟩]
      scopes := .empty }
  types := [.var ⟨4, none⟩, .var ⟨3, some "b"⟩, .con "Bool", .var ⟨3, some "b"⟩]
  recorded :=
    [⟨"pick", 1, {}, .occurs ⟨1, some "b"⟩
      (.func (.var ⟨1, some "b"⟩) (.var ⟨2, none⟩))⟩]

theorem mem_points : compared ∈ program.points := by
  unfold Program.points Program.marks
  rw [Globals.collect_eq, Node.filterMap_asFunction?]
  exact List.mem_of_getElem? (i := 40) rfl

/-- All five variables of the run exist when the literal pattern has been compared, and both copies
of `b` among them. The next one has the next number. -/
theorem fresh_never_collides_compared :
    compared ∈ program.points ∧
    (∀ v ∈ [⟨0, some "a"⟩, ⟨1, some "b"⟩, ⟨2, none⟩, ⟨3, some "b"⟩, ⟨4, none⟩],
      compared.Mentions v ∧ v.id < 5 ∧ v ≠ ⟨5, none⟩) ∧
    (∀ v, compared.Mentions v → v.id = 3 → v = ⟨3, some "b"⟩) ∧
    ∃ after, Check.freshVar.Gives compared.session ⟨5, none⟩ after := by
  obtain ⟨_, hpoints⟩ := Program.fresh_never_collides program {}
  obtain ⟨hbelow, hunique, fresh, after, hgives, hapart⟩ := hpoints compared mem_points
  obtain ⟨rfl, rfl⟩ := Check.gives_freshVar.mp hgives
  have hmentions : ∀ v ∈ [⟨0, some "a"⟩, ⟨1, some "b"⟩, ⟨2, none⟩, ⟨3, some "b"⟩, ⟨4, none⟩],
      compared.Mentions v := by
    simp only [List.forall_mem_cons]
    refine ⟨.session (@Session.Mentions.aliased _ _ _ "Boxes" _ rfl rfl), ?_, ?_, ?_, ?_,
      List.forall_mem_nil _⟩
    · exact .recorded (List.mem_singleton_self _) List.mem_cons_self rfl
    · exact .recorded (List.mem_singleton_self _) (List.mem_cons_of_mem _ List.mem_cons_self) rfl
    · exact .session (@Session.Mentions.bound _ _ _ (.var ⟨4, none⟩) rfl)
    · exact .session (.literal List.mem_cons_self)
  refine ⟨mem_points, ?_, ?_, _, hgives⟩
  · exact fun v hv => ⟨hmentions v hv, hbelow v (hmentions v hv), (hapart v (hmentions v hv)).1⟩
  · exact fun v hv hid => hunique v _ hv (hmentions _ (by simp)) hid

end Picking

end Rubric
