import Rubric.Proofs.Checker.Course
import Rubric.Proofs.Checker.Pairing
import Rubric.Proofs.Checker.Reachable

/-!
# Copies of signatures

Every use of a signature gets types of its own. `TypeTerm.Copied` compares a written type with the
type that it is lowered to and lists the spots where the type has a variable, from left to right:
one for each written variable and one for each conditional type. Class contexts, the constructors
of inline data types and the parts of conditionals have no spots.

Lowering gives the spots of one use their variables. Two spots have the same variable exactly if
the same name is written there. The numbers are those that the counter runs through, so none of
these variables is in the session yet, and a later use has other ones in the same places.
-/

namespace Rubric

/-- A place in a type that has a variable, with the name that is written there. There is none for
a conditional type. -/
structure Spot where
  written : Option String
  var : TypeVar

mutual

/-- A type follows a written type, with these spots. -/
inductive TypeTerm.Copied : TypeTerm → Ty → List Spot → Prop where
  | var (name : String) (v : TypeVar) : TypeTerm.Copied (.var name) (.var v) [⟨some name, v⟩]
  | con (name : String) : TypeTerm.Copied (.con name) (.con name) []
  | constraint {className : String} {params : List TypeTerm} {args : List Ty} {spots : List Spot}
      (h : TypeTerm.CopiedAll params args spots) :
      TypeTerm.Copied (.constraint ⟨className, params⟩) (.app (.con className) args) spots
  | qualified {context : List Constraint} {body : TypeTerm} {t : Ty} {spots : List Spot}
      (h : TypeTerm.Copied body t spots) : TypeTerm.Copied (.qualified context body) t spots
  | arrow {inputs : List TypeTerm} {output : TypeTerm} {ts : List Ty} {t : Ty}
      {spots spots' : List Spot} (hinputs : TypeTerm.CopiedAll inputs ts spots)
      (houtput : TypeTerm.Copied output t spots') :
      TypeTerm.Copied (.arrow inputs output) (.curried ts t) (spots ++ spots')
  | apply {base : TypeTerm} {args : List TypeTerm} {t : Ty} {ts : List Ty}
      {spots spots' : List Spot} (hbase : TypeTerm.Copied base t spots)
      (hargs : TypeTerm.CopiedAll args ts spots') :
      TypeTerm.Copied (.apply base args) (.app t ts) (spots ++ spots')
  | list {element : TypeTerm} {t : Ty} {spots : List Spot}
      (h : TypeTerm.Copied element t spots) : TypeTerm.Copied (.list element) (.list t) spots
  | tuple {elements : List TypeTerm} {ts : List Ty} {spots : List Spot}
      (h : TypeTerm.CopiedAll elements ts spots) :
      TypeTerm.Copied (.tuple elements) (.tuple ts) spots
  | data (name : String) (cases : List DataCase) :
      TypeTerm.Copied (.data name cases) (.con name) []
  | conditional (condition yes no : TypeTerm) (v : TypeVar) :
      TypeTerm.Copied (.conditional condition yes no) (.var v) [⟨none, v⟩]

/-- A row of types follows a row of written types. -/
inductive TypeTerm.CopiedAll : List TypeTerm → List Ty → List Spot → Prop where
  | nil : TypeTerm.CopiedAll [] [] []
  | cons {term : TypeTerm} {rest : List TypeTerm} {t : Ty} {ts : List Ty}
      {spots spots' : List Spot} (h : TypeTerm.Copied term t spots)
      (hrest : TypeTerm.CopiedAll rest ts spots') :
      TypeTerm.CopiedAll (term :: rest) (t :: ts) (spots ++ spots')

end

namespace TypeTerm

/-! ## The spots have all variables -/

mutual

theorem Copied.all {p : TypeVar → Prop} : {term : TypeTerm} → {t : Ty} → {spots : List Spot} →
    term.Copied t spots → (∀ spot ∈ spots, p spot.var) → t.All p
  | _, _, _, .var name v, h => Ty.all_var.mpr (h _ (.head _))
  | _, _, _, .con name, _ => Ty.all_con
  | _, _, _, .constraint hargs, h => Ty.all_app.mpr ⟨Ty.all_con, hargs.all h⟩
  | _, _, _, .qualified hbody, h => hbody.all h
  | _, _, _, .arrow hinputs houtput, h => by
      obtain ⟨hleft, hright⟩ := List.forall_mem_append.mp h
      exact Ty.all_curried (hinputs.all hleft) (houtput.all hright)
  | _, _, _, .apply hbase hargs, h => by
      obtain ⟨hleft, hright⟩ := List.forall_mem_append.mp h
      exact Ty.all_app.mpr ⟨hbase.all hleft, hargs.all hright⟩
  | _, _, _, .list helement, h => Ty.all_list.mpr (helement.all h)
  | _, _, _, .tuple helements, h => Ty.all_tuple.mpr (helements.all h)
  | _, _, _, .data name cases, _ => Ty.all_con
  | _, _, _, .conditional condition yes no v, h => Ty.all_var.mpr (h _ (.head _))

theorem CopiedAll.all {p : TypeVar → Prop} : {terms : List TypeTerm} → {ts : List Ty} →
    {spots : List Spot} → CopiedAll terms ts spots → (∀ spot ∈ spots, p spot.var) →
      ∀ t ∈ ts, t.All p
  | _, _, _, .nil, _ => by simp
  | _, _, _, .cons hterm hrest, h => by
      obtain ⟨hleft, hright⟩ := List.forall_mem_append.mp h
      exact List.forall_mem_cons.mpr ⟨hterm.all hleft, hrest.all hright⟩

end

end TypeTerm

/-! ## Giving the spots their variables -/

/-- Two spots have the same variable exactly if the same name is written there. -/
def Spot.Separate (a b : Spot) : Prop :=
  a.var = b.var ↔ ∃ name, a.written = some name ∧ b.written = some name

namespace Naming

/-- The names of a use have variables of its own, which keep the names. -/
structure Own (first : Nat) (naming : Naming) : Prop where
  next_le : first ≤ naming.next
  names : ∀ name v, naming.names.get? name = some v →
    v.name = some name ∧ first ≤ v.id ∧ v.id < naming.next

theorem own_no_names (first : Nat) : Own first ⟨{}, first⟩ :=
  ⟨Nat.le_refl _, fun _ _ hv => by cases hv⟩

/-- Spots that come to their variables between two namings of a use. -/
structure Places (first : Nat) (before : Naming) (spots : List Spot) (after : Naming) : Prop where
  grows : before.Grows after
  own : after.Own first
  /-- A variable keeps what is written at its spots, and the use has taken its number. -/
  var : ∀ spot ∈ spots, spot.var.name = spot.written ∧ first ≤ spot.var.id ∧
    spot.var.id < after.next
  named : ∀ spot ∈ spots, ∀ name, spot.written = some name →
    after.names.get? name = some spot.var
  unnamed : ∀ spot ∈ spots, spot.written = none → before.next ≤ spot.var.id
  separate : spots.Pairwise Spot.Separate

namespace Places

variable {first : Nat} {before middle after : Naming} {spots spots' : List Spot}

theorem nil (h : before.Own first) : Places first before [] before :=
  ⟨.refl before, h, by simp, by simp, by simp, .nil⟩

/-- Written names are told apart by the table, and a conditional has a number that was not yet
taken when any earlier spot got its own. -/
theorem append (h : Places first before spots middle) (h' : Places first middle spots' after) :
    Places first before (spots ++ spots') after where
  grows := h.grows.trans h'.grows
  own := h'.own
  var := by
    refine List.forall_mem_append.mpr ⟨fun spot hspot => ?_, h'.var⟩
    obtain ⟨hname, hfirst, hlt⟩ := h.var spot hspot
    exact ⟨hname, hfirst, Nat.lt_of_lt_of_le hlt h'.grows.next_le⟩
  named := by
    refine List.forall_mem_append.mpr ⟨fun spot hspot name hname => ?_, h'.named⟩
    exact h'.grows.names name _ (h.named spot hspot name hname)
  unnamed := by
    refine List.forall_mem_append.mpr ⟨h.unnamed, fun spot hspot hnone => ?_⟩
    exact Nat.le_trans h.grows.next_le (h'.unnamed spot hspot hnone)
  separate := by
    refine List.pairwise_append.mpr ⟨h.separate, h'.separate, fun a ha b hb => ⟨?_, ?_⟩⟩
    · intro hsame
      have hwritten : a.written = b.written := by
        rw [← (h.var a ha).1, ← (h'.var b hb).1, hsame]
      cases hname : a.written with
      | some name => exact ⟨name, rfl, hwritten ▸ hname⟩
      | none =>
          have hlt := (h.var a ha).2.2
          have hle := h'.unnamed b hb (hwritten ▸ hname)
          rw [hsame] at hlt
          omega
    · rintro ⟨name, haname, hbname⟩
      have ha' := h'.grows.names name _ (h.named a ha name haname)
      exact Option.some.inj (ha'.symm.trans (h'.named b hb name hbname))

end Places

theorem places_named {first : Nat} {naming : Naming} (h : naming.Own first) (name : String) :
    naming.Places first [⟨some name, ((named name).run naming).1⟩] ((named name).run naming).2 := by
  have hown : ((named name).run naming).2.Own first := by
    cases hname : naming.names.get? name with
    | some v => rwa [run_named_of_some hname]
    | none =>
        rw [run_named_of_none hname]
        refine ⟨Nat.le_succ_of_le h.next_le, fun other v hv => ?_⟩
        rw [Table.get?_insert] at hv
        split at hv
        · next heq =>
            cases hv
            exact ⟨congrArg some heq, h.next_le, Nat.lt_succ_self _⟩
        · obtain ⟨hlabel, hfirst, hlt⟩ := h.names other v hv
          exact ⟨hlabel, hfirst, Nat.lt_succ_of_lt hlt⟩
  have hget := naming.get?_named name
  refine ⟨naming.grows_named name, hown, ?_, ?_, ?_, List.pairwise_singleton _ _⟩
  · exact List.forall_mem_singleton.mpr (hown.names name _ hget)
  · refine List.forall_mem_singleton.mpr fun other hother => ?_
    cases hother
    exact hget
  · exact List.forall_mem_singleton.mpr fun hnone => by cases hnone

theorem places_fresh {first : Nat} {naming : Naming} (h : naming.Own first) :
    naming.Places first [⟨none, (fresh.run naming).1⟩] (fresh.run naming).2 := by
  have hown : (fresh.run naming).2.Own first := by
    refine ⟨Nat.le_succ_of_le h.next_le, fun name v hv => ?_⟩
    obtain ⟨hlabel, hfirst, hlt⟩ := h.names name v hv
    exact ⟨hlabel, hfirst, Nat.lt_succ_of_lt hlt⟩
  refine ⟨naming.grows_advance, hown, ?_, ?_, ?_, List.pairwise_singleton _ _⟩
  · exact List.forall_mem_singleton.mpr ⟨rfl, h.next_le, Nat.lt_succ_self _⟩
  · exact List.forall_mem_singleton.mpr fun name hname => by cases hname
  · exact List.forall_mem_singleton.mpr fun _ => Nat.le_refl _

end Naming

namespace TypeTerm

variable {first : Nat}

mutual

/-- A lowered type follows the written one, and its spots get their variables. -/
theorem exists_copied : (term : TypeTerm) → (naming : Naming) → naming.Own first →
    ∃ spots, term.Copied (term.lower.run naming).1 spots ∧
      naming.Places first spots (term.lower.run naming).2
  | .var name, naming, h => by
      rw [lower, run_bind]
      exact ⟨_, .var name _, Naming.places_named h name⟩
  | .con name, naming, h => by
      rw [lower]
      exact ⟨[], .con name, .nil h⟩
  | .constraint ⟨className, params⟩, naming, h => by
      obtain ⟨spots, hargs, hplaces⟩ := exists_copiedAll params naming h
      rw [lower, run_bind]
      exact ⟨spots, .constraint hargs, hplaces⟩
  | .qualified context body, naming, h => by
      obtain ⟨spots, hbody, hplaces⟩ := exists_copied body naming h
      rw [lower]
      exact ⟨spots, .qualified hbody, hplaces⟩
  | .arrow inputs output, naming, h => by
      obtain ⟨spots, hinputs, hplaces⟩ := exists_copiedAll inputs naming h
      obtain ⟨spots', houtput, hplaces'⟩ := exists_copied output _ hplaces.own
      rw [lower, run_bind, run_bind]
      exact ⟨spots ++ spots', .arrow hinputs houtput, hplaces.append hplaces'⟩
  | .apply base args, naming, h => by
      obtain ⟨spots, hbase, hplaces⟩ := exists_copied base naming h
      obtain ⟨spots', hargs, hplaces'⟩ := exists_copiedAll args _ hplaces.own
      rw [lower, run_bind, run_bind]
      exact ⟨spots ++ spots', .apply hbase hargs, hplaces.append hplaces'⟩
  | .list element, naming, h => by
      obtain ⟨spots, helement, hplaces⟩ := exists_copied element naming h
      rw [lower, run_bind]
      exact ⟨spots, .list helement, hplaces⟩
  | .tuple elements, naming, h => by
      obtain ⟨spots, helements, hplaces⟩ := exists_copiedAll elements naming h
      rw [lower, run_bind]
      exact ⟨spots, .tuple helements, hplaces⟩
  | .data name cases, naming, h => by
      rw [lower]
      exact ⟨[], .data name cases, .nil h⟩
  | .conditional condition yes no, naming, h => by
      rw [lower, run_bind]
      exact ⟨_, .conditional condition yes no _, Naming.places_fresh h⟩

theorem exists_copiedAll : (terms : List TypeTerm) → (naming : Naming) → naming.Own first →
    ∃ spots, CopiedAll terms ((lowerAll terms).run naming).1 spots ∧
      naming.Places first spots ((lowerAll terms).run naming).2
  | [], naming, h => by
      rw [lowerAll]
      exact ⟨[], .nil, .nil h⟩
  | term :: rest, naming, h => by
      obtain ⟨spots, hterm, hplaces⟩ := exists_copied term naming h
      obtain ⟨spots', hrest, hplaces'⟩ := exists_copiedAll rest _ hplaces.own
      rw [lowerAll, run_bind, run_bind]
      exact ⟨spots ++ spots', .cons hterm hrest, hplaces.append hplaces'⟩

end

end TypeTerm

namespace Signature

variable (signature : Signature) (first : Nat)

/-- One use of a signature, from the counter on. -/
theorem exists_copied :
    ∃ spots spots',
      TypeTerm.CopiedAll signature.inputs (signature.lower.run ⟨{}, first⟩).1.1 spots ∧
      signature.output.Copied (signature.lower.run ⟨{}, first⟩).1.2 spots' ∧
      Naming.Places first ⟨{}, first⟩ (spots ++ spots') (signature.lower.run ⟨{}, first⟩).2 := by
  obtain ⟨spots, hinputs, hplaces⟩ :=
    TypeTerm.exists_copiedAll signature.inputs _ (Naming.own_no_names first)
  obtain ⟨spots', houtput, hplaces'⟩ := signature.output.exists_copied _ hplaces.own
  exact ⟨spots, spots', hinputs, houtput, hplaces.append hplaces'⟩

/-- The variables of a use have the numbers that it takes. -/
theorem all_lower :
    ∀ t ∈ (signature.lower.run ⟨{}, first⟩).1.1 ++ [(signature.lower.run ⟨{}, first⟩).1.2],
      t.All fun v => first ≤ v.id ∧ v.id < (signature.lower.run ⟨{}, first⟩).2.next := by
  obtain ⟨spots, spots', hinputs, houtput, hplaces⟩ := signature.exists_copied first
  obtain ⟨hspots, hspots'⟩ := List.forall_mem_append.mp fun spot hspot =>
    (hplaces.var spot hspot).2
  exact List.forall_mem_append.mpr
    ⟨hinputs.all hspots, List.forall_mem_singleton.mpr (houtput.all hspots')⟩

end Signature

/-! ## Two uses -/

/-- Exchange some numbers from one on with as many from another one on. -/
def exchangeBlocks (m n count i : Nat) : Nat :=
  if m ≤ i ∧ i < m + count then i - m + n
  else if n ≤ i ∧ i < n + count then i - n + m
  else i

theorem involutive_exchangeBlocks {m n count : Nat} (h : m + count ≤ n) :
    Function.Involutive (exchangeBlocks m n count) := by
  intro i
  unfold exchangeBlocks
  split_ifs <;> omega

/-- Move all numbers from one on to another one. -/
def Shift.ofNumbers (m n : Nat) : Shift where
  first := m
  target := n
  rename v := { v with id := v.id - m + n }
  moves k name := by
    show TypeVar.mk (m + k - m + n) name = ⟨n + k, name⟩
    rw [Nat.add_sub_cancel_left, Nat.add_comm]

namespace Signature

variable (signature : Signature) {m n : Nat}

/-- A later use is the earlier one with other numbers. -/
theorem exists_renumbering (h : (signature.lower.run ⟨{}, m⟩).2.next ≤ n) :
    ∃ π : Equiv.Perm Nat,
      (signature.lower.run ⟨{}, n⟩).1.1 =
        (signature.lower.run ⟨{}, m⟩).1.1.map (Ty.rename (TypeVar.renumber π)) ∧
      (signature.lower.run ⟨{}, n⟩).1.2 =
        (signature.lower.run ⟨{}, m⟩).1.2.rename (TypeVar.renumber π) := by
  obtain ⟨count, hcount⟩ := Nat.exists_eq_add_of_le (signature.grows_lower ⟨{}, m⟩).next_le
  have hblocks : m + count ≤ n := hcount ▸ h
  let π := (involutive_exchangeBlocks hblocks).toPerm
  have hrename : ∀ t ∈ (signature.lower.run ⟨{}, m⟩).1.1 ++ [(signature.lower.run ⟨{}, m⟩).1.2],
      (Shift.ofNumbers m n).type t = t.rename (TypeVar.renumber π) := by
    intro t ht
    refine Ty.rename_congr fun v hv => ?_
    have hrange := signature.all_lower m t ht v hv
    rw [hcount] at hrange
    have hnumber : π v.id = v.id - m + n := if_pos hrange
    simp only [Shift.ofNumbers, TypeVar.renumber, hnumber]
  obtain ⟨hinputs, houtput⟩ := List.forall_mem_append.mp hrename
  have hlowers := ((Shift.ofNumbers m n).lowers_signature signature ⟨{}, m⟩ ⟨{}, n⟩
    ⟨Shift.names_nothing _, Shift.counts_first _⟩).1
  refine ⟨π, ?_, ?_⟩
  · rw [hlowers]
    exact List.map_congr_left hinputs
  · rw [hlowers]
    exact houtput _ (.head _)

end Signature

/-! ## Uses in a session -/

namespace Session

/-- A variable stands somewhere in a session or in the aliases that it goes by. -/
inductive Mentions (aliases : Aliases) (session : Session) (v : TypeVar) : Prop where
  | aliased {name : String} {body : Ty} (h : aliases.get? name = some body)
      (hv : body.occurs v = true)
  | bound {t : Ty} (h : session.subst.get? v = some t)
  | image {w : TypeVar} {t : Ty} (h : session.subst.get? w = some t) (hv : t.occurs v = true)
  | literal (h : v ∈ session.numeric)
  | scope {scope : Table String Ty} {name : String} {t : Ty}
      (hscope : scope ∈ session.scopes.toList) (h : scope.get? name = some t)
      (hv : t.occurs v = true)

theorem Orderly.has_of_mentions {aliases : Aliases} {ledger : Ledger} {session : Session}
    (h : session.Orderly aliases ledger) {v : TypeVar} (hv : session.Mentions aliases v) :
    ledger.Has v := by
  cases hv with
  | aliased hbody hv => exact h.bodies _ _ hbody v hv
  | bound hbound => exact (h.subst v _ hbound).1
  | image hbound hv => exact (h.subst _ _ hbound).2 v hv
  | literal hv => exact h.numeric v hv
  | scope hscope ht hv => exact h.scopes _ hscope _ _ ht v hv

end Session

namespace Program

/-- Whatever session a run has come to, a use of a signature succeeds. Its types follow the
written ones, with the same variable wherever the same name is written, in all inputs and the
output, and with a variable of its own for every conditional type. The session has no variable of
these numbers yet. A later use has the same types with other numbers, and none of the variables. -/
theorem signature_uses_are_copies (program : Program) (signature : Signature) {orders : Orders}
    {setting : Setting} {first : Nat} {session : Session}
    (hsetting : Setting.ofGlobals (.collect program) orders = (setting, first))
    (hreached : setting.Reached first session) :
    ∃ inputs output names after,
      (Check.lowering {} signature.lower).Gives session ((inputs, output), names) after ∧
      (∃ spots spots', TypeTerm.CopiedAll signature.inputs inputs spots ∧
        signature.output.Copied output spots' ∧ (spots ++ spots').Pairwise Spot.Separate) ∧
      (∀ t ∈ inputs ++ [output], ∀ u ∈ inputs ++ [output],
        t.All fun v => u.All fun w => v.id = w.id → v = w) ∧
      (∀ t ∈ inputs ++ [output], t.All fun v =>
        ∀ w, session.Mentions setting.aliases w → w.id ≠ v.id) ∧
      ∀ later : Session, after.next ≤ later.next → ∃ inputs' output' names' after',
        (Check.lowering {} signature.lower).Gives later ((inputs', output'), names') after' ∧
        (∃ π : Equiv.Perm Nat, inputs' = inputs.map (Ty.rename (TypeVar.renumber π)) ∧
          output' = output.rename (TypeVar.renumber π)) ∧
        ∀ t ∈ inputs ++ [output], ∀ u ∈ inputs' ++ [output'],
          t.All fun v => u.All fun w => v.id ≠ w.id := by
  obtain ⟨ledger, horderly⟩ := program.orderly_of_reached hsetting hreached
  obtain ⟨spots, spots', hinputs, houtput, hplaces⟩ := signature.exists_copied session.next
  have hown := signature.all_lower session.next
  refine ⟨_, _, _, _, Check.gives_lowering.mpr ⟨rfl, rfl⟩,
    ⟨spots, spots', hinputs, houtput, hplaces.separate⟩, ?_, ?_, fun later hlater => ?_⟩
  · obtain ⟨last, _, _, hissued, hissued'⟩ := Ledger.issues_signature signature ledger
      ⟨{}, session.next⟩ ledger List.prefix_rfl ⟨horderly.next, fun _ _ hv => by cases hv⟩
    have hhas := List.forall_mem_append.mpr ⟨hissued, List.forall_mem_singleton.mpr hissued'⟩
    intro t ht u hu v hv w hw hid
    exact (hhas t ht v hv).unique (hhas u hu w hw) hid
  · intro t ht v hv w hw hid
    have hlt := (horderly.has_of_mentions hw).lt_length
    have hle := (hown t ht v hv).1
    rw [horderly.next] at hle
    omega
  · refine ⟨_, _, _, _, Check.gives_lowering.mpr ⟨rfl, rfl⟩,
      signature.exists_renumbering hlater, ?_⟩
    intro t ht u hu v hv w hw
    have hlt := (hown t ht v hv).2
    have hle := (signature.all_lower later.next u hu w hw).1
    exact Nat.ne_of_lt (Nat.lt_of_lt_of_le (Nat.lt_of_lt_of_le hlt hlater) hle)

end Program

namespace Moving

/-- The session after `settle`. -/
def settled : Session :=
  ((setting.checkFunctions [⟨⟨"settle", none, {}⟩, [clause]⟩]).run {}).2

/-- A signature in which two names and a conditional type are written:

    choose : a -> (if a then b else a) -> (b, a)
-/
def choice : Signature where
  name := ⟨"choose", none, {}⟩
  inputs := [.var "a", .conditional (.var "a") (.var "b") (.var "a")]
  output := .tuple [.var "b", .var "a"]

/-- After `settle` has taken two variables, the first use of the signature takes three. -/
theorem signature_uses_are_copies_settled :
    Setting.ofGlobals (.collect program) = (setting, 0) ∧ setting.Reached 0 settled ∧
    settled.Mentions setting.aliases ⟨0, none⟩ ∧
    ∃ names after,
      (Check.lowering {} choice.lower).Gives settled
        (([.var ⟨2, some "a"⟩, .var ⟨3, none⟩], .tuple [.var ⟨4, some "b"⟩, .var ⟨2, some "a"⟩]),
          names) after ∧
      ∃ inputs' output' names' after',
        (Check.lowering {} choice.lower).Gives after ((inputs', output'), names') after' ∧
        ∃ π : Equiv.Perm Nat,
          output' = .tuple [.var ⟨π 4, some "b"⟩, .var ⟨π 2, some "a"⟩] := by
  have hreached : setting.Reached 0 settled := .between (Setting.Between.start.checkFunctions _)
  obtain ⟨inputs, output, names, after, hgives, -, -, -, hagain⟩ :=
    Program.signature_uses_are_copies program choice ofGlobals_program hreached
  have hmentions : settled.Mentions setting.aliases ⟨0, none⟩ :=
    @Session.Mentions.bound _ _ _ (.con "Amount") rfl
  have hfirst : (Check.lowering {} choice.lower).Gives settled
      (([.var ⟨2, some "a"⟩, .var ⟨3, none⟩], .tuple [.var ⟨4, some "b"⟩, .var ⟨2, some "a"⟩]), _)
      _ := rfl
  obtain ⟨heq, rfl⟩ := hgives.unique hfirst
  cases heq
  obtain ⟨inputs', output', names', after', hgives', ⟨π, -, houtput⟩, -⟩ :=
    hagain _ (Nat.le_refl _)
  exact ⟨ofGlobals_program, hreached, hmentions, _, _, hgives, inputs', output', names', after',
    hgives', π, houtput⟩

end Moving

end Rubric
