import Rubric.Proofs.Tree.Position

/-!
# A walk enumerates the tree

A node below a root is found by its path, the list of positions that leads to it.
`Node.Occurs` says what stands at a path and under which parent. The walk meets every path
once, in lexicographic order with prefixes first, and calls at each the handler for the
shape of the node there and then the wildcard.

The induction is on the tree. What it needs is a listing that knows the paths:
`Node.occurrences` is that listing, `Node.visits` is what is left of it without the paths,
and every walk is a fold over `Node.visits`.
-/

namespace Rubric

namespace Node

/-- What a walk from a root that stands under `above` should see at a path: the node that
the positions of the path lead to, with the node one position earlier as its parent. -/
inductive Occurs (root : Node) (above : Option Node) : List Nat → Visit → Prop where
  | root : Occurs root above [] ⟨root, above⟩
  | child {path : List Nat} {node : Node} {parent : Option Node} {position : Nat} {child : Node}
      (h : Occurs root above path ⟨node, parent⟩) (hchild : Child node position child) :
      Occurs root above (path ++ [position]) ⟨child, some node⟩

theorem occurs_nil_iff {root : Node} {above : Option Node} {visit : Visit} :
    Occurs root above [] visit ↔ visit = ⟨root, above⟩ := by
  constructor
  · intro h
    generalize hpath : ([] : List Nat) = path at h
    cases h with
    | root => rfl
    | child h hchild => simp at hpath
  · rintro rfl
    exact .root

/-- A path can be followed from its first position on as well. -/
theorem occurs_cons_iff {root : Node} {above : Option Node} {position : Nat} {path : List Nat}
    {visit : Visit} :
    Occurs root above (position :: path) visit ↔
      ∃ child, Child root position child ∧ Occurs child (some root) path visit := by
  constructor
  · intro h
    generalize hwhole : position :: path = whole at h
    induction h generalizing path with
    | root => cases hwhole
    | @child before node parent last child h hchild ih =>
        cases before with
        | nil =>
            obtain ⟨rfl, rfl⟩ := List.cons.inj hwhole
            obtain ⟨rfl, rfl⟩ := Visit.mk.inj (occurs_nil_iff.1 h)
            exact ⟨child, hchild, .root⟩
        | cons first before =>
            obtain ⟨rfl, rfl⟩ := List.cons.inj hwhole
            obtain ⟨top, htop, hbefore⟩ := ih rfl
            exact ⟨top, htop, .child hbefore hchild⟩
  · rintro ⟨child, hchild, h⟩
    induction h with
    | root => exact .child .root hchild
    | child h hlast ih => exact .child ih hlast

/-- A statement about nodes holds if it passes from the children of a node to the node. -/
theorem children_induction {motive : Node → Prop}
    (step : ∀ node, (∀ child ∈ node.children, motive child) → motive node) (node : Node) :
    motive node :=
  step node fun child _ => children_induction step child
termination_by node.weight
decreasing_by exact weight_lt_of_mem_children ‹_›

end Node

/-- A visit and the path at which it happens. -/
structure Occurrence where
  path : List Nat
  visit : Visit

/-- An occurrence below the node at a position, seen from one node higher. -/
def Occurrence.under (position : Nat) (occurrence : Occurrence) : Occurrence :=
  ⟨position :: occurrence.path, occurrence.visit⟩

namespace Node

/-- The visits below a node with their paths. -/
def occurrences (node : Node) (parent : Option Node) : List Occurrence :=
  ⟨[], ⟨node, parent⟩⟩ :: node.children.attach.zipIdx.flatMap fun child =>
    (child.1.val.occurrences (some node)).map (.under child.2)
termination_by node.weight
decreasing_by exact weight_lt_of_mem_children child.1.property

theorem occurrences_eq (node : Node) (parent : Option Node) :
    node.occurrences parent = ⟨[], ⟨node, parent⟩⟩ :: node.children.zipIdx.flatMap fun child =>
      (child.1.occurrences (some node)).map (.under child.2) := by
  have hzip : node.children.zipIdx =
      node.children.attach.zipIdx.map (Prod.map Subtype.val id) := by
    rw [← List.zipIdx_map, List.attach_map_subtype_val]
  rw [occurrences, hzip, List.flatMap_map]
  rfl

theorem map_visit_occurrences (node : Node) (parent : Option Node) :
    (node.occurrences parent).map Occurrence.visit = node.visits parent := by
  induction node using children_induction generalizing parent with
  | step node ih =>
      have hbelow : ∀ child ∈ node.children.zipIdx,
          ((child.1.occurrences (some node)).map (.under child.2)).map Occurrence.visit =
            child.1.visits (some node) := by
        intro child hchild
        rw [List.map_map, ← ih child.1 (List.fst_mem_of_mem_zipIdx hchild)]
        rfl
      rw [occurrences_eq, visits_eq, List.map_cons, List.map_flatMap,
        List.flatMap_congr hbelow]
      conv_rhs => rw [← List.zipIdx_map_fst 0 node.children, List.flatMap_map]

/-- The listing has what stands at a path, and nothing else. -/
theorem mem_occurrences {node : Node} {parent : Option Node} {occurrence : Occurrence} :
    occurrence ∈ node.occurrences parent ↔
      Occurs node parent occurrence.path occurrence.visit := by
  induction node using children_induction generalizing parent occurrence with
  | step node ih =>
      obtain ⟨path, visit⟩ := occurrence
      rw [occurrences_eq, List.mem_cons, List.mem_flatMap]
      cases path with
      | nil =>
          rw [occurs_nil_iff]
          simp [Occurrence.under]
      | cons position path =>
          rw [occurs_cons_iff]
          constructor
          · rintro (h | ⟨⟨child, index⟩, hchild, h⟩)
            · cases h
            · obtain ⟨below, hbelow, h⟩ := List.mem_map.1 h
              obtain ⟨⟨rfl, rfl⟩, rfl⟩ : (index = position ∧ below.path = path) ∧
                  below.visit = visit := by
                simpa [Occurrence.under] using h
              have hposition := List.mem_zipIdx_iff_getElem?.1 hchild
              exact ⟨child, child_iff.2 hposition,
                (ih child (List.mem_of_getElem? hposition)).1 hbelow⟩
          · rintro ⟨child, hchild, h⟩
            have hposition := child_iff.1 hchild
            have hmem : (⟨path, visit⟩ : Occurrence) ∈ child.occurrences (some node) :=
              (ih child (List.mem_of_getElem? hposition)).2 h
            exact .inr ⟨(child, position), List.mem_zipIdx_iff_getElem?.2 hposition,
              List.mem_map_of_mem hmem⟩

theorem pairwise_zipIdx {α : Type} (xs : List α) :
    xs.zipIdx.Pairwise fun x y => x.2 < y.2 := by
  have hrange : (List.range' 0 xs.length).Pairwise (· < ·) := List.pairwise_lt_range'
  rw [← List.zipIdx_map_snd 0 xs, List.pairwise_map] at hrange
  exact hrange

/-- The listing is strictly ordered by path, so no path occurs twice. -/
theorem pairwise_occurrences (node : Node) (parent : Option Node) :
    (node.occurrences parent).Pairwise fun x y => x.path < y.path := by
  induction node using children_induction generalizing parent with
  | step node ih =>
      rw [occurrences_eq, List.pairwise_cons, List.pairwise_flatMap]
      refine ⟨?_, ?_, ?_⟩
      · intro occurrence hmem
        obtain ⟨child, -, hmem⟩ := List.mem_flatMap.1 hmem
        obtain ⟨below, -, rfl⟩ := List.mem_map.1 hmem
        exact List.Lex.nil
      · intro child hchild
        rw [List.pairwise_map]
        exact (ih child.1 (List.fst_mem_of_mem_zipIdx hchild) _).imp List.Lex.cons
      · refine (pairwise_zipIdx node.children).imp ?_
        intro left right hlt x hx y hy
        obtain ⟨x, -, rfl⟩ := List.mem_map.1 hx
        obtain ⟨y, -, rfl⟩ := List.mem_map.1 hy
        exact List.Lex.rel hlt

end Node

/-! ## Walks are folds over the visits -/

section Walks

variable {σ : Type} (visitor : Visitor σ) (wildcard : Node → Option Node → σ → σ)

theorem traverse_eq (node : Node) (parent : Option Node) (state : σ) :
    traverse visitor wildcard node parent state =
      node.children.foldl (fun state child => traverse visitor wildcard child (some node) state)
        (wildcard node parent (visitor.handle node parent state)) := by
  have below : ∀ (state : σ) (child : Node) (h : child ∈ node.children),
      traverse visitor wildcard (⟨child, h⟩ : { c // c ∈ node.children }).val (some node) state =
        (fun state child => traverse visitor wildcard child (some node) state) state child :=
    fun _ _ _ => rfl
  rw [traverse, List.foldl_subtype below, List.unattach_attach]

theorem traverse_eq_foldl (node : Node) (parent : Option Node) (state : σ) :
    traverse visitor wildcard node parent state =
      (node.visits parent).foldl (fun state visit =>
        wildcard visit.node visit.parent (visitor.handle visit.node visit.parent state))
        state := by
  induction node using Node.children_induction generalizing parent state with
  | step node ih =>
      rw [traverse_eq, Node.visits_eq, List.foldl_cons, List.foldl_flatMap]
      exact List.foldl_ext _ _ _ fun state child hchild => ih child hchild (some node) state

theorem handle_idle (node : Node) (parent : Option Node) (state : σ) :
    Visitor.idle.handle node parent state = state := by
  cases node <;> rfl

end Walks

namespace Event

/-- Whether an event is the call of a handler. -/
def isHandled : Event → Bool
  | handled .. => true
  | noticed _ => false

theorem handle_logger (node : Node) (parent : Option Node) (log : Array Event) :
    logger.handle node parent log = log.push (handled node.shape ⟨node, parent⟩) := by
  cases node <;> rfl

/-- A fold that appends to a log at every visit leaves the rows of all visits in order. -/
theorem toList_foldl {step : Array Event → Visit → Array Event} {row : Visit → List Event}
    (hstep : ∀ log visit, (step log visit).toList = log.toList ++ row visit)
    (visits : List Visit) (log : Array Event) :
    (visits.foldl step log).toList = log.toList ++ visits.flatMap row := by
  induction visits generalizing log with
  | nil => simp
  | cons visit rest ih =>
      rw [List.foldl_cons, ih, hstep, List.flatMap_cons, List.append_assoc]

theorem both_eq (node : Node) (parent : Option Node) :
    both node parent = (node.visits parent).flatMap fun visit =>
      [handled visit.node.shape visit, noticed visit] := by
  rw [both, traverse_eq_foldl, toList_foldl _ _ #[]]
  · rfl
  · intro log visit
    simp [handle_logger, logNoticed]

theorem handlers_eq (node : Node) :
    handlers node = (node.visits none).map fun visit => handled visit.node.shape visit := by
  rw [handlers, walk, traverse_eq_foldl, toList_foldl _ _ #[], List.map_eq_flatMap]
  · rfl
  · intro log visit
    simp [handle_logger]

theorem wildcards_eq (node : Node) :
    wildcards node = (node.visits none).map noticed := by
  rw [wildcards, walkAll, traverse_eq_foldl, toList_foldl _ _ #[], List.map_eq_flatMap]
  · rfl
  · intro log visit
    simp [handle_idle, logNoticed]

end Event

/-- A walk enumerates the tree. The paths below a root, each with the node and the parent
that it leads to, form one list in strict lexicographic order, prefixes first. The calls of
the wildcard and those of the handlers, each handler the one for the shape of its node, are
this list, and a walk with both makes the two calls of a path one right after the other. Any
visitor and any wildcard, whatever they do with their state, are run along the same list. -/
theorem walks_enumerate_paths (root : Node) :
    ∃ paths : List Occurrence,
      (paths.map Occurrence.path).Pairwise (· < ·) ∧
      (∀ occurrence, occurrence ∈ paths ↔
        Node.Occurs root none occurrence.path occurrence.visit) ∧
      Event.wildcards root = paths.map (fun spot => .noticed spot.visit) ∧
      Event.handlers root = paths.map (fun spot => .handled spot.visit.node.shape spot.visit) ∧
      Event.both root none = paths.flatMap (fun spot =>
        [.handled spot.visit.node.shape spot.visit, .noticed spot.visit]) ∧
      (Event.both root none).filter Event.isHandled = Event.handlers root ∧
      (Event.both root none).filter (fun event => !event.isHandled) = Event.wildcards root ∧
      ∀ (σ : Type) (visitor : Visitor σ) (wildcard : Node → Option Node → σ → σ) (state : σ),
        traverse visitor wildcard root none state =
          paths.foldl (fun state spot => wildcard spot.visit.node spot.visit.parent
            (visitor.handle spot.visit.node spot.visit.parent state)) state ∧
        walk visitor root state =
          paths.foldl (fun state spot =>
            visitor.handle spot.visit.node spot.visit.parent state) state ∧
        walkAll wildcard root state =
          paths.foldl (fun state spot =>
            wildcard spot.visit.node spot.visit.parent state) state := by
  have hvisits := Node.map_visit_occurrences root none
  refine ⟨root.occurrences none, ?_, fun _ => Node.mem_occurrences, ?_, ?_, ?_, ?_, ?_, ?_⟩
  · rw [List.pairwise_map]
    exact Node.pairwise_occurrences root none
  · rw [Event.wildcards_eq, ← hvisits, List.map_map]
    rfl
  · rw [Event.handlers_eq, ← hvisits, List.map_map]
    rfl
  · rw [Event.both_eq, ← hvisits, List.flatMap_map]
  · rw [Event.both_eq, Event.handlers_eq, List.filter_flatMap, List.map_eq_flatMap]
    rfl
  · rw [Event.both_eq, Event.wildcards_eq, List.filter_flatMap, List.map_eq_flatMap]
    rfl
  · intro σ visitor wildcard state
    simp only [walk, walkAll, traverse_eq_foldl, ← hvisits, List.foldl_map, handle_idle,
      and_self]

end Rubric
