import Rubric.Proofs.Tree.Enumeration
import Rubric.Typing.Checking

/-!
# Declarations stand at the top

Aliases, signatures, records and functions are met by a walk over a program, but only the
declarations of the program itself are of these shapes, and nothing below them is. What the
walk collects is therefore what the list of declarations has, one after the other.
-/

namespace Rubric

namespace Node

theorem map_node_visits (node : Node) (parent : Option Node) :
    (node.visits parent).map Visit.node = node.subtree := by
  rw [subtree, visits_eq node parent, visits_eq node none]
  rfl

theorem subtree_eq (node : Node) : node.subtree = node :: node.children.flatMap subtree := by
  rw [subtree, visits_eq, List.map_cons, List.map_flatMap]
  simp only [map_node_visits]

/-- Whether a node is a program or something that a program declares. -/
def isDeclaration : Node → Bool
  | program _ | function _ | signature _ | typeAlias _ | record _ => true
  | _ => false

theorem isDeclaration_of_mem_children {node child : Node} (h : child ∈ node.children)
    (hnode : ∀ p, node ≠ program p) : child.isDeclaration = false := by
  obtain ⟨i, hi⟩ := List.getElem?_of_mem h
  have hchild := child_iff.2 hi
  have hbody : ∀ body i n, BodyChild body i n → n.isDeclaration = false := by
    rintro _ _ _ (_ | _) <;> rfl
  cases hchild with
  | declaration => exact (hnode _ rfl).elim
  | clauseBody h | clauseResult h => exact hbody _ _ _ h
  | pattern h | typeTerm h => cases h <;> rfl
  | @form e => cases e <;> rfl
  | _ => rfl

/-- Below a node that is no program nothing is declared. -/
theorem filter_subtree (node : Node) (hnode : ∀ p, node ≠ program p) :
    node.subtree.filter isDeclaration = [node].filter isDeclaration := by
  induction node using children_induction with
  | step node ih =>
      have hbelow : ∀ child ∈ node.children, child.subtree.filter isDeclaration = [] := by
        intro child hmem
        have hchild := isDeclaration_of_mem_children hmem hnode
        rw [ih child hmem]
        · simp [hchild]
        · rintro p rfl
          cases hchild
      have hrow : (node.children.flatMap subtree).filter isDeclaration = [] := by
        rw [List.filter_flatMap, List.flatMap_congr hbelow]
        simp
      rw [subtree_eq, ← List.singleton_append, List.filter_append, hrow, List.append_nil]

theorem filter_subtree_program (p : Program) :
    (program p).subtree.filter isDeclaration = program p :: p.declarations.map ofDeclaration := by
  have hdeclared : ∀ d : Declaration, (ofDeclaration d).subtree.filter isDeclaration =
      [ofDeclaration d] := by
    intro d
    rw [filter_subtree]
    · cases d <;> rfl
    · cases d <;> simp [ofDeclaration]
  rw [subtree_eq, children, List.flatMap_map, List.filter_cons_of_pos rfl, List.filter_flatMap]
  simp only [hdeclared]
  rw [List.map_eq_flatMap]

end Node

/-- The declarations of a program are collected one after the other. -/
theorem Globals.collect_eq (program : Program) :
    collect program =
      program.declarations.foldl (fun globals d => globals.note (.ofDeclaration d)) {} := by
  have hskip : ∀ (nodes : List Node) (globals : Globals),
      nodes.foldl note globals = (nodes.filter Node.isDeclaration).foldl note globals := by
    intro nodes globals
    rw [List.foldl_filter]
    refine List.foldl_ext _ _ _ fun globals node _ => ?_
    cases node <;> rfl
  rw [collect, hskip, Node.filter_subtree_program, List.foldl_cons, List.foldl_map]
  rfl

theorem Node.filterMap_asFunction? (program : Program) :
    (Node.program program).subtree.filterMap asFunction? = program.functions := by
  have hskip : ∀ nodes : List Node,
      nodes.filterMap asFunction? = (nodes.filter isDeclaration).filterMap asFunction? := by
    intro nodes
    rw [List.filterMap_filter]
    refine List.filterMap_congr fun node _ => ?_
    cases node <;> rfl
  rw [hskip, filter_subtree_program, List.filterMap_cons_none rfl, List.filterMap_map]
  refine List.filterMap_congr fun d _ => ?_
  cases d <;> rfl

end Rubric
