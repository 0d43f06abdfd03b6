import BlockBot.Graph.Resolve
import Mathlib.Logic.Relation

/-!
# Edges of a graph

What a walk through a graph can follow, said of the arena alone. An id names the last node that
carries it (`Names`), an edge leads from a node to a node that one of its child ids names (`Edge`),
and the nodes that matter are those on a path from a root (`Reachable`). The lists `childRefs` and
`rootRefs` hold the same references in their order, with `none` for an id that names no node.
-/

namespace BlockBot.Graph

/-- A node is the last one that carries an id. -/
def Names (g : Graph) (id : String) (i : Nat) : Prop :=
  (∃ n, g.nodes[i]? = some n ∧ n.id = id) ∧ ∀ j m, i < j → g.nodes[j]? = some m → m.id ≠ id

/-- A child id of one node names another one. -/
def Edge (g : Graph) (i j : Nat) : Prop :=
  ∃ n, g.nodes[i]? = some n ∧ ∃ id ∈ n.children, g.Names id j

/-- A node is a root: a root id names it, or there are no root ids and its id is nobody's child. -/
def IsRoot (g : Graph) (i : Nat) : Prop :=
  (∃ id ∈ g.roots, g.Names id i) ∨
    (g.roots = [] ∧ ∃ n, g.nodes[i]? = some n ∧ ∀ m ∈ g.nodes, n.id ∉ m.children)

/-- A node lies on a path from a root. -/
def Reachable (g : Graph) (i : Nat) : Prop :=
  ∃ r, g.IsRoot r ∧ Relation.ReflTransGen g.Edge r i

/-- No path leads from a node back to it. -/
def Acyclic (g : Graph) : Prop :=
  ∀ i, ¬ Relation.TransGen g.Edge i i

/-- The child ids of a node, each as the index that it names. -/
def childRefs (g : Graph) (i : Nat) : List (Option Nat) :=
  match g.nodes[i]? with
  | some n => n.children.map g.index?
  | none => []

/-- The roots in their order: the root ids, each as the index that it names, or else the inferred
roots. -/
def rootRefs (g : Graph) : List (Option Nat) :=
  if g.roots.isEmpty then g.inferredRoots.map some else g.roots.map g.index?

/-! ## Looking up an id -/

theorem lastIndex?_succ (id : String) (i : Nat) (ns : List Node) :
    lastIndex? id (i + 1) ns = (lastIndex? id i ns).map (· + 1) := by
  induction ns generalizing i with
  | nil => rfl
  | cons n ns ih =>
      simp only [lastIndex?]
      rw [ih (i + 1)]
      cases lastIndex? id (i + 1) ns with
      | some j => rfl
      | none => by_cases h : n.id = id <;> simp [h]

theorem lastIndex?_eq_none {id : String} {ns : List Node} :
    lastIndex? id 0 ns = none ↔ ∀ n ∈ ns, n.id ≠ id := by
  induction ns with
  | nil => simp [lastIndex?]
  | cons n ns ih =>
      simp only [lastIndex?, lastIndex?_succ, List.forall_mem_cons]
      cases hr : lastIndex? id 0 ns with
      | some j =>
          rw [hr] at ih
          simpa using fun _ => (not_congr ih).mp (by simp)
      | none =>
          rw [hr] at ih
          simpa using fun _ => ih.mp rfl

/-- The index that is found is that of the last node with the id. -/
theorem lastIndex?_eq_some {id : String} {ns : List Node} {i : Nat} :
    lastIndex? id 0 ns = some i ↔
      (∃ n, ns[i]? = some n ∧ n.id = id) ∧ ∀ j m, i < j → ns[j]? = some m → m.id ≠ id := by
  induction ns generalizing i with
  | nil => simp [lastIndex?]
  | cons n ns ih =>
      simp only [lastIndex?, lastIndex?_succ]
      cases hr : lastIndex? id 0 ns with
      | some k =>
          -- a later node carries the id, so the head is not found
          obtain ⟨⟨m, hm, hid⟩, hlast⟩ := ih.mp hr
          cases i with
          | zero =>
              simp only [Option.map_some, Option.some.injEq, Nat.add_one_ne_zero, false_iff]
              rintro ⟨-, h⟩
              exact h (k + 1) m (by omega) (by simpa using hm) hid
          | succ i =>
              have hi := @ih i
              rw [hr, Option.some.injEq] at hi
              simp only [Option.map_some, Option.some.injEq, Nat.add_right_cancel_iff, hi,
                List.getElem?_cons_succ]
              refine and_congr_right fun _ => ⟨fun h j m hj hm => ?_, fun h j m hj hm => ?_⟩
              · obtain ⟨j, rfl⟩ := Nat.exists_eq_succ_of_ne_zero (show j ≠ 0 by omega)
                exact h j m (by omega) (by simpa using hm)
              · exact h (j + 1) m (by omega) (by simpa using hm)
      | none =>
          have hnone := lastIndex?_eq_none.mp hr
          cases i with
          | zero =>
              simp only [Option.map_none, List.getElem?_cons_zero, Option.some.injEq,
                exists_eq_left', ite_eq_left_iff, reduceCtorEq, imp_false, Decidable.not_not]
              refine (and_iff_left ?_).symm
              intro j m hj hm
              obtain ⟨j, rfl⟩ := Nat.exists_eq_succ_of_ne_zero (show j ≠ 0 by omega)
              exact hnone m (List.mem_of_getElem? (by simpa using hm))
          | succ i =>
              have hmiss : ¬ ∃ m, ns[i]? = some m ∧ m.id = id := fun ⟨m, hm, hid⟩ =>
                hnone m (List.mem_of_getElem? hm) hid
              simp [hmiss]

theorem index?_eq_some {g : Graph} {id : String} {i : Nat} : g.index? id = some i ↔ g.Names id i :=
  lastIndex?_eq_some

theorem Names.lt_length {g : Graph} {id : String} {i : Nat} (h : g.Names id i) :
    i < g.nodes.length := by
  obtain ⟨⟨n, hn, -⟩, -⟩ := h
  exact (List.getElem?_eq_some_iff.mp hn).1

/-! ## References and edges -/

theorem edge_iff {g : Graph} {i j : Nat} : g.Edge i j ↔ some j ∈ g.childRefs i := by
  unfold Edge childRefs
  cases g.nodes[i]? with
  | none => simp
  | some n => simp [index?_eq_some]

theorem childRefs_of_node {g : Graph} {i : Nat} {n : Node} (h : g.nodes[i]? = some n) :
    g.childRefs i = n.children.map g.index? := by
  simp only [childRefs, h]

theorem mem_inferredRoots {g : Graph} {i : Nat} :
    i ∈ g.inferredRoots ↔ ∃ n, g.nodes[i]? = some n ∧ ∀ m ∈ g.nodes, n.id ∉ m.children := by
  unfold inferredRoots isChildId
  rw [List.mem_filter, List.mem_range]
  cases hn : g.nodes[i]? with
  | none => simp
  | some n =>
      have hlt : i < g.nodes.length := (List.getElem?_eq_some_iff.mp hn).1
      simp [hlt]

theorem isRoot_iff {g : Graph} {i : Nat} : g.IsRoot i ↔ some i ∈ g.rootRefs := by
  unfold IsRoot rootRefs
  cases hr : g.roots with
  | nil => simp [mem_inferredRoots]
  | cons id ids => simp [index?_eq_some, eq_comm (a := some i)]

theorem mem_rootIndices {g : Graph} {i : Nat} : i ∈ g.rootIndices ↔ g.IsRoot i := by
  unfold IsRoot rootIndices
  cases hr : g.roots with
  | nil => simp [mem_inferredRoots]
  | cons id ids => simp [index?_eq_some]

theorem IsRoot.lt_length {g : Graph} {i : Nat} (h : g.IsRoot i) : i < g.nodes.length := by
  rcases h with ⟨id, -, hid⟩ | ⟨-, n, hn, -⟩
  · exact hid.lt_length
  · exact (List.getElem?_eq_some_iff.mp hn).1

end BlockBot.Graph
