import BlockBot.Proofs.Placement

/-!
# Resolved graphs have no cycles

A node is finished once its body is complete. At that moment all nodes that it leads to are finished
as well: the walk refuses a reference back to its path, and every other reference leads to a node
that was finished earlier or has just been placed. So every path from a finished node ends
(`Grounded`), and this is kept along the whole walk.
-/

namespace BlockBot

namespace Graph

/-- Every path from a node ends. -/
def Grounded (g : Graph) (i : Nat) : Prop :=
  Acc (fun j i => g.Edge i j) i

theorem Grounded.of_edges {g : Graph} {i : Nat} (h : ∀ j, g.Edge i j → g.Grounded j) :
    g.Grounded i :=
  Acc.intro i h

theorem Grounded.path {g : Graph} {i j : Nat} (h : g.Grounded i)
    (hij : Relation.ReflTransGen g.Edge i j) : g.Grounded j := by
  induction hij with
  | refl => exact h
  | tail _ hedge ih => exact ih.inv hedge

/-- No cycle passes through a node from which every path ends. -/
theorem Grounded.not_cycle {g : Graph} {i : Nat} (h : g.Grounded i) :
    ¬ Relation.TransGen g.Edge i i := by
  induction h with
  | intro i _ ih =>
      intro hcycle
      -- the cycle can be entered one node later
      obtain ⟨j, hij, hji⟩ := Relation.TransGen.head'_iff.mp hcycle
      exact ih j hij (Relation.TransGen.tail' hji hij)

end Graph

/-- If every path from the finished nodes ends, then so does every path from what is placed or
referred to. -/
theorem Places.grounded {g : Graph} {levels : Nat} {path reached : List Nat}
    {refs : List (Option Nat)} {ts : List Slot} {bs : List Block}
    (h : Places g levels path reached refs ts bs)
    (hfinished : ∀ i ∈ reached, i ∉ path → g.Grounded i) :
    (∀ i ∈ Slot.indices ts, g.Grounded i) ∧ ∀ r, some r ∈ refs → g.Grounded r := by
  induction h with
  | done => simp
  | missing _ ih => simpa using ih hfinished
  | repeated hpath hreached _ ih =>
      obtain ⟨hslots, hrefs⟩ := ih hfinished
      refine ⟨hslots, fun r hr => ?_⟩
      rcases List.mem_cons.mp hr with heq | hr
      · cases heq
        exact hfinished _ hreached hpath
      · exact hrefs r hr
  | @placed levels path reached i n refs body children ts bs _ _ _ _ _ ihBody ih =>
      -- inside the body `i` is on the path, so nothing new is finished yet
      have hinner : ∀ j ∈ i :: reached, j ∉ i :: path → g.Grounded j := by
        intro j hj hjpath
        rw [List.mem_cons, not_or] at hjpath
        exact hfinished j ((List.mem_cons.mp hj).resolve_left hjpath.1) hjpath.2
      obtain ⟨hbody, hchildren⟩ := ihBody hinner
      have hi : g.Grounded i :=
        .of_edges fun j hij => hchildren j (Graph.edge_iff.mp hij)
      have houter : ∀ j ∈ (Slot.indices body).reverse ++ i :: reached, j ∉ path →
          g.Grounded j := by
        intro j hj hjpath
        simp only [List.mem_append, List.mem_reverse, List.mem_cons] at hj
        rcases hj with hj | rfl | hj
        · exact hbody j hj
        · exact hi
        · exact hfinished j hj hjpath
      obtain ⟨hslots, hrefs⟩ := ih houter
      constructor
      · intro j hj
        rw [Slot.indices_cons] at hj
        rcases List.mem_cons.mp hj with rfl | hj
        · exact hi
        · exact (List.mem_append.mp hj).elim (hbody j) (hslots j)
      · intro r hr
        rcases List.mem_cons.mp hr with heq | hr
        · cases heq
          exact hi
        · exact hrefs r hr

namespace Graph.Resolved

variable {g : Graph} {limit : Nat} {ts : List Slot} {bs : List Block}

theorem grounded_of_reachable (h : g.Resolved limit ts bs) {i : Nat} (hi : g.Reachable i) :
    g.Grounded i := by
  obtain ⟨r, hr, hri⟩ := hi
  have hroots := (h.roots.grounded (by simp)).2
  exact (hroots r (isRoot_iff.mp hr)).path hri

/-- Without root ids the second pass has looked at every node. -/
theorem grounded_of_no_roots (h : g.Resolved limit ts bs) (hroots : g.roots = []) {i : Nat}
    (hi : i < g.nodes.length) : g.Grounded i := by
  obtain ⟨us, cs, hrest⟩ := h.rest hroots
  have hplaced := (h.roots.grounded (by simp)).1
  refine (hrest.grounded fun j hj _ => hplaced j (List.mem_reverse.mp hj)).2 i ?_
  exact List.mem_map_of_mem (List.mem_range.mpr hi)

end Graph.Resolved

/-- No cycle gets through. A graph that is resolved has no cycle among the nodes that its roots
reach, and none at all if its roots were inferred. -/
theorem resolve_no_cycle {g : Graph} {limit : Nat} {bs : List Block}
    (h : g.resolve limit = .ok bs) :
    (∀ i, g.Reachable i → ¬ Relation.TransGen g.Edge i i) ∧ (g.roots = [] → g.Acyclic) := by
  obtain ⟨ts, hts⟩ := Graph.resolve_eq_ok.mp h
  refine ⟨fun i hi => (hts.grounded_of_reachable hi).not_cycle, fun hroots i hcycle => ?_⟩
  -- a node on a cycle has an edge, so it is in the arena
  obtain ⟨j, ⟨n, hn, -⟩, -⟩ := Relation.TransGen.head'_iff.mp hcycle
  have hi : i < g.nodes.length := (List.getElem?_eq_some_iff.mp hn).1
  exact (hts.grounded_of_no_roots hroots hi).not_cycle hcycle

/-- The roots are inferred, a child is shared, and the first node with the id `"d"` is left to the
second pass. -/
theorem resolve_no_cycle_inferred :
    let g : Graph := ⟨[], [⟨"a", .control, [], ["c", "d"]⟩, ⟨"c", .reply, [], []⟩,
      ⟨"d", .control, [], ["c"]⟩, ⟨"d", .reply, [], []⟩]⟩
    let bs : List Block := [⟨some "a", .control, [],
      [⟨some "c", .reply, [], []⟩, ⟨some "d", .reply, [], []⟩]⟩]
    g.resolve 1 = .ok bs ∧
      (∀ i, g.Reachable i → ¬ Relation.TransGen g.Edge i i) ∧ (g.roots = [] → g.Acyclic) :=
  ⟨rfl, @resolve_no_cycle _ 1 _ rfl⟩

end BlockBot
