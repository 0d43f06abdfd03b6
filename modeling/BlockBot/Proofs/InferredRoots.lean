import BlockBot.Proofs.Acyclic
import BlockBot.Proofs.Arrangement
import Mathlib.Data.Fintype.EquivFin
import Mathlib.Order.WellFounded

/-!
# Inferred roots lose nothing

Without root ids, the roots are the nodes whose id is nobody's child. The walk from them may still
leave nodes out, and a second pass looks at those for cycles only. What is left out is little: going
back along the edges from any node ends, since a resolved graph has no cycle, and it ends at a root
unless it comes by a node that no reference can name. Such a node is shadowed by a later one with
the same id. With different ids everywhere, all nodes are placed and the second pass has nothing to
do.
-/

namespace BlockBot

namespace Graph

/-- A later node carries the same id. -/
def Shadowed (g : Graph) (i : Nat) : Prop :=
  ∃ n j m, g.nodes[i]? = some n ∧ i < j ∧ g.nodes[j]? = some m ∧ m.id = n.id

/-- No two nodes carry the same id. -/
def DistinctIds (g : Graph) : Prop :=
  (g.nodes.map Node.id).Nodup

variable {g : Graph} {limit i : Nat} {ts : List Slot} {bs : List Block}

theorem names_of_not_shadowed {n : Node} (hn : g.nodes[i]? = some n) (h : ¬ g.Shadowed i) :
    g.Names n.id i := by
  refine ⟨⟨n, hn, rfl⟩, ?_⟩
  intro j m hij hm hid
  exact h ⟨n, j, m, hn, hij, hm, hid⟩

theorem DistinctIds.not_shadowed (h : g.DistinctIds) : ¬ g.Shadowed i := by
  rintro ⟨n, j, m, hn, hij, hm, hid⟩
  obtain ⟨hi, rfl⟩ := List.getElem?_eq_some_iff.mp hn
  obtain ⟨hj, rfl⟩ := List.getElem?_eq_some_iff.mp hm
  have hne := List.pairwise_iff_getElem.mp h i j (by simpa using hi) (by simpa using hj) hij
  rw [List.getElem_map, List.getElem_map] at hne
  exact hne hid.symm

/-! ## Going back along the edges -/

/-- With inferred roots, going back from a node of a resolved graph ends. -/
theorem Resolved.wellFounded_paths (h : g.Resolved limit ts bs) (hroots : g.roots = []) :
    WellFounded fun i j : Fin g.nodes.length => Relation.TransGen g.Edge i j := by
  have : IsTrans (Fin g.nodes.length) fun i j => Relation.TransGen g.Edge i j :=
    ⟨fun _ _ _ hij hjk => hij.trans hjk⟩
  have : Std.Irrefl fun i j : Fin g.nodes.length => Relation.TransGen g.Edge i j :=
    ⟨fun i => (h.grounded_of_no_roots hroots i.isLt).not_cycle⟩
  exact Finite.wellFounded_of_trans_of_irrefl _

/-- One step back from a node that is not a root: to a node that has its id as a child, if it is not
shadowed. -/
theorem exists_parent (hroots : g.roots = []) (hi : i < g.nodes.length) (hroot : ¬ g.IsRoot i)
    (hshadowed : ¬ g.Shadowed i) : ∃ j, j < g.nodes.length ∧ g.Edge j i := by
  have hn : g.nodes[i]? = some g.nodes[i] := List.getElem?_eq_getElem hi
  have hnamed : ¬ ∀ m ∈ g.nodes, g.nodes[i].id ∉ m.children :=
    fun hunnamed => hroot (.inr ⟨hroots, _, hn, hunnamed⟩)
  push Not at hnamed
  obtain ⟨m, hm, hchild⟩ := hnamed
  obtain ⟨j, hj, rfl⟩ := List.getElem_of_mem hm
  exact ⟨j, hj, _, List.getElem?_eq_getElem hj, _, hchild, names_of_not_shadowed hn hshadowed⟩

/-- Going back from a node ends at a root, or it comes by a shadowed node. -/
theorem Resolved.reachable_or_shadowed (h : g.Resolved limit ts bs) (hroots : g.roots = [])
    (hi : i < g.nodes.length) :
    g.Reachable i ∨ ∃ s, g.Shadowed s ∧ Relation.ReflTransGen g.Edge s i := by
  -- induction on the nodes from which a path leads to `i`
  induction hk : (⟨i, hi⟩ : Fin g.nodes.length) using (h.wellFounded_paths hroots).induction
    generalizing i with
  | _ k ih =>
      subst hk
      by_cases hshadowed : g.Shadowed i
      · exact .inr ⟨i, hshadowed, .refl⟩
      by_cases hroot : g.IsRoot i
      · exact .inl ⟨i, hroot, .refl⟩
      obtain ⟨j, hj, hji⟩ := exists_parent hroots hi hroot hshadowed
      rcases ih ⟨j, hj⟩ (.single hji) hj rfl with ⟨r, hr, hrj⟩ | ⟨s, hs, hsj⟩
      · exact .inl ⟨r, hr, hrj.tail hji⟩
      · exact .inr ⟨s, hs, hsj.tail hji⟩

/-! ## Different ids -/

/-- With different ids and inferred roots, the walk from the roots reaches the whole arena. -/
theorem Resolved.mem_indices_of_distinct (h : g.Resolved limit ts bs) (hroots : g.roots = [])
    (hdistinct : g.DistinctIds) : i ∈ Slot.indices ts ↔ i < g.nodes.length := by
  rw [h.mem_indices]
  constructor
  · rintro ⟨r, hr, hri⟩
    rcases Relation.ReflTransGen.cases_tail hri with rfl | ⟨j, -, n, -, id, -, hnames⟩
    · exact hr.lt_length
    · exact hnames.lt_length
  · intro hi
    rcases h.reachable_or_shadowed hroots hi with hreachable | ⟨s, hs, -⟩
    · exact hreachable
    · exact absurd hs hdistinct.not_shadowed

/-- The second pass leaves everything as it is where all nodes were reached. -/
theorem checkRest_of_reached {is : List Nat} {w : Walk} (h : ∀ i ∈ is, i ∈ w.reached) :
    g.checkRest limit is w = (.ok (), w) := by
  induction is with
  | nil => rfl
  | cons i is ih =>
      obtain ⟨hi, his⟩ := List.forall_mem_cons.mp h
      rw [checkRest, if_pos (List.contains_iff_mem.mpr hi)]
      exact ih his

end Graph

/-- Inferred roots lose nothing. Every node that is not placed is shadowed or hangs off a shadowed
node. If all ids differ then every node is placed, exactly once, and the second pass has nothing
left to look at. -/
theorem resolve_inferred_roots {g : Graph} {limit : Nat} {bs : List Block} (hroots : g.roots = [])
    (h : g.resolve limit = .ok bs) :
    ∃ ts, Arrangement g ts bs ∧
      (∀ i < g.nodes.length, i ∉ Slot.indices ts →
        g.Shadowed i ∨ ∃ s, g.Shadowed s ∧ Relation.TransGen g.Edge s i) ∧
      (g.DistinctIds →
        (Slot.indices ts).Perm (List.range g.nodes.length) ∧
        ∃ w, g.placeAll limit g.rootIndices { notices := g.missingRoots } = (.ok bs, w) ∧
          g.checkRest limit (List.range g.nodes.length) w = (.ok (), w)) := by
  obtain ⟨ts, hts⟩ := Graph.resolve_eq_ok.mp h
  refine ⟨ts, hts.arrangement, ?_, ?_⟩
  · intro i hi hout
    rcases hts.reachable_or_shadowed hroots hi with hreachable | ⟨s, hs, hsi⟩
    · exact absurd ((hts.mem_indices i).mpr hreachable) hout
    · rcases Relation.reflTransGen_iff_eq_or_transGen.mp hsi with rfl | hsi
      · exact .inl hs
      · exact .inr ⟨s, hs, hsi⟩
  · intro hdistinct
    have hall : ∀ i, i ∈ Slot.indices ts ↔ i < g.nodes.length :=
      fun i => hts.mem_indices_of_distinct hroots hdistinct
    constructor
    · refine (List.perm_ext_iff_of_nodup hts.roots.nodup.1 List.nodup_range).mpr ?_
      intro i
      rw [hall, List.mem_range]
    · have hplaces := hts.roots
      rw [← Places.filterMap_iff, ← Graph.rootIndices_map_some] at hplaces
      obtain ⟨w, hw, hadds⟩ :=
        Graph.placeAll_of_places (w := { notices := g.missingRoots }) rfl hplaces
      refine ⟨w, hw, Graph.checkRest_of_reached ?_⟩
      intro i hi
      rw [hadds.reached, List.append_nil, List.mem_reverse, hall]
      exact List.mem_range.mp hi

/-- In `g` the first node with the id `"d"` is shadowed, and `"e"` hangs off it, so neither of them
is placed. In `g'`, where it has an id of its own, every node is. -/
theorem resolve_inferred_roots_shadowed :
    let g : Graph := ⟨[], [⟨"a", .control, [], ["d"]⟩, ⟨"d", .control, [], ["e"]⟩,
      ⟨"d", .reply, [], []⟩, ⟨"e", .reply, [], []⟩]⟩
    let bs : List Block := [⟨some "a", .control, [], [⟨some "d", .reply, [], []⟩]⟩]
    let g' : Graph := ⟨[], [⟨"a", .control, [], ["d"]⟩, ⟨"c", .control, [], ["e"]⟩,
      ⟨"d", .reply, [], []⟩, ⟨"e", .reply, [], []⟩]⟩
    let bs' : List Block := [⟨some "a", .control, [], [⟨some "d", .reply, [], []⟩]⟩,
      ⟨some "c", .control, [], [⟨some "e", .reply, [], []⟩]⟩]
    (g.resolve 1 = .ok bs ∧ ∃ ts, Arrangement g ts bs ∧
      ∀ i < 4, i ∉ Slot.indices ts →
        g.Shadowed i ∨ ∃ s, g.Shadowed s ∧ Relation.TransGen g.Edge s i) ∧
    g'.resolve 1 = .ok bs' ∧ g'.DistinctIds ∧ ∃ ts, Arrangement g' ts bs' ∧
      (Slot.indices ts).Perm (List.range 4) := by
  intro g bs g' bs'
  have h : g.resolve 1 = .ok bs := rfl
  have h' : g'.resolve 1 = .ok bs' := rfl
  have hdistinct : g'.DistinctIds := by
    unfold Graph.DistinctIds
    decide
  obtain ⟨ts, harrangement, hout, -⟩ := resolve_inferred_roots (g := g) rfl h
  obtain ⟨ts', harrangement', -, hplaced⟩ := resolve_inferred_roots (g := g') rfl h'
  exact ⟨⟨h, ts, harrangement, hout⟩, h', hdistinct, ts', harrangement', (hplaced hdistinct).1⟩

end BlockBot
