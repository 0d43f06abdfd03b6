import BlockBot.Document
import BlockBot.Proofs.Pruning
import BlockBot.Proofs.Rejection

/-!
# Flat and nested form

Flattening writes the blocks of a forest into an arena in preorder, so the block at a position gets
the index and the fresh id of that position, and its children stand behind it. Resolving the arena
gives the forest back under its fresh ids, as long as it is not too deep. Both forms therefore
compile to the same program; only the depth that the walk allows, which counts all blocks, comes in
addition.
-/

namespace BlockBot

open BlockBot.Json

/-- What a walk places is no deeper than the levels that it may open. -/
theorem Places.levels_le {g : Graph} {levels : Nat} {path reached : List Nat}
    {refs : List (Option Nat)} {ts : List Slot} {bs : List Block}
    (h : Places g levels path reached refs ts bs) : Block.levels bs ≤ levels := by
  induction h with
  | done => simp [Block.levels]
  | missing _ ih => exact ih
  | repeated _ _ _ ih => exact ih
  | placed _ _ _ _ _ ihBody ih =>
      rw [Block.levels]
      exact Nat.max_le.mpr ⟨Nat.succ_le_succ ihBody, ih⟩

/-! ## Fresh ids -/

namespace Graph

theorem freshId_injective {i j : Nat} (h : freshId i = freshId j) : i = j := by
  have htext : natText (i + 1) = natText (j + 1) := by
    simpa [freshId, String.ext_iff] using h
  exact Nat.succ.inj (natText_injective htext)

theorem exists_of_mem_freshIds {position : Nat} {bs : List Block} {id : String}
    (h : id ∈ freshIds position bs) : ∃ j, position ≤ j ∧ id = freshId j := by
  induction bs generalizing position with
  | nil => simp [freshIds] at h
  | cons b bs ih =>
      rw [freshIds] at h
      rcases List.mem_cons.mp h with rfl | h
      · exact ⟨position, Nat.le_refl _, rfl⟩
      · obtain ⟨j, hj, rfl⟩ := ih h
        exact ⟨j, by omega, rfl⟩

/-! ## The arena -/

theorem nodesOfAll_cons (position : Nat) (id : Option String) (kind : Kind) (data : Fields)
    (children bs : List Block) :
    nodesOfAll position (⟨id, kind, data, children⟩ :: bs) =
      ⟨freshId position, kind, data, freshIds (position + 1) children⟩ ::
        (nodesOfAll (position + 1) children ++
          nodesOfAll (position + (Block.sizeAll children + 1)) bs) := by
  rw [nodesOfAll, nodesOf, Block.size, List.cons_append]

theorem length_nodesOfAll (position : Nat) (bs : List Block) :
    (nodesOfAll position bs).length = Block.sizeAll bs := by
  induction bs using Block.forest_induction generalizing position with
  | nil => simp [nodesOfAll, Block.sizeAll]
  | cons id kind data children bs ihChildren ih =>
      rw [nodesOfAll_cons, List.length_cons, List.length_append, ihChildren, ih, Block.sizeAll,
        Block.size]
      omega

/-- The node at a position has the fresh id of that position, and all its children stand behind
it. -/
theorem node_of_nodesOfAll {position k : Nat} {bs : List Block} {n : Node}
    (h : (nodesOfAll position bs)[k]? = some n) :
    n.id = freshId (position + k) ∧
      ∀ id ∈ n.children, ∃ j, position + k < j ∧ id = freshId j := by
  induction bs using Block.forest_induction generalizing position k with
  | nil => simp [nodesOfAll] at h
  | cons id kind data children bs ihChildren ih =>
      rw [nodesOfAll_cons] at h
      cases k with
      | zero =>
          simp only [List.getElem?_cons_zero, Option.some.injEq] at h
          subst h
          refine ⟨rfl, fun id hid => ?_⟩
          obtain ⟨j, hj, rfl⟩ := exists_of_mem_freshIds hid
          exact ⟨j, by omega, rfl⟩
      | succ k =>
          rw [List.getElem?_cons_succ] at h
          by_cases hk : k < (nodesOfAll (position + 1) children).length
          · rw [List.getElem?_append_left hk] at h
            have hpos : position + 1 + k = position + (k + 1) := by omega
            exact hpos ▸ ihChildren h
          · rw [List.getElem?_append_right (by omega)] at h
            rw [length_nodesOfAll] at h hk
            have hpos : position + (Block.sizeAll children + 1) + (k - Block.sizeAll children)
                = position + (k + 1) := by omega
            exact hpos ▸ ih h

theorem names_flatten {bs : List Block} {j i : Nat} (h : (flatten bs).Names (freshId j) i) :
    i = j := by
  obtain ⟨⟨n, hn, hid⟩, -⟩ := h
  have hfresh := (node_of_nodesOfAll hn).1
  rw [Nat.zero_add] at hfresh
  exact freshId_injective (hfresh.symm.trans hid)

/-- Every fresh id is found where it was written. -/
theorem index?_flatten {bs : List Block} {i : Nat} (h : i < Block.sizeAll bs) :
    (flatten bs).index? (freshId i) = some i := by
  rw [← length_nodesOfAll 0] at h
  have hn : (flatten bs).nodes[i]? = some (nodesOfAll 0 bs)[i] := List.getElem?_eq_getElem h
  have hid := (node_of_nodesOfAll hn).1
  rw [Nat.zero_add] at hid
  refine index?_eq_some.mpr ⟨⟨_, hn, hid⟩, fun j m hj hm hmid => ?_⟩
  have hjid := (node_of_nodesOfAll hm).1
  rw [Nat.zero_add] at hjid
  have : j = i := freshId_injective (hjid.symm.trans hmid)
  omega

/-- Edges lead to later nodes. -/
theorem edge_flatten {bs : List Block} {i j : Nat} (h : (flatten bs).Edge i j) : i < j := by
  obtain ⟨n, hn, id, hid, hnames⟩ := h
  obtain ⟨k, hk, rfl⟩ := (node_of_nodesOfAll hn).2 id hid
  rw [names_flatten hnames]
  omega

theorem acyclic_flatten (bs : List Block) : (flatten bs).Acyclic := by
  have hlt : ∀ {i j}, Relation.TransGen (flatten bs).Edge i j → i < j := by
    intro i j h
    induction h with
    | single hedge => exact edge_flatten hedge
    | tail _ hedge ih => exact Nat.lt_trans ih (edge_flatten hedge)
  exact fun i hcycle => Nat.lt_irrefl i (hlt hcycle)

/-! ## Trees under fresh ids -/

/-- Trees under fresh ids, the first of which starts at a position. -/
def renumber (position : Nat) : List Block → List Block
  | [] => []
  | ⟨_, kind, data, children⟩ :: bs =>
    ⟨some (freshId position), kind, data, renumber (position + 1) children⟩ ::
      renumber (position + (Block.sizeAll children + 1)) bs

theorem levels_renumber (position : Nat) (bs : List Block) :
    Block.levels (renumber position bs) = Block.levels bs := by
  induction bs using Block.forest_induction generalizing position with
  | nil => rw [renumber]
  | cons id kind data children bs ihChildren ih =>
      rw [renumber, Block.levels, Block.levels, ihChildren, ih]

theorem withoutIds_renumber (position : Nat) (bs : List Block) :
    Block.withoutIds (renumber position bs) = Block.withoutIds bs := by
  induction bs using Block.forest_induction generalizing position with
  | nil => rw [renumber]
  | cons id kind data children bs ihChildren ih =>
      rw [renumber, Block.withoutIds, Block.withoutIds, ihChildren, ih]

/-- In preorder the blocks carry the fresh ids one after the other. -/
theorem preorder_renumber (position : Nat) (bs : List Block) :
    (Block.preorderAll (renumber position bs)).map Block.id =
      (List.range' position (Block.sizeAll bs)).map fun i => some (freshId i) := by
  induction bs using Block.forest_induction generalizing position with
  | nil => simp [renumber, Block.preorderAll, Block.sizeAll]
  | cons id kind data children bs ihChildren ih =>
      rw [renumber, Block.preorderAll, Block.preorder, List.map_append, List.map_cons, ihChildren,
        ih, Block.sizeAll, Block.size, ← List.range'_append_1, List.map_append,
        List.range'_succ, List.map_cons]

/-! ## Walking through the arena -/

/-- The slots of trees, the first of which starts at a position. -/
def slotsOf (position : Nat) : List Block → List Slot
  | [] => []
  | ⟨_, _, _, children⟩ :: bs =>
    ⟨position, slotsOf (position + 1) children⟩ ::
      slotsOf (position + (Block.sizeAll children + 1)) bs

theorem lt_of_mem_slotsOf {position i : Nat} {bs : List Block}
    (h : i ∈ Slot.indices (slotsOf position bs)) : i < position + Block.sizeAll bs := by
  induction bs using Block.forest_induction generalizing position with
  | nil => simp [slotsOf] at h
  | cons id kind data children bs ihChildren ih =>
      rw [slotsOf, Slot.indices_cons] at h
      rw [Block.sizeAll, Block.size]
      rcases List.mem_cons.mp h with rfl | h
      · omega
      · rcases List.mem_append.mp h with h | h
        · have := ihChildren h
          omega
        · have := ih h
          omega

/-- The arena holds the nodes of flattened trees, the first of which starts at a position. -/
def HoldsAt (g : Graph) (position : Nat) (bs : List Block) : Prop :=
  ∀ k n, (nodesOfAll position bs)[k]? = some n → g.nodes[position + k]? = some n

section HoldsAt

variable {g : Graph} {position : Nat} {id : Option String} {kind : Kind} {data : Fields}
  {children bs : List Block}

theorem holdsAt_flatten (bs : List Block) : (flatten bs).HoldsAt 0 bs := by
  intro k n hn
  rwa [Nat.zero_add]

theorem HoldsAt.first (h : g.HoldsAt position (⟨id, kind, data, children⟩ :: bs)) :
    g.nodes[position]? = some ⟨freshId position, kind, data, freshIds (position + 1) children⟩ := by
  refine h 0 _ ?_
  rw [nodesOfAll_cons, List.getElem?_cons_zero]

theorem HoldsAt.body (h : g.HoldsAt position (⟨id, kind, data, children⟩ :: bs)) :
    g.HoldsAt (position + 1) children := by
  intro k n hn
  have hk : k < (nodesOfAll (position + 1) children).length := (List.getElem?_eq_some_iff.mp hn).1
  rw [Nat.add_assoc, Nat.add_comm 1 k]
  refine h (k + 1) n ?_
  rw [nodesOfAll_cons, List.getElem?_cons_succ, List.getElem?_append_left hk, hn]

theorem HoldsAt.others (h : g.HoldsAt position (⟨id, kind, data, children⟩ :: bs)) :
    g.HoldsAt (position + (Block.sizeAll children + 1)) bs := by
  intro k n hn
  rw [Nat.add_assoc, Nat.add_right_comm]
  refine h (Block.sizeAll children + k + 1) n ?_
  rw [nodesOfAll_cons, List.getElem?_cons_succ, ← length_nodesOfAll (position + 1) children,
    List.getElem?_append_right (Nat.le_add_right _ _), Nat.add_sub_cancel_left, length_nodesOfAll,
    hn]

end HoldsAt

/-- Where the arena holds flattened trees, a walk places them again, if it may open all their levels
and has met only what stands before them. -/
theorem HoldsAt.places {g : Graph} (hindex : ∀ i < g.nodes.length, g.index? (freshId i) = some i)
    {bs : List Block} {position levels : Nat} {path reached : List Nat}
    (h : g.HoldsAt position bs) (hlevels : Block.levels bs ≤ levels)
    (hpath : ∀ i ∈ path, i < position) (hreached : ∀ i ∈ reached, i < position) :
    Places g levels path reached ((freshIds position bs).map g.index?) (slotsOf position bs)
      (renumber position bs) := by
  induction bs using Block.forest_induction generalizing position levels path reached with
  | nil =>
      rw [freshIds, slotsOf, renumber]
      exact .done
  | cons id kind data children bs ihChildren ih =>
      have hnode := h.first
      have hlt : position < g.nodes.length := (List.getElem?_eq_some_iff.mp hnode).1
      rw [Block.levels, Nat.max_le] at hlevels
      obtain ⟨levels, rfl⟩ := Nat.exists_eq_succ_of_ne_zero (show levels ≠ 0 by omega)
      -- the node itself is met next, and it stands before its children
      have hbefore : ∀ {is : List Nat}, (∀ i ∈ is, i < position) →
          ∀ i ∈ position :: is, i < position + 1 := by
        intro is his
        exact List.forall_mem_cons.mpr ⟨Nat.lt_succ_self _,
          fun i hi => Nat.lt_succ_of_lt (his i hi)⟩
      rw [freshIds, slotsOf, renumber, Block.size, List.map_cons, hindex position hlt]
      refine .placed hnode (fun hi => Nat.lt_irrefl _ (hpath _ hi))
        (fun hi => Nat.lt_irrefl _ (hreached _ hi)) ?_ ?_
      · rw [childRefs_of_node hnode]
        exact ihChildren h.body (Nat.le_of_succ_le_succ hlevels.1) (hbefore hpath)
          (hbefore hreached)
      · refine ih h.others hlevels.2 (fun i hi => Nat.lt_add_right _ (hpath i hi)) ?_
        intro i hi
        rcases List.mem_append.mp hi with hi | hi
        · have := lt_of_mem_slotsOf (List.mem_reverse.mp hi)
          omega
        · have := hbefore hreached i hi
          omega

/-! ## Resolving the arena -/

/-- Trees that are not too deep come back under their fresh ids. -/
theorem resolve_flatten_of_levels {bs : List Block} {limit : Nat}
    (h : Block.levels bs ≤ limit + 1) : (flatten bs).resolve limit = .ok (renumber 0 bs) := by
  have hindex : ∀ i < (flatten bs).nodes.length, (flatten bs).index? (freshId i) = some i := by
    intro i hi
    rw [flatten, length_nodesOfAll] at hi
    exact index?_flatten hi
  have hplaces : Places (flatten bs) (limit + 1) [] [] ((freshIds 0 bs).map (flatten bs).index?)
      (slotsOf 0 bs) (renumber 0 bs) :=
    (holdsAt_flatten bs).places hindex h (by simp) (by simp)
  refine resolve_eq_ok.mpr ⟨slotsOf 0 bs, ?_, ?_⟩
  · cases bs with
    | nil =>
        rw [slotsOf, renumber]
        exact .done
    | cons b bs =>
        rw [rootRefs, if_neg (by simp [flatten, freshIds])]
        exact hplaces
  · intro hroots
    cases bs with
    | nil => exact ⟨[], [], by simpa [flatten, nodesOfAll] using Places.done⟩
    | cons b bs => simp [flatten, freshIds] at hroots

/-- Whatever comes back is the trees under their fresh ids, and then they are not too deep. -/
theorem resolve_flatten_eq_ok {bs trees : List Block} {limit : Nat} :
    (flatten bs).resolve limit = .ok trees ↔
      trees = renumber 0 bs ∧ Block.DepthAtMost limit bs := by
  rw [← Block.levels_le_iff]
  constructor
  · intro h
    -- with a limit that is great enough for both, the results agree
    have hgreat := resolve_mono h (Nat.le_max_left limit (Block.levels bs))
    have hlevels : Block.levels bs ≤ max limit (Block.levels bs) + 1 :=
      Nat.le_succ_of_le (Nat.le_max_right _ _)
    rw [resolve_flatten_of_levels hlevels] at hgreat
    cases hgreat
    obtain ⟨ts, hts, -⟩ := resolve_eq_ok.mp h
    exact ⟨rfl, levels_renumber 0 bs ▸ hts.levels_le⟩
  · rintro ⟨rfl, h⟩
    exact resolve_flatten_of_levels h

/-- Trees that are too deep are rejected at the first level that may not be opened. -/
theorem resolve_flatten_error {bs : List Block} {limit : Nat} (h : ¬ Block.DepthAtMost limit bs) :
    ∃ id, (flatten bs).resolve limit = .error (.cyclic id (limit + 1)) := by
  cases hresolve : (flatten bs).resolve limit with
  | ok trees => exact absurd (resolve_flatten_eq_ok.mp hresolve).2 h
  | error e =>
      obtain ⟨r, path, v, -, -, hdead⟩ := resolve_deadEnd hresolve
      obtain ⟨n, -, rfl⟩ := hdead.error
      exact ⟨n.id, by rw [hdead.length_of_acyclic (acyclic_flatten bs)]⟩

end Graph

/-! ## Compiling both forms -/

/-- A graph is compiled by compiling the trees that it resolves to. -/
theorem compileGraph_eq_ok {options : Options} {g : Graph} {program : String} :
    compileGraph options g = .ok program ↔
      ∃ trees, g.resolve options.maxDepth = .ok trees ∧ compile options trees = .ok program := by
  unfold compileGraph compileGraphNoting Graph.resolve
  rcases g.resolveNoting options.maxDepth with ⟨_ | trees, notices⟩
  · simp
  · simp [compile]

/-- Flat and nested form compile to the same program, apart from trees that are too deep for the
walk. Up to the limit, the flat form gives the trees back with other ids, and beyond it, the walk
stops at the first level that is too deep. -/
theorem compileGraph_flatten (options : Options) (bs : List Block) :
    (∀ program, compileGraph options (Graph.flatten bs) = .ok program ↔
      compile options bs = .ok program ∧ Block.DepthAtMost options.maxDepth bs) ∧
    ∀ limit,
      ((∃ trees, (Graph.flatten bs).resolve limit = .ok trees) ↔ Block.DepthAtMost limit bs) ∧
      (∀ trees, (Graph.flatten bs).resolve limit = .ok trees →
        Block.withoutIds trees = Block.withoutIds bs ∧
        (Block.preorderAll trees).map Block.id =
          (List.range (Block.sizeAll bs)).map fun k => some ("b" ++ natText (k + 1))) ∧
      (¬ Block.DepthAtMost limit bs →
        ∃ id, (Graph.flatten bs).resolve limit = .error (.cyclic id (limit + 1))) := by
  have hsame : ∀ program, compile options (Graph.renumber 0 bs) = .ok program ↔
      compile options bs = .ok program :=
    compile_eq_ok_of_withoutIds_eq (Graph.withoutIds_renumber 0 bs)
  refine ⟨fun program => ?_, fun limit => ⟨?_, ?_, Graph.resolve_flatten_error⟩⟩
  · simp only [compileGraph_eq_ok, Graph.resolve_flatten_eq_ok]
    constructor
    · rintro ⟨trees, ⟨rfl, hdepth⟩, hcompile⟩
      exact ⟨(hsame program).mp hcompile, hdepth⟩
    · rintro ⟨hcompile, hdepth⟩
      exact ⟨_, ⟨rfl, hdepth⟩, (hsame program).mpr hcompile⟩
  · simp only [Graph.resolve_flatten_eq_ok]
    exact ⟨fun ⟨_, _, hdepth⟩ => hdepth, fun hdepth => ⟨_, rfl, hdepth⟩⟩
  · intro trees htrees
    obtain ⟨rfl, -⟩ := Graph.resolve_flatten_eq_ok.mp htrees
    refine ⟨Graph.withoutIds_renumber 0 bs, ?_⟩
    rw [Graph.preorder_renumber, List.range_eq_range']
    rfl

/-- A block with a child comes back at depth one and is rejected at depth zero. -/
theorem compileGraph_flatten_child :
    let bs : List Block := [⟨some "a", .control, [], [⟨none, .reply, [], []⟩]⟩]
    (Block.DepthAtMost 1 bs ∧ ∃ trees, (Graph.flatten bs).resolve 1 = .ok trees ∧
      (Block.preorderAll trees).map Block.id = [some "b1", some "b2"]) ∧
    (¬ Block.DepthAtMost 0 bs ∧ ∃ id, (Graph.flatten bs).resolve 0 = .error (.cyclic id 1)) := by
  intro bs
  have hwithin : Block.DepthAtMost 1 bs := Block.levels_le_iff.mp (by simp [bs, Block.levels])
  have hbeyond : ¬ Block.DepthAtMost 0 bs := by
    rw [← Block.levels_le_iff]
    simp [bs, Block.levels]
  have hflat := (compileGraph_flatten {} bs).2
  obtain ⟨trees, htrees⟩ := (hflat 1).1.mpr hwithin
  exact ⟨⟨hwithin, trees, htrees, ((hflat 1).2.1 trees htrees).2⟩, hbeyond, (hflat 0).2.2 hbeyond⟩

end BlockBot
