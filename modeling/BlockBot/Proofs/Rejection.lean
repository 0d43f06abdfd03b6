import BlockBot.Proofs.Placement
import Mathlib.Data.List.Chain
import Mathlib.Data.List.Nodup

/-!
# Why a graph is rejected

A walk fails at a reference from the end of its path: back to a node of the path, or one level too
deep. The failure names the node referred to and counts the nodes of the path. That the count means
anything rests on the path: it holds different nodes, each of them a child of the one above it, and
it is the same before and after every node that is placed (`Walk.Adds`).
-/

namespace BlockBot

namespace Graph

/-- A path with the last node first: every node is the child of the next one. -/
abbrev Descends (g : Graph) (path : List Nat) : Prop :=
  path.IsChain fun child parent => g.Edge parent child

/-- A walk with room for `bound` nodes on its path stops at a reference from the end of `path` to
`v`. -/
structure DeadEnd (g : Graph) (bound : Nat) (path : List Nat) (v : Nat) (e : CompileError) :
    Prop where
  descends : g.Descends (v :: path)
  nodup : path.Nodup
  length_le : path.length ≤ bound
  reason : v ∈ path ∨ path.length = bound
  error : ∃ n, g.nodes[v]? = some n ∧ e = .cyclic n.id path.length

/-- On a path, every node leads to the one at the end. -/
theorem Descends.transGen {g : Graph} {v : Nat} {path : List Nat} (h : g.Descends (v :: path))
    {i : Nat} (hi : i ∈ path) : Relation.TransGen g.Edge i v := by
  induction path generalizing v with
  | nil => simp at hi
  | cons p path ih =>
      obtain ⟨hedge, hpath⟩ := List.isChain_cons_cons.mp h
      rcases List.mem_cons.mp hi with rfl | hi
      · exact .single hedge
      · exact (ih hpath hi).tail hedge

/-- Every node above the end of a path is in the arena. -/
theorem Descends.lt_length {g : Graph} {v : Nat} {path : List Nat} (h : g.Descends (v :: path))
    {i : Nat} (hi : i ∈ path) : i < g.nodes.length := by
  obtain ⟨j, ⟨n, hn, -⟩, -⟩ := Relation.TransGen.head'_iff.mp (h.transGen hi)
  exact (List.getElem?_eq_some_iff.mp hn).1

/-- A path of different nodes is no longer than the arena. -/
theorem Descends.length_le {g : Graph} {v : Nat} {path : List Nat} (h : g.Descends (v :: path))
    (hnodup : path.Nodup) : path.length ≤ g.nodes.length := by
  have hsub : path ⊆ List.range g.nodes.length := fun _ hi => List.mem_range.mpr (h.lt_length hi)
  simpa using hnodup.length_le_of_subset hsub

/-! ## Failing walks -/

variable {g : Graph} {levels bound i : Nat} {w w' : Walk} {e : CompileError}

/-- Among the children of a node the walk fails at one of them, after others that change nothing
about its path. -/
theorem placeChildren_deadEnd
    (hplace : ∀ {i w w'}, i < g.nodes.length → w.path.length + levels = bound →
      w.path.Nodup → g.Descends (i :: w.path) → g.placeWithin levels i w = (.error e, w') →
      ∃ path v, i :: w.path <:+ v :: path ∧ g.DeadEnd bound path v e)
    {parent : String} {ids : List String} (hbound : w.path.length + levels = bound)
    (hnodup : w.path.Nodup)
    (hchildren : ∀ id ∈ ids, ∀ j, g.Names id j → g.Descends (j :: w.path))
    (h : placeChildren g (g.placeWithin levels) parent ids w = (.error e, w')) :
    ∃ path v, w.path <:+ path ∧ g.DeadEnd bound path v e := by
  induction ids generalizing w with
  | nil => simp [placeChildren] at h
  | cons id ids ih =>
      have hrest : ∀ id ∈ ids, ∀ j, g.Names id j → g.Descends (j :: w.path) :=
        fun id hid => hchildren id (List.mem_cons_of_mem _ hid)
      simp only [placeChildren] at h
      cases hid : g.index? id with
      | none =>
          simp only [hid] at h
          exact ih (w := w.note _) hbound hnodup hrest h
      | some i =>
          have hnames : g.Names id i := index?_eq_some.mp hid
          simp only [hid] at h
          rcases hi : g.placeWithin levels i w with ⟨e₁ | b, w₁⟩
          · simp only [hi, Prod.mk.injEq, Except.error.injEq] at h
            obtain ⟨rfl, rfl⟩ := h
            obtain ⟨path, v, hsuffix, hdead⟩ := hplace hnames.lt_length hbound hnodup
              (hchildren id List.mem_cons_self i hnames) hi
            refine ⟨path, v, ?_, hdead⟩
            rcases List.suffix_cons_iff.mp hsuffix with heq | hsuffix
            · exact (List.cons.inj heq).2 ▸ List.suffix_rfl
            · exact (List.suffix_cons i w.path).trans hsuffix
          · simp only [hi] at h
            obtain ⟨ts, -, hadds⟩ := placeWithin_places hnames.lt_length hi
            rw [← hadds.path] at hbound hnodup hrest ⊢
            rcases hids : placeChildren g (g.placeWithin levels) parent ids w₁
              with ⟨e₁ | rest, w₂⟩
            · simp only [hids, Prod.mk.injEq, Except.error.injEq] at h
              obtain ⟨rfl, rfl⟩ := h
              exact ih hbound hnodup hrest hids
            · simp [hids] at h

theorem placeWithin_deadEnd (hi : i < g.nodes.length) (hbound : w.path.length + levels = bound)
    (hnodup : w.path.Nodup) (hdescends : g.Descends (i :: w.path))
    (h : g.placeWithin levels i w = (.error e, w')) :
    ∃ path v, i :: w.path <:+ v :: path ∧ g.DeadEnd bound path v e := by
  induction levels generalizing i w w' with
  | zero =>
      have hn := List.getElem?_eq_getElem hi
      simp only [placeWithin_zero hn, Prod.mk.injEq, Except.error.injEq] at h
      obtain ⟨rfl, rfl⟩ := h
      exact ⟨w.path, i, List.suffix_rfl,
        hdescends, hnodup, by omega, .inr (by omega), _, hn, rfl⟩
  | succ levels ih =>
      have hn := List.getElem?_eq_getElem hi
      by_cases hpath : i ∈ w.path
      · simp only [placeWithin_back hn hpath, Prod.mk.injEq, Except.error.injEq] at h
        obtain ⟨rfl, rfl⟩ := h
        exact ⟨w.path, i, List.suffix_rfl, hdescends, hnodup, by omega, .inl hpath, _, hn, rfl⟩
      by_cases hreached : i ∈ w.reached
      · simp [placeWithin_again hn hpath hreached] at h
      rcases hc : placeChildren g (g.placeWithin levels) g.nodes[i].id g.nodes[i].children
        (w.enter i) with ⟨e₁ | children, w₁⟩
      · simp only [placeWithin_fresh_error hn hpath hreached hc, Prod.mk.injEq,
          Except.error.injEq] at h
        obtain ⟨rfl, rfl⟩ := h
        -- one level fewer below a path that is one node longer
        obtain ⟨path, v, hsuffix, hdead⟩ := placeChildren_deadEnd ih
          (by simp only [Walk.enter, List.length_cons]; omega)
          (List.nodup_cons.mpr ⟨hpath, hnodup⟩)
          (fun id hid j hj => .cons_cons ⟨_, hn, id, hid, hj⟩ hdescends) hc
        exact ⟨path, v, hsuffix.trans (List.suffix_cons _ _), hdead⟩
      · simp [placeWithin_fresh_ok hn hpath hreached hc] at h

/-! ## Rejected graphs -/

/-- With an empty path there is nothing to hand down: the dead end lies below the node itself. -/
theorem placeWithin_deadEnd_of_nil {limit : Nat} (hw : w.path = []) (hi : i < g.nodes.length)
    (h : g.placeWithin (limit + 1) i w = (.error e, w')) :
    ∃ path v, [i] <:+ v :: path ∧ g.DeadEnd (limit + 1) path v e := by
  have hbound : w.path.length + (limit + 1) = limit + 1 := by simp [hw]
  have hdead := placeWithin_deadEnd hi hbound (by simp [hw]) (by simp [hw]) h
  rwa [hw] at hdead

theorem placeAll_deadEnd {limit : Nat} {is : List Nat} (hw : w.path = [])
    (his : ∀ i ∈ is, i < g.nodes.length) (h : g.placeAll limit is w = (.error e, w')) :
    ∃ i ∈ is, ∃ path v, [i] <:+ v :: path ∧ g.DeadEnd (limit + 1) path v e := by
  induction is generalizing w with
  | nil => simp [placeAll] at h
  | cons i is ih =>
      have hi : i < g.nodes.length := his i List.mem_cons_self
      simp only [placeAll, place_of_nil hw] at h
      rcases hplace : g.placeWithin (limit + 1) i w with ⟨e₁ | b, w₁⟩
      · simp only [hplace, Prod.mk.injEq, Except.error.injEq] at h
        obtain ⟨rfl, rfl⟩ := h
        exact ⟨i, List.mem_cons_self, placeWithin_deadEnd_of_nil hw hi hplace⟩
      · simp only [hplace] at h
        obtain ⟨ts, -, hadds⟩ := placeWithin_places hi hplace
        rcases hrest : g.placeAll limit is w₁ with ⟨e₁ | rest, w₂⟩
        · simp only [hrest, Prod.mk.injEq, Except.error.injEq] at h
          obtain ⟨rfl, rfl⟩ := h
          obtain ⟨j, hj, hdead⟩ := ih (hadds.path.trans hw)
            (fun j hj => his j (List.mem_cons_of_mem _ hj)) hrest
          exact ⟨j, List.mem_cons_of_mem _ hj, hdead⟩
        · simp [hrest] at h

theorem checkRest_deadEnd {limit : Nat} {is : List Nat} (hw : w.path = [])
    (his : ∀ i ∈ is, i < g.nodes.length) (h : g.checkRest limit is w = (.error e, w')) :
    ∃ i ∈ is, ∃ path v, [i] <:+ v :: path ∧ g.DeadEnd (limit + 1) path v e := by
  induction is generalizing w with
  | nil => simp [checkRest] at h
  | cons i is ih =>
      have hi : i < g.nodes.length := his i List.mem_cons_self
      have hlater {w₁ : Walk} (hw₁ : w₁.path = []) (h : g.checkRest limit is w₁ = (.error e, w')) :
          ∃ j ∈ i :: is, ∃ path v, [j] <:+ v :: path ∧ g.DeadEnd (limit + 1) path v e := by
        obtain ⟨j, hj, hdead⟩ := ih hw₁ (fun j hj => his j (List.mem_cons_of_mem _ hj)) h
        exact ⟨j, List.mem_cons_of_mem _ hj, hdead⟩
      simp only [checkRest, place_of_nil hw, List.contains_iff_mem] at h
      by_cases hreached : i ∈ w.reached
      · rw [if_pos hreached] at h
        exact hlater hw h
      · rw [if_neg hreached] at h
        rcases hplace : g.placeWithin (limit + 1) i w with ⟨e₁ | b, w₁⟩
        · simp only [hplace, Prod.mk.injEq, Except.error.injEq] at h
          obtain ⟨rfl, rfl⟩ := h
          exact ⟨i, List.mem_cons_self, placeWithin_deadEnd_of_nil hw hi hplace⟩
        · simp only [hplace] at h
          obtain ⟨ts, -, hadds⟩ := placeWithin_places hi hplace
          exact hlater (hadds.path.trans hw) h

/-- A rejected graph has a dead end on a path from a root, or from a node left over if the roots
were inferred. -/
theorem resolve_deadEnd {limit : Nat} (h : g.resolve limit = .error e) :
    ∃ r path v, [r] <:+ v :: path ∧ (g.roots ≠ [] → g.IsRoot r) ∧
      g.DeadEnd (limit + 1) path v e := by
  simp only [resolve, resolveNoting, resolveStep] at h
  have hin : ∀ i ∈ g.rootIndices, i < g.nodes.length :=
    fun i hi => (mem_rootIndices.mp hi).lt_length
  rcases hroots : g.placeAll limit g.rootIndices { notices := g.missingRoots } with ⟨e₁ | bs, w₁⟩
  · simp only [hroots, Except.error.injEq] at h
    subst h
    obtain ⟨r, hr, path, v, hstart, hdead⟩ := placeAll_deadEnd rfl hin hroots
    exact ⟨r, path, v, hstart, fun _ => mem_rootIndices.mp hr, hdead⟩
  · obtain ⟨ts, -, hadds⟩ := placeAll_places rfl hin hroots
    simp only [hroots] at h
    cases hempty : g.roots.isEmpty with
    | false => simp [hempty] at h
    | true =>
        simp only [hempty] at h
        rcases hrest : g.checkRest limit (List.range g.nodes.length) w₁ with ⟨e₁ | u, w₂⟩
        · simp only [hrest, if_true, Except.error.injEq] at h
          subst h
          obtain ⟨r, -, path, v, hstart, hdead⟩ :=
            checkRest_deadEnd hadds.path (fun i hi => List.mem_range.mp hi) hrest
          exact ⟨r, path, v, hstart, fun hne => absurd (List.isEmpty_iff.mp hempty) hne, hdead⟩
        · simp [hrest] at h

/-- A dead end is never met at a root itself. -/
theorem DeadEnd.length_pos {limit : Nat} {path : List Nat} {v : Nat}
    (h : g.DeadEnd (limit + 1) path v e) : 1 ≤ path.length := by
  rcases h.reason with hv | hlen
  · exact List.length_pos_of_mem hv
  · omega

/-- Without cycles, a dead end is a matter of depth. -/
theorem DeadEnd.length_of_acyclic {path : List Nat} {v : Nat} (h : g.DeadEnd bound path v e)
    (hacyclic : g.Acyclic) : path.length = bound :=
  h.reason.resolve_left fun hv => hacyclic v (h.descends.transGen hv)

end Graph

/-- Every rejection is justified: there is a path of different nodes, as long as the reported depth,
and a reference from its end to the reported node, which closes a cycle or lies one level too deep.
So a graph without cycles is rejected for its depth only, and never if the limit is at least the
number of its nodes. -/
theorem resolve_rejection (g : Graph) (limit : Nat) :
    (∀ e, g.resolve limit = .error e → ∃ path v n,
      e = .cyclic n.id path.length ∧ 1 ≤ path.length ∧ path.length ≤ limit + 1 ∧
      path.Nodup ∧ (path ++ [v]).IsChain g.Edge ∧ g.nodes[v]? = some n ∧
      ((v ∈ path ∧ Relation.TransGen g.Edge v v) ∨ path.length = limit + 1) ∧
      (g.Acyclic → path.length = limit + 1)) ∧
    (g.Acyclic → g.nodes.length ≤ limit → ∃ bs, g.resolve limit = .ok bs) := by
  constructor
  · intro e h
    obtain ⟨r, path, v, -, -, hdead⟩ := Graph.resolve_deadEnd h
    obtain ⟨n, hn, rfl⟩ := hdead.error
    refine ⟨path.reverse, v, n, by simp, ?_⟩
    simp only [List.length_reverse, List.nodup_reverse, List.mem_reverse]
    refine ⟨hdead.length_pos, hdead.length_le, hdead.nodup, ?_, hn, ?_, hdead.length_of_acyclic⟩
    · rw [← List.reverse_cons, List.isChain_reverse]
      exact hdead.descends
    · exact hdead.reason.imp_left fun hv => ⟨hv, hdead.descends.transGen hv⟩
  · intro hacyclic hlimit
    cases h : g.resolve limit with
    | ok bs => exact ⟨bs, rfl⟩
    | error e =>
        obtain ⟨r, path, v, -, -, hdead⟩ := Graph.resolve_deadEnd h
        have hlong : path.length = limit + 1 := hdead.length_of_acyclic hacyclic
        have hshort : path.length ≤ g.nodes.length := hdead.descends.length_le hdead.nodup
        omega

/-- Two nodes that are each other's child are rejected with the cycle that they form. -/
theorem resolve_rejection_loop :
    let g : Graph := ⟨["a"], [⟨"a", .control, [], ["b"]⟩, ⟨"b", .control, [], ["a"]⟩]⟩
    g.resolve 8 = .error (.cyclic "a" 2) ∧
      ∃ path v, path.length = 2 ∧ path.Nodup ∧ (path ++ [v]).IsChain g.Edge ∧
        Relation.TransGen g.Edge v v := by
  intro g
  have h : g.resolve 8 = .error (.cyclic "a" 2) := rfl
  obtain ⟨path, v, n, he, -, -, hnodup, hchain, -, hreason, -⟩ := (resolve_rejection g 8).1 _ h
  have hlen : path.length = 2 := (CompileError.cyclic.inj he).2.symm
  refine ⟨h, path, v, hlen, hnodup, hchain, ?_⟩
  rcases hreason with ⟨-, hcycle⟩ | hdeep
  · exact hcycle
  · omega

end BlockBot
