import BlockBot.Proofs.Placement

/-!
# Which nodes are placed, and where

A resolved graph places exactly the nodes that its roots reach, each of them once and in the order
of the references. A reference is left out only if it names no node, or if its node stands earlier
in the trees. `Arrangement` says all of this about trees and their slots without a word about the
walk that built them.
-/

namespace BlockBot

/-- The blocks have the shape of the slots, and each one carries the id, the kind and the data of
its node. -/
inductive Holds (g : Graph) : List Slot → List Block → Prop
  | nil : Holds g [] []
  | cons {i n body children ts bs} : g.nodes[i]? = some n → Holds g body children →
      Holds g ts bs → Holds g (⟨i, body⟩ :: ts) (⟨some n.id, n.kind, n.data, children⟩ :: bs)

/-- `Follows before refs ts`: the trees `ts` stand for the references `refs`, in their order. A
reference is left out only if it leads nowhere or to an index that was placed earlier: one of
`before`, or one in a tree for an earlier reference. -/
inductive Follows : List Nat → List (Option Nat) → List Slot → Prop
  | done {before} : Follows before [] []
  | missing {before refs ts} : Follows before refs ts → Follows before (none :: refs) ts
  | repeated {before i refs ts} : i ∈ before → Follows before refs ts →
      Follows before (some i :: refs) ts
  | placed {before t refs ts} : Follows (before ++ Slot.indices [t]) refs ts →
      Follows before (some t.index :: refs) (t :: ts)

/-- The trees `bs`, with `ts` as the places of their blocks, are a faithful picture of a graph. -/
structure Arrangement (g : Graph) (ts : List Slot) (bs : List Block) : Prop where
  /-- Every block comes from the node at its slot. -/
  holds : Holds g ts bs
  /-- No node is placed twice. -/
  once : (Slot.indices ts).Nodup
  /-- The nodes that are placed are those that a root reaches. -/
  reachable : ∀ i, i ∈ Slot.indices ts ↔ g.Reachable i
  /-- The roots stand in their order. -/
  roots : Follows [] g.rootRefs ts
  /-- The children of every block stand in the order of its node's references. What is placed before
  them is what stands in preorder up to the block itself. -/
  bodies : ∀ k t, (Slot.preorder ts)[k]? = some t →
    Follows ((Slot.indices ts).take (k + 1)) (g.childRefs t.index) t.body

/-- Only what was placed before matters, and more of it does no harm. -/
theorem Follows.mono {before before' : List Nat} {refs : List (Option Nat)} {ts : List Slot}
    (h : Follows before refs ts) (hsub : before ⊆ before') : Follows before' refs ts := by
  induction h generalizing before' with
  | done => exact .done
  | missing _ ih => exact .missing (ih hsub)
  | repeated hi _ ih => exact .repeated (hsub hi) (ih hsub)
  | placed _ ih => exact .placed (ih (List.append_subset.mpr
      ⟨fun _ hx => List.mem_append_left _ (hsub hx), List.subset_append_right _ _⟩))

namespace Places

variable {g : Graph} {levels : Nat} {path reached : List Nat} {refs : List (Option Nat)}
  {ts : List Slot} {bs : List Block}

theorem holds (h : Places g levels path reached refs ts bs) : Holds g ts bs := by
  induction h with
  | done => exact .nil
  | missing _ ih => exact ih
  | repeated _ _ _ ih => exact ih
  | placed hn _ _ _ _ ihBody ih => exact .cons hn ihBody ih

/-- The slots are new and differ from each other. -/
theorem nodup (h : Places g levels path reached refs ts bs) :
    (Slot.indices ts).Nodup ∧ ∀ i ∈ Slot.indices ts, i ∉ reached := by
  induction h with
  | done => simp
  | missing _ ih => exact ih
  | repeated _ _ _ ih => exact ih
  | @placed levels path reached i n refs body children ts bs _ _ hreached _ _ ihBody ih =>
      obtain ⟨hbody, hbodyNew⟩ := ihBody
      obtain ⟨hts, htsNew⟩ := ih
      simp only [List.mem_cons, not_or, List.mem_append, List.mem_reverse] at hbodyNew htsNew
      rw [Slot.indices_cons]
      refine ⟨List.nodup_cons.mpr ⟨?_, List.nodup_append.mpr ⟨hbody, hts, ?_⟩⟩, ?_⟩
      · intro hi
        rcases List.mem_append.mp hi with hi | hi
        · exact (hbodyNew i hi).1 rfl
        · exact (htsNew i hi).2.1 rfl
      · rintro j hj k hk rfl
        exact (htsNew j hk).1 hj
      · intro j hj
        rcases List.mem_cons.mp hj with rfl | hj
        · exact hreached
        · rcases List.mem_append.mp hj with hj | hj
          · exact (hbodyNew j hj).2
          · exact (htsNew j hj).2.2

/-! ## Reachability -/

/-- Every slot lies on a path from a reference. -/
theorem reaches (h : Places g levels path reached refs ts bs) :
    ∀ i ∈ Slot.indices ts, ∃ r, some r ∈ refs ∧ Relation.ReflTransGen g.Edge r i := by
  induction h with
  | done => simp
  | missing _ ih =>
      intro i hi
      obtain ⟨r, hr, hri⟩ := ih i hi
      exact ⟨r, List.mem_cons_of_mem _ hr, hri⟩
  | repeated _ _ _ ih =>
      intro i hi
      obtain ⟨r, hr, hri⟩ := ih i hi
      exact ⟨r, List.mem_cons_of_mem _ hr, hri⟩
  | @placed levels path reached j n refs body children ts bs _ _ _ _ _ ihBody ih =>
      intro i hi
      rw [Slot.indices_cons] at hi
      rcases List.mem_cons.mp hi with rfl | hi
      · exact ⟨i, List.mem_cons_self, .refl⟩
      · rcases List.mem_append.mp hi with hi | hi
        · obtain ⟨r, hr, hri⟩ := ihBody i hi
          exact ⟨j, List.mem_cons_self, .head (Graph.edge_iff.mpr hr) hri⟩
        · obtain ⟨r, hr, hri⟩ := ih i hi
          exact ⟨r, List.mem_cons_of_mem _ hr, hri⟩

/-- The finished nodes, which are those reached but not on the path, lead to nodes that are
reached. -/
def Closed (g : Graph) (path reached : List Nat) : Prop :=
  ∀ i ∈ reached, i ∉ path → ∀ j, g.Edge i j → j ∈ reached

/-- A walk reaches what its references name, and it keeps the finished nodes closed. -/
theorem closed (h : Places g levels path reached refs ts bs) (hclosed : Closed g path reached) :
    (∀ r, some r ∈ refs → r ∈ (Slot.indices ts).reverse ++ reached) ∧
      Closed g path ((Slot.indices ts).reverse ++ reached) := by
  induction h with
  | done => simpa using hclosed
  | missing _ ih => simpa using ih hclosed
  | repeated _ hreached _ ih =>
      obtain ⟨hrefs, hafter⟩ := ih hclosed
      refine ⟨fun r hr => ?_, hafter⟩
      rcases List.mem_cons.mp hr with heq | hr
      · cases heq
        exact List.mem_append_right _ hreached
      · exact hrefs r hr
  | @placed levels path reached i n refs body children ts bs _ _ _ _ _ ihBody ih =>
      have hinner : Closed g (i :: path) (i :: reached) := by
        intro x hx hxpath y hxy
        rw [List.mem_cons, not_or] at hxpath
        have hx' : x ∈ reached := (List.mem_cons.mp hx).resolve_left hxpath.1
        exact List.mem_cons_of_mem _ (hclosed x hx' hxpath.2 y hxy)
      obtain ⟨hchildren, hbody⟩ := ihBody hinner
      have houter : Closed g path ((Slot.indices body).reverse ++ i :: reached) := by
        intro x hx hxpath y hxy
        by_cases hxi : x = i
        · subst hxi
          exact hchildren y (Graph.edge_iff.mp hxy)
        · exact hbody x hx (by simp [hxi, hxpath]) y hxy
      obtain ⟨hrefs, hafter⟩ := ih houter
      rw [Slot.indices_cons, List.reverse_cons, List.reverse_append, List.append_assoc,
        List.append_assoc]
      refine ⟨fun r hr => ?_, hafter⟩
      rcases List.mem_cons.mp hr with heq | hr
      · cases heq
        simp
      · exact hrefs r hr

/-! ## Order -/

theorem follows (h : Places g levels path reached refs ts bs) : Follows reached refs ts := by
  induction h with
  | done => exact .done
  | missing _ ih => exact .missing ih
  | repeated _ hreached _ ih => exact .repeated hreached ih
  | placed _ _ _ _ _ _ ih =>
      refine .placed (t := ⟨_, _⟩) (ih.mono ?_)
      intro x hx
      simpa [or_comm, or_left_comm, or_assoc] using hx

/-- The children of every slot stand in the order of its references. -/
theorem follows_body (h : Places g levels path reached refs ts bs) (k : Nat) (t : Slot)
    (ht : (Slot.preorder ts)[k]? = some t) :
    Follows ((Slot.indices ts).take (k + 1) ++ reached) (g.childRefs t.index) t.body := by
  induction h generalizing k with
  | done => simp [Slot.preorder] at ht
  | missing _ ih => exact ih k ht
  | repeated _ _ _ ih => exact ih k ht
  | @placed levels path reached i n refs body children ts bs _ _ _ hbody _ ihBody ih =>
      rw [Slot.preorder] at ht
      rw [Slot.indices_cons, List.take_succ_cons]
      have hlen : (Slot.indices body).length = (Slot.preorder body).length := by
        simp [Slot.indices]
      cases k with
      | zero =>
          simp only [List.getElem?_cons_zero, Option.some.injEq] at ht
          subst ht
          simpa using hbody.follows
      | succ k =>
          rw [List.getElem?_cons_succ] at ht
          by_cases hk : k < (Slot.preorder body).length
          · rw [List.getElem?_append_left hk] at ht
            refine (ihBody k ht).mono fun x hx => ?_
            rw [List.take_append_of_le_length (by omega)]
            simpa [or_left_comm] using hx
          · -- all of the body stands before the slots of later references
            rw [List.getElem?_append_right (by omega)] at ht
            refine (ih _ ht).mono fun x hx => ?_
            rw [List.take_append, List.take_of_length_le (by omega), hlen]
            have hk' : k + 1 - (Slot.preorder body).length
                = k - (Slot.preorder body).length + 1 := by omega
            rw [hk']
            simp only [List.mem_append, List.mem_reverse, List.mem_cons] at hx ⊢
            grind

end Places

/-! ## Resolved graphs -/

theorem Graph.Resolved.mem_indices {g : Graph} {limit : Nat} {ts : List Slot} {bs : List Block}
    (h : g.Resolved limit ts bs) (i : Nat) : i ∈ Slot.indices ts ↔ g.Reachable i := by
  constructor
  · intro hi
    obtain ⟨r, hr, hri⟩ := h.roots.reaches i hi
    exact ⟨r, isRoot_iff.mpr hr, hri⟩
  · rintro ⟨r, hr, hri⟩
    obtain ⟨hroots, hclosed⟩ := h.roots.closed (by simp [Places.Closed])
    simp only [List.append_nil, List.mem_reverse] at hroots
    simp only [Places.Closed, List.append_nil, List.mem_reverse, List.not_mem_nil,
      not_false_eq_true, forall_const] at hclosed
    induction hri with
    | refl => exact hroots r (isRoot_iff.mp hr)
    | tail _ hedge ih => exact hclosed _ ih _ hedge

/-- The slots of a resolved graph are a faithful picture of it. -/
theorem Graph.Resolved.arrangement {g : Graph} {limit : Nat} {ts : List Slot} {bs : List Block}
    (h : g.Resolved limit ts bs) : Arrangement g ts bs where
  holds := h.roots.holds
  once := h.roots.nodup.1
  reachable := h.mem_indices
  roots := h.roots.follows
  bodies := fun k t ht => by simpa using h.roots.follows_body k t ht

/-- Whatever the references of a graph look like, the trees that it is resolved into are a faithful
picture of it. -/
theorem resolve_arrangement {g : Graph} {limit : Nat} {bs : List Block}
    (h : g.resolve limit = .ok bs) : ∃ ts, Arrangement g ts bs := by
  obtain ⟨ts, hts⟩ := Graph.resolve_eq_ok.mp h
  exact ⟨ts, hts.arrangement⟩

/-- Two nodes carry one id, a root is listed twice, another one is a child as well, and two
references lead nowhere. -/
theorem resolve_arrangement_shared_child :
    let g : Graph := ⟨["a", "x", "b", "a"], [⟨"a", .control, [], ["b", "b", "y"]⟩,
      ⟨"b", .reply, [], []⟩, ⟨"b", .setting, [], []⟩]⟩
    let bs : List Block := [⟨some "a", .control, [], [⟨some "b", .setting, [], []⟩]⟩]
    g.resolve 1 = .ok bs ∧ ∃ ts, Arrangement g ts bs :=
  ⟨rfl, @resolve_arrangement _ 1 _ rfl⟩

end BlockBot
