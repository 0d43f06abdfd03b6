import BlockBot.Block.Basic

/-!
# Trees of blocks

Depth in several trees, counted from the roots, and trees of blocks without their ids. The number of
levels is what decides whether all blocks are within a given depth.
-/

namespace BlockBot

/-- `AtDepth below roots d a`: of several trees, in which `below b` stands below `b` and whose roots
sit at depth zero, `a` sits at depth `d`. -/
inductive AtDepth {α : Type} (below : α → List α) (roots : List α) : Nat → α → Prop
  | root {a} : a ∈ roots → AtDepth below roots 0 a
  | child {d a b} : AtDepth below roots d a → b ∈ below a → AtDepth below roots (d + 1) b

namespace AtDepth

variable {α : Type} {below : α → List α} {roots : List α} {d : Nat} {a b : α}

theorem not_nil : ¬ AtDepth below [] d b := by
  intro h
  induction h with
  | root hb => simp at hb
  | child _ _ ih => exact ih

theorem cons (h : AtDepth below roots d b) : AtDepth below (a :: roots) d b := by
  induction h with
  | root hb => exact .root (List.mem_cons_of_mem _ hb)
  | child _ hb ih => exact .child ih hb

theorem ofBody (h : AtDepth below (below a) d b) : AtDepth below (a :: roots) (d + 1) b := by
  induction h with
  | root hb => exact .child (.root List.mem_cons_self) hb
  | child _ hb ih => exact .child ih hb

/-- What sits in several trees is the first root, or it sits below that root or in the other
trees. -/
theorem cases_cons (h : AtDepth below (a :: roots) d b) :
    (d = 0 ∧ b = a) ∨ (∃ e, d = e + 1 ∧ AtDepth below (below a) e b) ∨ AtDepth below roots d b := by
  induction h with
  | root hb =>
      rcases List.mem_cons.mp hb with rfl | hb
      · exact .inl ⟨rfl, rfl⟩
      · exact .inr (.inr (.root hb))
  | child _ hb ih =>
      rcases ih with ⟨rfl, rfl⟩ | ⟨e, rfl, hbody⟩ | hothers
      · exact .inr (.inl ⟨0, rfl, .root hb⟩)
      · exact .inr (.inl ⟨e + 1, rfl, .child hbody hb⟩)
      · exact .inr (.inr (.child hothers hb))

end AtDepth

namespace Block

/-- Induction over several trees at once: first the body of the first tree, then the other trees. -/
@[elab_as_elim]
theorem forest_induction {motive : List Block → Prop} (nil : motive [])
    (cons : ∀ id kind data children bs, motive children → motive bs →
      motive (⟨id, kind, data, children⟩ :: bs)) : ∀ bs, motive bs
  | [] => nil
  | ⟨id, kind, data, children⟩ :: bs =>
      cons id kind data children bs (forest_induction nil cons children)
        (forest_induction nil cons bs)

/-! ## Depth -/

/-- The depth of a block in several trees. -/
abbrev AtDepth (bs : List Block) : Nat → Block → Prop :=
  BlockBot.AtDepth Block.children bs

/-- Every block of several trees sits at most so deep. -/
def DepthAtMost (limit : Nat) (bs : List Block) : Prop :=
  ∀ d b, AtDepth bs d b → d ≤ limit

/-- The number of levels of several trees. -/
def levels : List Block → Nat
  | [] => 0
  | ⟨_, _, _, children⟩ :: bs => max (levels children + 1) (levels bs)

theorem levels_children_lt {b : Block} {bs : List Block} (h : b ∈ bs) :
    levels b.children < levels bs := by
  induction bs with
  | nil => cases h
  | cons c bs ih =>
      obtain ⟨id, kind, data, children⟩ := c
      rw [levels]
      rcases List.mem_cons.mp h with rfl | h
      · exact Nat.lt_of_lt_of_le (Nat.lt_succ_self _) (Nat.le_max_left _ _)
      · exact Nat.lt_of_lt_of_le (ih h) (Nat.le_max_right _ _)

/-- There is room for a block and its body below it. -/
theorem add_levels_lt {bs : List Block} {d : Nat} {b : Block} (h : AtDepth bs d b) :
    d + levels b.children < levels bs := by
  induction h with
  | root hb => simpa using levels_children_lt hb
  | child _ hc ih =>
      have := levels_children_lt hc
      omega

theorem levels_le_iff {limit : Nat} {bs : List Block} :
    levels bs ≤ limit + 1 ↔ DepthAtMost limit bs := by
  constructor
  · intro h d b hb
    have := add_levels_lt hb
    omega
  · induction bs using forest_induction generalizing limit with
    | nil => simp [levels]
    | cons id kind data children bs ihChildren ih =>
        intro h
        rw [levels]
        refine Nat.max_le.mpr ⟨?_, ih fun d b hb => h d b hb.cons⟩
        cases limit with
        | succ limit =>
            have hbody : DepthAtMost limit children := fun d c hc =>
              Nat.le_of_succ_le_succ
                (h (d + 1) c (.ofBody (a := Block.mk id kind data children) hc))
            exact Nat.succ_le_succ (ihChildren hbody)
        | zero =>
            -- nothing sits at depth one, so there is no body
            cases children with
            | nil => simp [levels]
            | cons c cs =>
                have hc : 1 ≤ 0 := h 1 c (.child (.root List.mem_cons_self) List.mem_cons_self)
                omega

/-! ## Trees without ids -/

/-- Trees without ids. -/
def withoutIds : List Block → List Block
  | [] => []
  | ⟨_, kind, data, children⟩ :: bs => ⟨none, kind, data, withoutIds children⟩ :: withoutIds bs

/-- A tree without ids. -/
def anonymous (b : Block) : Block :=
  ⟨none, b.kind, b.data, withoutIds b.children⟩

theorem withoutIds_eq_map (bs : List Block) : withoutIds bs = bs.map anonymous := by
  induction bs with
  | nil => rw [withoutIds, List.map_nil]
  | cons b bs ih =>
      obtain ⟨id, kind, data, children⟩ := b
      rw [withoutIds, ih, List.map_cons, anonymous]

end Block

end BlockBot
