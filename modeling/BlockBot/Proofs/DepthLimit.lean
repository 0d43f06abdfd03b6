import BlockBot.Proofs.InferredRoots
import BlockBot.Proofs.Rejection
import BlockBot.Proofs.Trees

/-!
# The depth limit is a threshold

A limit decides whether a graph is resolved and nothing else. The walk asks for one more level
whenever it follows a reference to a node, also to one that was placed before, so what it needs is
one level for the references of every block that has any. A placement needs no other levels
(`Places.lower`), and it is the only one from its references (`Places.unique`). So two limits that
both let a graph through give the same trees, and those trees tell which limits do.
-/

namespace BlockBot

namespace Slot

/-- The depth of a slot in several trees. -/
abbrev AtDepth (ts : List Slot) : Nat → Slot → Prop :=
  BlockBot.AtDepth Slot.body ts

end Slot

namespace Places

variable {g : Graph} {levels : Nat} {path reached : List Nat} {refs : List (Option Nat)}
  {ts : List Slot} {bs : List Block}

/-- The same references give the same trees. -/
theorem unique (h : Places g levels path reached refs ts bs) {ts' : List Slot} {bs' : List Block}
    (h' : Places g levels path reached refs ts' bs') : ts = ts' ∧ bs = bs' := by
  induction h generalizing ts' bs' with
  | done =>
      cases h'
      exact ⟨rfl, rfl⟩
  | missing _ ih =>
      cases h' with
      | missing h' => exact ih h'
  | repeated _ hreached _ ih =>
      cases h' with
      | repeated _ _ h' => exact ih h'
      | placed _ _ hfresh _ _ => exact absurd hreached hfresh
  | placed hn _ hfresh _ _ ihBody ih =>
      cases h' with
      | repeated _ hreached _ => exact absurd hreached hfresh
      | placed hn' _ _ hbody' h' =>
          obtain ⟨rfl, rfl⟩ := ihBody hbody'
          obtain ⟨rfl, rfl⟩ := ih h'
          obtain rfl := Option.some.inj (hn.symm.trans hn')
          exact ⟨rfl, rfl⟩

/-- Following a reference to a node takes a level. -/
theorem levels_pos (h : Places g levels path reached refs ts bs) {i : Nat} (hi : some i ∈ refs) :
    1 ≤ levels := by
  induction h with
  | done => simp at hi
  | missing _ ih => exact ih (by simpa using hi)
  | repeated _ _ _ _ => exact Nat.le_add_left 1 _
  | placed _ _ _ _ _ _ _ => exact Nat.le_add_left 1 _

/-- A block whose node refers to another one needs its own level and one more. -/
theorem depth_lt_levels (h : Places g levels path reached refs ts bs) {d : Nat} {t : Slot}
    (ht : Slot.AtDepth ts d t) {j : Nat} (hj : g.Edge t.index j) : d + 2 ≤ levels := by
  induction h generalizing d with
  | done => exact absurd ht AtDepth.not_nil
  | missing _ ih => exact ih ht
  | repeated _ _ _ ih => exact ih ht
  | placed _ _ _ hbody _ ihBody ih =>
      rcases ht.cases_cons with ⟨rfl, rfl⟩ | ⟨e, rfl, hte⟩ | ht
      · have := hbody.levels_pos (Graph.edge_iff.mp hj)
        omega
      · have := ihBody hte
        omega
      · exact ih ht

/-- No other levels are needed: one for the references themselves, and those for the references of
each block. -/
theorem lower (h : Places g levels path reached refs ts bs) {levels' : Nat}
    (hrefs : ∀ i, some i ∈ refs → 1 ≤ levels')
    (hslots : ∀ d t j, Slot.AtDepth ts d t → g.Edge t.index j → d + 2 ≤ levels') :
    Places g levels' path reached refs ts bs := by
  induction h generalizing levels' with
  | done => exact .done
  | missing _ ih => exact .missing (ih (fun i hi => hrefs i (List.mem_cons_of_mem _ hi)) hslots)
  | repeated hpath hreached _ ih =>
      have hrest := ih (fun i hi => hrefs i (List.mem_cons_of_mem _ hi)) hslots
      obtain ⟨l, rfl⟩ := Nat.exists_eq_add_of_le' (hrefs _ List.mem_cons_self)
      exact .repeated hpath hreached hrest
  | @placed levels path reached i n refs body children ts bs hn hpath hfresh _ _ ihBody ih =>
      have hrest := ih (fun i hi => hrefs i (List.mem_cons_of_mem _ hi))
        fun d t j ht hj => hslots d t j ht.cons hj
      obtain ⟨l, rfl⟩ := Nat.exists_eq_add_of_le' (hrefs _ List.mem_cons_self)
      -- the body has one level less, and its slots sit one level higher in it
      have hbody : Places g l (i :: path) (i :: reached) (g.childRefs i) body children := by
        refine ihBody ?_ ?_
        · intro j hj
          have := hslots 0 ⟨i, body⟩ j (.root List.mem_cons_self) (Graph.edge_iff.mpr hj)
          omega
        · intro d t j ht hj
          have := hslots (d + 1) t j (.ofBody ht) hj
          omega
      exact .placed hn hpath hfresh hbody hrest

/-- References to nodes that were reached place nothing. -/
theorem of_reached {is : List Nat} (h : ∀ i ∈ is, i ∈ reached) :
    Places g (levels + 1) [] reached (is.map some) [] [] := by
  induction is with
  | nil => exact .done
  | cons i is ih =>
      obtain ⟨hi, his⟩ := List.forall_mem_cons.mp h
      exact .repeated List.not_mem_nil hi (ih his)

end Places

namespace Graph

/-- Some block at the depth of the limit or deeper comes from a node with a child id that names a
node. -/
def Overruns (g : Graph) (limit : Nat) (ts : List Slot) : Prop :=
  ∃ d t j, Slot.AtDepth ts d t ∧ limit ≤ d ∧ g.Edge t.index j

namespace Resolved

variable {g : Graph} {limit limit' : Nat} {ts ts' : List Slot} {bs bs' : List Block}

/-- All limits that let a graph through give the same trees. -/
theorem unique (h : g.Resolved limit ts bs) (h' : g.Resolved limit' ts' bs') :
    ts = ts' ∧ bs = bs' := by
  have hle : limit + 1 ≤ max limit limit' + 1 := Nat.succ_le_succ (Nat.le_max_left _ _)
  have hle' : limit' + 1 ≤ max limit limit' + 1 := Nat.succ_le_succ (Nat.le_max_right _ _)
  exact (h.roots.mono hle).unique (h'.roots.mono hle')

theorem not_overruns (h : g.Resolved limit ts bs) : ¬ g.Overruns limit ts := by
  rintro ⟨d, t, j, ht, hle, hj⟩
  have := h.roots.depth_lt_levels ht hj
  omega

/-- The trees of a graph are found again under every limit that they do not overrun. -/
theorem of_not_overruns (h : g.Resolved limit ts bs) (hids : g.roots ≠ [] ∨ g.DistinctIds)
    (hfits : ¬ g.Overruns limit' ts) : g.Resolved limit' ts bs where
  roots := by
    refine h.roots.lower (fun _ _ => Nat.le_add_left 1 _) ?_
    intro d t j ht hj
    have hlt : ¬ limit' ≤ d := fun hle => hfits ⟨d, t, j, ht, hle, hj⟩
    omega
  rest := by
    intro hroots
    have hdistinct : g.DistinctIds := hids.resolve_left (not_not_intro hroots)
    refine ⟨[], [], Places.of_reached ?_⟩
    intro i hi
    rw [List.mem_reverse, h.mem_indices_of_distinct hroots hdistinct]
    exact List.mem_range.mp hi

/-- A graph that some limit lets through is rejected for its depth only. -/
theorem error_depth (h : g.Resolved limit ts bs) {e : CompileError}
    (he : g.resolve limit' = .error e) : ∃ id, e = .cyclic id (limit' + 1) := by
  obtain ⟨r, path, v, hstart, hroot, hdead⟩ := resolve_deadEnd he
  obtain ⟨n, -, rfl⟩ := hdead.error
  refine ⟨n.id, ?_⟩
  rw [hdead.reason.resolve_left ?_]
  intro hv
  have hcycle : Relation.TransGen g.Edge v v := hdead.descends.transGen hv
  by_cases hroots : g.roots = []
  · exact (h.grounded_of_no_roots hroots (hdead.descends.lt_length hv)).not_cycle hcycle
  · -- the cycle lies below the root from which the walk came to it
    have hreachable : g.Reachable v := by
      refine ⟨r, hroot hroots, ?_⟩
      rcases List.mem_cons.mp (hstart.subset List.mem_cons_self) with rfl | hr
      · exact .refl
      · exact (hdead.descends.transGen hr).to_reflTransGen
    exact (h.grounded_of_reachable hreachable).not_cycle hcycle

end Resolved

end Graph

/-- The depth limit is an exact threshold. A greater limit changes nothing about a result. If there
are root ids, or if all ids differ, then the trees of a graph tell what every limit does with it: it
gives these trees unless they overrun it, and then it stops at the first level that may not be
opened. -/
theorem resolve_depth_limit (g : Graph) :
    (∀ limit limit' bs, limit ≤ limit' → g.resolve limit = .ok bs → g.resolve limit' = .ok bs) ∧
    ∀ limit bs, (g.roots ≠ [] ∨ g.DistinctIds) → g.resolve limit = .ok bs →
      ∃ ts, Arrangement g ts bs ∧ ∀ limit',
        (¬ g.Overruns limit' ts → g.resolve limit' = .ok bs) ∧
        (g.Overruns limit' ts → ∃ id, g.resolve limit' = .error (.cyclic id (limit' + 1))) := by
  refine ⟨fun limit limit' bs hle h => Graph.resolve_mono h hle, ?_⟩
  intro limit bs hids h
  obtain ⟨ts, hts⟩ := Graph.resolve_eq_ok.mp h
  refine ⟨ts, hts.arrangement, fun limit' => ⟨?_, ?_⟩⟩
  · intro hfits
    exact Graph.resolve_eq_ok.mpr ⟨ts, hts.of_not_overruns hids hfits⟩
  · intro hover
    cases hr : g.resolve limit' with
    | ok bs' =>
        obtain ⟨ts', hts'⟩ := Graph.resolve_eq_ok.mp hr
        obtain ⟨rfl, -⟩ := hts.unique hts'
        exact absurd hover hts'.not_overruns
    | error e =>
        obtain ⟨id, rfl⟩ := hts.error_depth hr
        exact ⟨id, rfl⟩

/-- The reference from `"c"` to `"b"` is a repeated one, and still it needs a level of its own. -/
theorem resolve_depth_limit_repeated :
    let g : Graph := ⟨["a"], [⟨"a", .control, [], ["b", "c"]⟩, ⟨"b", .reply, [], []⟩,
      ⟨"c", .control, [], ["b"]⟩]⟩
    let bs : List Block := [⟨some "a", .control, [],
      [⟨some "b", .reply, [], []⟩, ⟨some "c", .control, [], []⟩]⟩]
    g.resolve 2 = .ok bs ∧ g.resolve 3 = .ok bs ∧ ∃ ts, Arrangement g ts bs ∧ g.Overruns 1 ts ∧
      ∃ id, g.resolve 1 = .error (.cyclic id 2) := by
  intro g bs
  have h : g.resolve 2 = .ok bs := rfl
  obtain ⟨hmono, hthreshold⟩ := resolve_depth_limit g
  obtain ⟨ts, harrangement, hlimit⟩ := hthreshold 2 bs (.inl (by simp [g])) h
  have hover : g.Overruns 1 ts := by
    by_contra hfits
    have hok : g.resolve 1 = .ok bs := (hlimit 1).1 hfits
    have herror : g.resolve 1 = .error (.cyclic "b" 2) := rfl
    rw [herror] at hok
    cases hok
  exact ⟨h, hmono 2 3 bs (by omega) h, ts, harrangement, hover, (hlimit 1).2 hover⟩

end BlockBot
