import BlockBot.Proofs.Arrangement
import Mathlib.Data.Finset.Card
import Mathlib.Data.Finset.Range

/-!
# The calls of a walk

A walk is a tree of calls: placing a node that was not reached yet builds it, and building it places
its children. `Visits` is that tree of calls, written down without any bound on its depth but the
limit that the walk itself checks. Each build reaches a node that no earlier one has reached, so
there are fewer nodes left for the calls within it, and a tree of calls exists for every graph and
every limit (`exists_visits`). It ends as `place` does (`Visits.run_eq`), and it is the only one
(`Visits.unique`).

The states before and after each build are kept, so that what a walk does to its state can be said
of every build and not of the whole walk alone.
-/

namespace BlockBot

/-- A build of a node, with the states of the walk before and after it. -/
structure Build where
  index : Nat
  before : Walk
  after : Walk

/-- What a walk is called for: a node, or the rest of the children of a node. -/
inductive Request where
  | node (i : Nat)
  | children (parent : String) (ids : List String)

/-- The state after a build: a node is left if its children are placed, while a failure ends the
walk where it is. -/
def Walk.finish (w : Walk) (i : Nat) : Except CompileError (List Block) → Walk
  | .ok _ => w.leave i
  | .error _ => w

@[simp] theorem Walk.reached_finish (w : Walk) (i : Nat)
    (result : Except CompileError (List Block)) : (w.finish i result).reached = w.reached := by
  cases result <;> rfl

/-- `Visits g limit request w builds result w'`: the call for `request` in the state `w` ends with
`result` in the state `w'`, and `builds` are the builds within it in the order in which they begin.
A node that is placed is a list of one block. -/
inductive Visits (g : Graph) (limit : Nat) :
    Request → Walk → List Build → Except CompileError (List Block) → Walk → Prop
  | absent {i w} : g.nodes[i]? = none → Visits g limit (.node i) w [] (.ok []) w
  | refused {i n w} : g.nodes[i]? = some n → i ∈ w.path ∨ limit < w.path.length →
      Visits g limit (.node i) w [] (.error (.cyclic n.id w.path.length)) w
  | repeated {i n w} : g.nodes[i]? = some n → i ∉ w.path → w.path.length ≤ limit → i ∈ w.reached →
      Visits g limit (.node i) w [] (.ok []) (w.note (.repeatedReference n.id))
  | built {i n w builds result w'} : g.nodes[i]? = some n → i ∉ w.path → w.path.length ≤ limit →
      i ∉ w.reached → Visits g limit (.children n.id n.children) (w.enter i) builds result w' →
      Visits g limit (.node i) w (⟨i, w, w'.finish i result⟩ :: builds)
        (result.map fun children => [⟨some n.id, n.kind, n.data, children⟩]) (w'.finish i result)
  | done {parent w} : Visits g limit (.children parent []) w [] (.ok []) w
  | missing {parent id ids w builds result w'} : g.index? id = none →
      Visits g limit (.children parent ids) (w.note (.missingChild parent id)) builds result w' →
      Visits g limit (.children parent (id :: ids)) w builds result w'
  | failed {parent id ids i w builds e w'} : g.index? id = some i →
      Visits g limit (.node i) w builds (.error e) w' →
      Visits g limit (.children parent (id :: ids)) w builds (.error e) w'
  | next {parent id ids i w builds bs w₁ builds' result w'} : g.index? id = some i →
      Visits g limit (.node i) w builds (.ok bs) w₁ →
      Visits g limit (.children parent ids) w₁ builds' result w' →
      Visits g limit (.children parent (id :: ids)) w (builds ++ builds') (result.map (bs ++ ·)) w'

theorem Holds.append {g : Graph} {ts us : List Slot} {bs cs : List Block} (h : Holds g ts bs)
    (h' : Holds g us cs) : Holds g (ts ++ us) (bs ++ cs) := by
  induction h with
  | nil => exact h'
  | cons hn hbody _ _ ih => exact .cons hn hbody ih

/-- A build in a state whose path was reached adds its own node and others of the arena to those
that are reached. -/
structure Build.Enlarges (g : Graph) (b : Build) : Prop where
  path : b.before.path ⊆ b.before.reached
  fresh : b.index ∉ b.before.reached
  reaches : b.index ∈ b.after.reached
  keeps : b.before.reached ⊆ b.after.reached
  arena : ∀ j ∈ b.after.reached, j ∈ b.before.reached ∨ j < g.nodes.length

namespace Graph

/-- The step of a walk that a request asks for. -/
def run (g : Graph) (limit : Nat) : Request → Step (List Block)
  | .node i, w => ((g.place limit i w).1.map Option.toList, (g.place limit i w).2)
  | .children parent ids, w =>
    g.placeChildren (g.placeWithin (limit + 1 - w.path.length)) parent ids w

variable {g : Graph} {limit i : Nat} {n : Node} {w w' : Walk}

theorem run_node_eq_ok {bs : List Block} :
    g.run limit (.node i) w = (.ok bs, w') ↔ ∃ b, g.place limit i w = (.ok b, w') ∧
      b.toList = bs := by
  rw [run]
  rcases g.place limit i w with ⟨_ | b, v⟩
  · simp [Except.map]
  · simp [Except.map, and_comm]

theorem run_node_eq_error {e : CompileError} :
    g.run limit (.node i) w = (.error e, w') ↔ g.place limit i w = (.error e, w') := by
  rw [run]
  rcases g.place limit i w with ⟨_ | b, v⟩
  · simp [Except.map]
  · simp [Except.map]

theorem place_refused (hn : g.nodes[i]? = some n) (h : i ∈ w.path ∨ limit < w.path.length) :
    g.place limit i w = (.error (.cyclic n.id w.path.length), w) := by
  unfold place
  rcases Nat.lt_or_ge limit w.path.length with hdeep | hlimit
  · rw [show limit + 1 - w.path.length = 0 by omega]
    exact placeWithin_zero hn
  · rw [show limit + 1 - w.path.length = limit - w.path.length + 1 by omega]
    exact placeWithin_back hn (h.resolve_right (by omega))

/-- There is a level to open as long as the path is within the limit. -/
theorem place_of_le (hlimit : w.path.length ≤ limit) :
    g.place limit i w = g.placeWithin (limit - w.path.length + 1) i w := by
  unfold place
  rw [show limit + 1 - w.path.length = limit - w.path.length + 1 by omega]

theorem run_children_enter (parent : String) (ids : List String) :
    g.run limit (.children parent ids) (w.enter i) =
      g.placeChildren (g.placeWithin (limit - w.path.length)) parent ids (w.enter i) := by
  rw [run, Walk.enter, List.length_cons, Nat.add_sub_add_right]

end Graph

namespace Visits

variable {g : Graph} {limit : Nat} {request : Request} {w w' : Walk} {builds : List Build}
  {result : Except CompileError (List Block)}

/-! ## What a call does to the state -/

/-- The nodes that are reached by a call are those that it builds, whether it fails or not. -/
theorem reached_eq (h : Visits g limit request w builds result w') :
    w'.reached = (builds.map Build.index).reverse ++ w.reached := by
  induction h with
  | absent | refused | done => simp
  | repeated => simp [Walk.note]
  | built _ _ _ _ _ ih => simp [ih, Walk.enter]
  | missing _ _ ih => exact ih
  | failed _ _ ih => exact ih
  | next _ _ _ ih ih' => simp [ih', ih]

/-- A call builds nodes of the arena that were not reached before it, and none of them twice. -/
theorem fresh (h : Visits g limit request w builds result w') :
    (builds.map Build.index).Nodup ∧
      ∀ i ∈ builds.map Build.index, i ∉ w.reached ∧ i < g.nodes.length := by
  induction h with
  | absent | refused | repeated | done => simp
  | @built i n w builds result w' hn _ _ hreached _ ih =>
      have hlt : i < g.nodes.length := (List.getElem?_eq_some_iff.mp hn).1
      refine ⟨List.nodup_cons.mpr ⟨fun hi => ?_, ih.1⟩, fun j hj => ?_⟩
      · exact (ih.2 i hi).1 List.mem_cons_self
      · rcases List.mem_cons.mp hj with rfl | hj
        · exact ⟨hreached, hlt⟩
        · obtain ⟨hnew, hlt⟩ := ih.2 j hj
          exact ⟨fun hj => hnew (List.mem_cons_of_mem _ hj), hlt⟩
  | missing _ _ ih => exact ih
  | failed _ _ ih => exact ih
  | @next parent id ids i w builds bs w₁ builds' result w' _ hfirst _ ih ih' =>
      rw [hfirst.reached_eq] at ih'
      rw [List.map_append]
      refine ⟨List.nodup_append.mpr ⟨ih.1, ih'.1, ?_⟩, fun j hj => ?_⟩
      · rintro j hj k hk rfl
        exact (ih'.2 j hk).1 (List.mem_append_left _ (List.mem_reverse.mpr hj))
      · rcases List.mem_append.mp hj with hj | hj
        · exact ih.2 j hj
        · exact ⟨fun hj' => (ih'.2 j hj).1 (List.mem_append_right _ hj'), (ih'.2 j hj).2⟩

/-- A call that succeeds leaves the path as it was, and builds exactly the nodes of its blocks. -/
theorem of_ok {bs : List Block} (h : Visits g limit request w builds (.ok bs) w') :
    w'.path = w.path ∧ ∃ ts, Holds g ts bs ∧ Slot.indices ts = builds.map Build.index := by
  generalize hresult : Except.ok bs = result at h
  induction h generalizing bs with
  | absent | repeated | done =>
      cases hresult
      exact ⟨rfl, [], .nil, by simp⟩
  | refused | failed => cases hresult
  | @built i n w builds result w' hn _ _ _ _ ih =>
      cases result with
      | error e => cases hresult
      | ok children =>
          cases hresult
          obtain ⟨hpath, ts, hholds, hindices⟩ := ih rfl
          refine ⟨?_, [⟨i, ts⟩], .cons hn hholds .nil, by simp [hindices]⟩
          simp [Walk.finish, Walk.leave, hpath, Walk.enter]
  | missing _ _ ih => exact ih hresult
  | @next parent id ids i w builds bs w₁ builds' result w' _ _ _ ih ih' =>
      cases result with
      | error e => cases hresult
      | ok cs =>
          cases hresult
          obtain ⟨hpath, ts, hholds, hindices⟩ := ih rfl
          obtain ⟨hpath', us, hholds', hindices'⟩ := ih' rfl
          exact ⟨hpath'.trans hpath, ts ++ us, hholds.append hholds', by simp [hindices, hindices']⟩

/-- The node of a build and those within it are reached in the arena, and none that was reached
before is lost. -/
theorem enlarges_of_children {i : Nat} {n : Node} {parent : String} {ids : List String}
    (hn : g.nodes[i]? = some n) (hreached : i ∉ w.reached) (hw : w.path ⊆ w.reached)
    (h : Visits g limit (.children parent ids) (w.enter i) builds result w') :
    Build.Enlarges g ⟨i, w, w'.finish i result⟩ := by
  have hall : (w'.finish i result).reached = (builds.map Build.index).reverse ++ i :: w.reached :=
    (w'.reached_finish i result).trans h.reached_eq
  refine ⟨hw, hreached, ?_, ?_, ?_⟩
  · show i ∈ (w'.finish i result).reached
    rw [hall]
    exact List.mem_append_right _ List.mem_cons_self
  · intro j hj
    show j ∈ (w'.finish i result).reached
    rw [hall]
    exact List.mem_append_right _ (List.mem_cons_of_mem _ hj)
  · intro j hj
    have hlt : i < g.nodes.length := (List.getElem?_eq_some_iff.mp hn).1
    rw [hall] at hj
    rcases List.mem_append.mp hj with hj | hj
    · exact .inr (h.fresh.2 j (List.mem_reverse.mp hj)).2
    · rcases List.mem_cons.mp hj with rfl | hj
      · exact .inr hlt
      · exact .inl hj

/-- Every build of a call reaches its node, if the path was reached at the start of the call. -/
theorem enlarges (h : Visits g limit request w builds result w') (hw : w.path ⊆ w.reached) :
    ∀ b ∈ builds, b.Enlarges g := by
  induction h with
  | absent | refused | repeated | done => simp
  | built hn _ _ hreached hbody ih =>
      intro b hb
      rcases List.mem_cons.mp hb with rfl | hb
      · exact enlarges_of_children hn hreached hw hbody
      · exact ih (List.cons_subset_cons _ hw) b hb
  | missing _ _ ih => exact ih hw
  | failed _ _ ih => exact ih hw
  | next _ hfirst _ ih ih' =>
      intro b hb
      -- the first child leaves the path as it was, and only adds to what is reached
      have hw₁ := hfirst.reached_eq
      have hpath := hfirst.of_ok.1
      rcases List.mem_append.mp hb with hb | hb
      · exact ih hw b hb
      · refine ih' ?_ b hb
        rw [hpath, hw₁]
        exact fun j hj => List.mem_append_right _ (hw hj)

/-! ## Calls and the walk -/

/-- A tree of calls ends as the walk does. -/
theorem run_eq (h : Visits g limit request w builds result w') :
    g.run limit request w = (result, w') := by
  induction h with
  | absent hn =>
      refine Graph.run_node_eq_ok.mpr ⟨none, ?_, rfl⟩
      simp [Graph.place, Graph.placeWithin, hn]
  | refused hn hrefused => exact Graph.run_node_eq_error.mpr (Graph.place_refused hn hrefused)
  | repeated hn hpath hlimit hreached =>
      refine Graph.run_node_eq_ok.mpr ⟨none, ?_, rfl⟩
      rw [Graph.place_of_le hlimit, Graph.placeWithin_again hn hpath hreached]
  | @built i n w builds result w' hn hpath hlimit hreached _ ih =>
      rw [Graph.run_children_enter] at ih
      cases result with
      | error e =>
          refine Graph.run_node_eq_error.mpr ?_
          rw [Graph.place_of_le hlimit, Graph.placeWithin_fresh_error hn hpath hreached ih]
          rfl
      | ok children =>
          refine Graph.run_node_eq_ok.mpr ⟨some _, ?_, rfl⟩
          rw [Graph.place_of_le hlimit, Graph.placeWithin_fresh_ok hn hpath hreached ih]
          rfl
  | done => rfl
  | missing hid _ ih =>
      rw [Graph.run] at ih ⊢
      rw [Graph.placeChildren, hid]
      exact ih
  | @failed parent id ids i w builds e w' hid _ ih =>
      have hplace : g.placeWithin (limit + 1 - w.path.length) i w = (.error e, w') :=
        Graph.run_node_eq_error.mp ih
      rw [Graph.run, Graph.placeChildren, hid]
      simp only [hplace]
  | @next parent id ids i w builds bs w₁ builds' result w' hid hfirst _ ih ih' =>
      obtain ⟨b, hplace, rfl⟩ := Graph.run_node_eq_ok.mp ih
      rw [Graph.place] at hplace
      rw [Graph.run, hfirst.of_ok.1] at ih'
      rw [Graph.run, Graph.placeChildren, hid]
      simp only [hplace, ih']
      cases result with
      | error e => rfl
      | ok bs => rfl

/-- There is one tree of calls for a request and a state. -/
theorem unique (h : Visits g limit request w builds result w') {builds' : List Build}
    {result' : Except CompileError (List Block)} {w'' : Walk}
    (h' : Visits g limit request w builds' result' w'') :
    builds' = builds ∧ result' = result ∧ w'' = w' := by
  induction h generalizing builds' result' w'' with
  | absent hn =>
      cases h' with
      | absent _ => exact ⟨rfl, rfl, rfl⟩
      | refused hn' _ | repeated hn' _ _ _ | built hn' _ _ _ _ => simp [hn] at hn'
  | refused hn hrefused =>
      cases h' with
      | absent hn' => simp [hn] at hn'
      | refused hn' _ =>
          cases hn.symm.trans hn'
          exact ⟨rfl, rfl, rfl⟩
      | repeated _ hpath hlimit _ | built _ hpath hlimit _ _ =>
          exact absurd hrefused (not_or.mpr ⟨hpath, Nat.not_lt.mpr hlimit⟩)
  | repeated hn hpath hlimit hreached =>
      cases h' with
      | absent hn' => simp [hn] at hn'
      | refused _ hrefused => exact absurd hrefused (not_or.mpr ⟨hpath, Nat.not_lt.mpr hlimit⟩)
      | repeated hn' _ _ _ =>
          cases hn.symm.trans hn'
          exact ⟨rfl, rfl, rfl⟩
      | built _ _ _ hnew _ => exact absurd hreached hnew
  | built hn hpath hlimit hnew _ ih =>
      cases h' with
      | absent hn' => simp [hn] at hn'
      | refused _ hrefused => exact absurd hrefused (not_or.mpr ⟨hpath, Nat.not_lt.mpr hlimit⟩)
      | repeated _ _ _ hreached => exact absurd hreached hnew
      | built hn' _ _ _ hbody =>
          cases hn.symm.trans hn'
          obtain ⟨rfl, rfl, rfl⟩ := ih hbody
          exact ⟨rfl, rfl, rfl⟩
  | done =>
      cases h'
      exact ⟨rfl, rfl, rfl⟩
  | missing hid _ ih =>
      cases h' with
      | missing _ hrest => exact ih hrest
      | failed hid' _ | next hid' _ _ => simp [hid] at hid'
  | failed hid _ ih =>
      cases h' with
      | missing hid' _ => simp [hid] at hid'
      | failed hid' hfirst =>
          cases hid.symm.trans hid'
          exact ih hfirst
      | next hid' hfirst _ =>
          cases hid.symm.trans hid'
          obtain ⟨-, hresult, -⟩ := ih hfirst
          cases hresult
  | next hid _ _ ih ih' =>
      cases h' with
      | missing hid' _ => simp [hid] at hid'
      | failed hid' hfirst =>
          cases hid.symm.trans hid'
          obtain ⟨-, hresult, -⟩ := ih hfirst
          cases hresult
      | next hid' hfirst hrest =>
          cases hid.symm.trans hid'
          obtain ⟨rfl, hresult, rfl⟩ := ih hfirst
          cases hresult
          obtain ⟨rfl, rfl, rfl⟩ := ih' hrest
          exact ⟨rfl, rfl, rfl⟩

end Visits

/-! ## Every walk ends -/

/-- The nodes of the arena that a walk has not reached. -/
def Graph.unreached (g : Graph) (w : Walk) : Finset Nat :=
  (Finset.range g.nodes.length).filter (· ∉ w.reached)

variable {g : Graph} {limit : Nat} {w w' : Walk}

theorem Graph.mem_unreached {i : Nat} : i ∈ g.unreached w ↔ i < g.nodes.length ∧ i ∉ w.reached := by
  rw [unreached, Finset.mem_filter, Finset.mem_range]

/-- What is reached stays reached, so a call leaves no more nodes than there were before it. -/
theorem Visits.unreached_subset {request : Request} {builds : List Build}
    {result : Except CompileError (List Block)} (h : Visits g limit request w builds result w') :
    g.unreached w' ⊆ g.unreached w := by
  intro i hi
  obtain ⟨hlt, hnew⟩ := Graph.mem_unreached.mp hi
  rw [h.reached_eq] at hnew
  exact Graph.mem_unreached.mpr ⟨hlt, fun hreached => hnew (List.mem_append_right _ hreached)⟩

/-- A build has fewer nodes left than there were before it. -/
theorem Graph.card_unreached_enter {i : Nat} (hlt : i < g.nodes.length) (hnew : i ∉ w.reached) :
    (g.unreached (w.enter i)).card < (g.unreached w).card := by
  apply Finset.card_lt_card
  refine ⟨fun j hj => ?_, fun hsubset => ?_⟩
  · obtain ⟨hj, hjnew⟩ := mem_unreached.mp hj
    exact mem_unreached.mpr ⟨hj, fun hreached => hjnew (List.mem_cons_of_mem _ hreached)⟩
  · have hi := mem_unreached.mp (hsubset (mem_unreached.mpr ⟨hlt, hnew⟩))
    exact hi.2 List.mem_cons_self

/-- The calls for the children of a node end, if each call for a node does with so many nodes
left. -/
theorem exists_visits_children {left : Nat}
    (hnode : ∀ i w, (g.unreached w).card ≤ left →
      ∃ builds result w', Visits g limit (.node i) w builds result w')
    (parent : String) (ids : List String) (w : Walk) (hleft : (g.unreached w).card ≤ left) :
    ∃ builds result w', Visits g limit (.children parent ids) w builds result w' := by
  induction ids generalizing w with
  | nil => exact ⟨[], _, w, .done⟩
  | cons id ids ih =>
      cases hid : g.index? id with
      | none =>
          obtain ⟨builds, result, w', hrest⟩ := ih (w.note (.missingChild parent id)) hleft
          exact ⟨builds, result, w', .missing hid hrest⟩
      | some i =>
          obtain ⟨builds, result, w₁, hfirst⟩ := hnode i w hleft
          cases result with
          | error e => exact ⟨builds, _, w₁, .failed hid hfirst⟩
          | ok bs =>
              have hleft₁ := Nat.le_trans (Finset.card_le_card hfirst.unreached_subset) hleft
              obtain ⟨builds', result, w', hrest⟩ := ih w₁ hleft₁
              exact ⟨builds ++ builds', _, w', .next hid hfirst hrest⟩

/-- Every call for a node ends, on every graph and with every limit: fewer nodes are left in each
build within it. -/
theorem exists_visits (g : Graph) (limit i : Nat) (w : Walk) :
    ∃ builds result w', Visits g limit (.node i) w builds result w' := by
  induction hleft : (g.unreached w).card using Nat.strongRecOn generalizing i w with
  | ind left ih =>
      cases hn : g.nodes[i]? with
      | none => exact ⟨[], _, w, .absent hn⟩
      | some n =>
          by_cases hrefused : i ∈ w.path ∨ limit < w.path.length
          · exact ⟨[], _, w, .refused hn hrefused⟩
          obtain ⟨hpath, hlimit⟩ := not_or.mp hrefused
          rw [Nat.not_lt] at hlimit
          by_cases hreached : i ∈ w.reached
          · exact ⟨[], _, _, .repeated hn hpath hlimit hreached⟩
          have hless := Graph.card_unreached_enter (List.getElem?_eq_some_iff.mp hn).1 hreached
          obtain ⟨builds, result, w', hbody⟩ := exists_visits_children
            (fun j v hv => ih (g.unreached v).card (by omega) j v rfl)
            n.id n.children (w.enter i) (Nat.le_refl _)
          exact ⟨_, _, _, .built hn hpath hlimit hreached hbody⟩

/-- There are at most as many builds in a call as nodes were left before it. -/
theorem Visits.length_le {request : Request} {builds : List Build}
    {result : Except CompileError (List Block)} (h : Visits g limit request w builds result w') :
    builds.length ≤ (g.unreached w).card := by
  obtain ⟨hnodup, hfresh⟩ := h.fresh
  rw [← List.length_map Build.index, ← List.toFinset_card_of_nodup hnodup]
  apply Finset.card_le_card
  intro i hi
  obtain ⟨hnew, hlt⟩ := hfresh i (List.mem_toFinset.mp hi)
  exact Graph.mem_unreached.mpr ⟨hlt, hnew⟩

/-- How a walk keeps its state, on every graph, with every limit and in every state whose path was
reached. There is one tree of calls for a node; it ends as `place` does, and it builds each node of
the arena at most once. Every build in it enlarges what is reached, within the arena. Where the walk
succeeds, the path is as it was before, and what is reached has grown by exactly the nodes of the
blocks that are returned, none of which was reached before. -/
theorem place_discipline (g : Graph) (limit i : Nat) {w : Walk} (hw : w.path ⊆ w.reached) :
    ∃ builds, Visits g limit (.node i) w builds ((g.place limit i w).1.map Option.toList)
      (g.place limit i w).2 ∧
      (∀ builds' result w', Visits g limit (.node i) w builds' result w' → builds' = builds) ∧
      (∀ b ∈ builds, b.Enlarges g) ∧
      (builds.map Build.index).Nodup ∧ builds.length ≤ g.nodes.length ∧
      ∀ b w', g.place limit i w = (.ok b, w') →
        w'.path = w.path ∧ (b = none → w'.reached = w.reached) ∧
        ∃ ts, Holds g ts b.toList ∧ Slot.indices ts = builds.map Build.index ∧
          (∀ j ∈ Slot.indices ts, j ∉ w.reached) ∧
          w'.reached = (Slot.indices ts).reverse ++ w.reached := by
  obtain ⟨builds, result, w₁, hvisits⟩ := exists_visits g limit i w
  obtain ⟨rfl, rfl⟩ : (g.place limit i w).1.map Option.toList = result ∧
      (g.place limit i w).2 = w₁ :=
    Prod.mk.inj hvisits.run_eq
  have hlength : builds.length ≤ g.nodes.length := by
    calc builds.length ≤ (g.unreached w).card := hvisits.length_le
      _ ≤ (Finset.range g.nodes.length).card := Finset.card_le_card (Finset.filter_subset _ _)
      _ = g.nodes.length := Finset.card_range _
  refine ⟨builds, hvisits, fun builds' result w' h => (hvisits.unique h).1, hvisits.enlarges hw,
    hvisits.fresh.1, hlength, ?_⟩
  intro b w' hplace
  rw [hplace] at hvisits
  obtain ⟨hpath, ts, hholds, hindices⟩ := Visits.of_ok hvisits
  have hreached : w'.reached = (Slot.indices ts).reverse ++ w.reached :=
    hindices ▸ hvisits.reached_eq
  refine ⟨hpath, ?_, ts, hholds, hindices, fun j hj => (hvisits.fresh.2 j (hindices ▸ hj)).1,
    hreached⟩
  rintro rfl
  cases hholds
  rw [hreached, Slot.indices_nil, List.reverse_nil, List.nil_append]

/-- Below the last node, which is on the path, the first one is placed without its first child,
which was reached. -/
theorem place_discipline_below :
    let g : Graph :=
      ⟨[], [⟨"a", .control, [], ["b", "c", "x"]⟩, ⟨"b", .reply, [], []⟩, ⟨"c", .reply, [], []⟩,
        ⟨"d", .control, [], ["b", "a"]⟩]⟩
    let w : Walk := ⟨[3], [1, 3], []⟩
    w.path ⊆ w.reached ∧
      ∃ builds, Visits g 9 (.node 0) w builds ((g.place 9 0 w).1.map Option.toList)
        (g.place 9 0 w).2 ∧ (∀ b ∈ builds, b.Enlarges g) ∧ builds.map Build.index = [0, 2] := by
  intro g w
  have hw : w.path ⊆ w.reached := by decide
  obtain ⟨builds, hvisits, -, henlarges, -, -, hok⟩ := place_discipline g 9 0 hw
  obtain ⟨-, -, ts, -, hindices, -, hreached⟩ := hok _ _ rfl
  have hplaced : [2, 0] = (Slot.indices ts).reverse := List.append_cancel_right hreached
  have hbuilt : builds.map Build.index = [0, 2] := by
    rw [← hindices, ← List.reverse_reverse (Slot.indices ts), ← hplaced]
    rfl
  exact ⟨hw, builds, hvisits, henlarges, hbuilt⟩

end BlockBot
