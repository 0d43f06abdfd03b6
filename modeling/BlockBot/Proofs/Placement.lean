import BlockBot.Proofs.Edges

/-!
# Placements

What a successful walk does, without the state that it threads. `Places` is the relation between the
references that a walk is given and the trees that it returns; it holds every check that the walk
makes. The walk succeeds exactly where the relation holds (`resolve_eq_ok`), so that facts about
resolved graphs are proved by induction on `Places` and do not look at the walk again.

A tree is kept twice: as blocks, and as slots that remember which node of the arena each block came
from.
-/

namespace BlockBot

/-- A place in a tree: the index of the node that it holds, and the places in its body. -/
structure Slot where
  index : Nat
  body : List Slot

namespace Slot

/-- The slots of several trees, each before its body. -/
def preorder : List Slot → List Slot
  | [] => []
  | ⟨i, body⟩ :: ts => ⟨i, body⟩ :: (preorder body ++ preorder ts)

/-- The indices that are placed in several trees, in preorder. -/
def indices (ts : List Slot) : List Nat :=
  (preorder ts).map index

@[simp] theorem indices_nil : indices [] = [] := by
  simp [indices, preorder]

@[simp] theorem indices_cons (i : Nat) (body ts : List Slot) :
    indices (⟨i, body⟩ :: ts) = i :: (indices body ++ indices ts) := by
  simp [indices, preorder]

@[simp] theorem indices_append (ts us : List Slot) :
    indices (ts ++ us) = indices ts ++ indices us := by
  induction ts with
  | nil => simp
  | cons t ts ih =>
      obtain ⟨i, body⟩ := t
      simp [ih]

end Slot

/-- `Places g levels path reached refs ts bs`: below the nodes of `path`, with `levels` more levels
to open and the nodes of `reached` placed before, the references `refs` are followed in their order.
This gives the trees `ts`, and `bs` are their blocks. -/
inductive Places (g : Graph) :
    Nat → List Nat → List Nat → List (Option Nat) → List Slot → List Block → Prop
  | done {levels path reached} : Places g levels path reached [] [] []
  | missing {levels path reached refs ts bs} : Places g levels path reached refs ts bs →
      Places g levels path reached (none :: refs) ts bs
  | repeated {levels path reached i refs ts bs} : i ∉ path → i ∈ reached →
      Places g (levels + 1) path reached refs ts bs →
      Places g (levels + 1) path reached (some i :: refs) ts bs
  | placed {levels path reached i n refs body children ts bs} : g.nodes[i]? = some n →
      i ∉ path → i ∉ reached →
      Places g levels (i :: path) (i :: reached) (g.childRefs i) body children →
      Places g (levels + 1) path ((Slot.indices body).reverse ++ i :: reached) refs ts bs →
      Places g (levels + 1) path reached (some i :: refs) (⟨i, body⟩ :: ts)
        (⟨some n.id, n.kind, n.data, children⟩ :: bs)

namespace Places

variable {g : Graph} {levels : Nat} {path reached : List Nat} {refs : List (Option Nat)}
  {ts : List Slot} {bs : List Block}

/-- Two runs of references are followed one after the other. -/
theorem append (h : Places g levels path reached refs ts bs) {refs' : List (Option Nat)}
    {ts' : List Slot} {bs' : List Block}
    (h' : Places g levels path ((Slot.indices ts).reverse ++ reached) refs' ts' bs') :
    Places g levels path reached (refs ++ refs') (ts ++ ts') (bs ++ bs') := by
  induction h with
  | done => simpa using h'
  | missing _ ih => exact .missing (ih h')
  | repeated hpath hreached _ ih => exact .repeated hpath hreached (ih h')
  | placed hn hpath hreached hbody _ _ ih =>
      refine .placed hn hpath hreached hbody (ih ?_)
      simpa using h'

/-- What the first reference gives can be told apart from what the others give. -/
theorem uncons {ref : Option Nat} (h : Places g levels path reached (ref :: refs) ts bs) :
    ∃ ts₁ bs₁ ts₂ bs₂, ts = ts₁ ++ ts₂ ∧ bs = bs₁ ++ bs₂ ∧
      Places g levels path reached [ref] ts₁ bs₁ ∧
      Places g levels path ((Slot.indices ts₁).reverse ++ reached) refs ts₂ bs₂ := by
  cases h with
  | missing h => exact ⟨[], [], _, _, rfl, rfl, .missing .done, by simpa using h⟩
  | repeated hpath hreached h =>
      exact ⟨[], [], _, _, rfl, rfl, .repeated hpath hreached .done, by simpa using h⟩
  | placed hn hpath hreached hbody h =>
      exact ⟨[_], [_], _, _, rfl, rfl, .placed hn hpath hreached hbody .done, by simpa using h⟩

/-- References to no node may be dropped. -/
theorem filterMap_iff :
    Places g levels path reached ((refs.filterMap id).map some) ts bs ↔
      Places g levels path reached refs ts bs := by
  induction refs generalizing reached ts bs with
  | nil => rfl
  | cons ref refs ih =>
      -- the rest is followed after more nodes were reached, so the induction is for all `reached`
      cases ref with
      | none =>
          refine ⟨fun h => .missing (ih.mp h), fun h => ?_⟩
          cases h with
          | missing h => exact ih.mpr h
      | some i =>
          constructor
          · intro h
            obtain ⟨ts₁, bs₁, ts₂, bs₂, rfl, rfl, h₁, h₂⟩ := uncons h
            exact append h₁ (ih.mp h₂)
          · intro h
            obtain ⟨ts₁, bs₁, ts₂, bs₂, rfl, rfl, h₁, h₂⟩ := uncons h
            exact append h₁ (ih.mpr h₂)

/-- A placement stays one when more levels may be opened. -/
theorem mono (h : Places g levels path reached refs ts bs) {levels' : Nat}
    (hle : levels ≤ levels') : Places g levels' path reached refs ts bs := by
  induction h generalizing levels' with
  | done => exact .done
  | missing _ ih => exact .missing (ih hle)
  | repeated hpath hreached _ ih =>
      obtain ⟨l, rfl⟩ := Nat.exists_eq_succ_of_ne_zero (show levels' ≠ 0 by omega)
      exact .repeated hpath hreached (ih hle)
  | placed hn hpath hreached _ _ ihBody ih =>
      obtain ⟨l, rfl⟩ := Nat.exists_eq_succ_of_ne_zero (show levels' ≠ 0 by omega)
      exact .placed hn hpath hreached (ihBody (by omega)) (ih hle)

end Places

/-! ## One node -/

/-- The state of a walk after some trees were placed: the path is as before, and exactly their
indices are added. -/
structure Walk.Adds (w w' : Walk) (ts : List Slot) : Prop where
  path : w'.path = w.path
  reached : w'.reached = (Slot.indices ts).reverse ++ w.reached

theorem Walk.Adds.refl (w : Walk) : w.Adds w [] := ⟨rfl, by simp⟩

theorem Walk.Adds.note (w : Walk) (n : Notice) : w.Adds (w.note n) [] :=
  ⟨rfl, by simp [Walk.note]⟩

theorem Walk.Adds.trans {w w' w'' : Walk} {ts us : List Slot} (h : w.Adds w' ts)
    (h' : w'.Adds w'' us) : w.Adds w'' (ts ++ us) where
  path := h'.path.trans h.path
  reached := by simp [h'.reached, h.reached]

/-- Entering a node, filling its body and leaving it again adds its slot. -/
theorem Walk.Adds.leave {w w' : Walk} {i : Nat} {body : List Slot}
    (h : (w.enter i).Adds w' body) : w.Adds (w'.leave i) [⟨i, body⟩] where
  path := by simp [Walk.leave, h.path, Walk.enter]
  reached := by simp [Walk.leave, h.reached, Walk.enter]

namespace Graph

variable {g : Graph} {levels i : Nat} {n : Node} {w w' : Walk}

theorem placeWithin_zero (hn : g.nodes[i]? = some n) :
    g.placeWithin 0 i w = (.error (.cyclic n.id w.path.length), w) := by
  simp [placeWithin, hn]

theorem placeWithin_back (hn : g.nodes[i]? = some n) (hpath : i ∈ w.path) :
    g.placeWithin (levels + 1) i w = (.error (.cyclic n.id w.path.length), w) := by
  simp [placeWithin, hn, hpath]

theorem placeWithin_again (hn : g.nodes[i]? = some n) (hpath : i ∉ w.path)
    (hreached : i ∈ w.reached) :
    g.placeWithin (levels + 1) i w = (.ok none, w.note (.repeatedReference n.id)) := by
  simp [placeWithin, hn, hpath, hreached]

theorem placeWithin_fresh_ok (hn : g.nodes[i]? = some n) (hpath : i ∉ w.path)
    (hreached : i ∉ w.reached) {children : List Block}
    (h : placeChildren g (g.placeWithin levels) n.id n.children (w.enter i) = (.ok children, w')) :
    g.placeWithin (levels + 1) i w =
      (.ok (some ⟨some n.id, n.kind, n.data, children⟩), w'.leave i) := by
  simp [placeWithin, hn, hpath, hreached, h]

theorem placeWithin_fresh_error (hn : g.nodes[i]? = some n) (hpath : i ∉ w.path)
    (hreached : i ∉ w.reached) {e : CompileError}
    (h : placeChildren g (g.placeWithin levels) n.id n.children (w.enter i) = (.error e, w')) :
    g.placeWithin (levels + 1) i w = (.error e, w') := by
  simp [placeWithin, hn, hpath, hreached, h]

/-! ## Successful walks are placements -/

/-- The children of a node are placed one after the other, given that each single one is. -/
theorem placeChildren_places
    (hplace : ∀ {i w b w'}, i < g.nodes.length → g.placeWithin levels i w = (.ok b, w') →
      ∃ ts, Places g levels w.path w.reached [some i] ts b.toList ∧ w.Adds w' ts)
    {parent : String} {ids : List String} {bs : List Block}
    (h : placeChildren g (g.placeWithin levels) parent ids w = (.ok bs, w')) :
    ∃ ts, Places g levels w.path w.reached (ids.map g.index?) ts bs ∧ w.Adds w' ts := by
  induction ids generalizing w bs with
  | nil =>
      simp only [placeChildren, Prod.mk.injEq, Except.ok.injEq] at h
      obtain ⟨rfl, rfl⟩ := h
      exact ⟨[], .done, .refl w⟩
  | cons id ids ih =>
      simp only [placeChildren] at h
      cases hid : g.index? id with
      | none =>
          simp only [hid] at h
          obtain ⟨ts, hts, hadds⟩ := ih h
          rw [List.map_cons, hid]
          exact ⟨ts, .missing hts, (Walk.Adds.note w _).trans hadds⟩
      | some i =>
          simp only [hid] at h
          rcases hi : g.placeWithin levels i w with ⟨_ | b, w₁⟩
          · simp [hi] at h
          · simp only [hi] at h
            rcases hrest : placeChildren g (g.placeWithin levels) parent ids w₁ with ⟨_ | rest, w₂⟩
            · simp [hrest] at h
            · simp only [hrest, Prod.mk.injEq, Except.ok.injEq] at h
              obtain ⟨rfl, rfl⟩ := h
              obtain ⟨ts, hts, hadds⟩ := hplace (index?_eq_some.mp hid).lt_length hi
              obtain ⟨us, hus, hadds'⟩ := ih hrest
              rw [hadds.path, hadds.reached] at hus
              rw [List.map_cons, hid]
              exact ⟨ts ++ us, hts.append hus, hadds.trans hadds'⟩

theorem placeWithin_places {b : Option Block} (hi : i < g.nodes.length)
    (h : g.placeWithin levels i w = (.ok b, w')) :
    ∃ ts, Places g levels w.path w.reached [some i] ts b.toList ∧ w.Adds w' ts := by
  obtain ⟨n, hn⟩ : ∃ n, g.nodes[i]? = some n := ⟨_, List.getElem?_eq_getElem hi⟩
  induction levels generalizing i n w b w' with
  | zero => simp [placeWithin_zero hn] at h
  | succ levels ih =>
      by_cases hpath : i ∈ w.path
      · simp [placeWithin_back hn hpath] at h
      by_cases hreached : i ∈ w.reached
      -- nothing is placed, and the walk only tells about it
      · simp only [placeWithin_again hn hpath hreached, Prod.mk.injEq, Except.ok.injEq] at h
        obtain ⟨rfl, rfl⟩ := h
        exact ⟨[], .repeated hpath hreached .done, .note w _⟩
      rcases hc : placeChildren g (g.placeWithin levels) n.id n.children (w.enter i)
        with ⟨_ | children, w₁⟩
      · simp [placeWithin_fresh_error hn hpath hreached hc] at h
      · simp only [placeWithin_fresh_ok hn hpath hreached hc, Prod.mk.injEq, Except.ok.injEq] at h
        obtain ⟨rfl, rfl⟩ := h
        have hplace : ∀ {i w b w'}, i < g.nodes.length → g.placeWithin levels i w = (.ok b, w') →
            ∃ ts, Places g levels w.path w.reached [some i] ts b.toList ∧ w.Adds w' ts :=
          fun hlt h => ih hlt h _ (List.getElem?_eq_getElem hlt)
        obtain ⟨body, hbody, hadds⟩ := placeChildren_places hplace hc
        rw [← childRefs_of_node hn] at hbody
        exact ⟨[⟨i, body⟩], .placed hn hpath hreached hbody .done, hadds.leave⟩

/-! ## Placements are successful walks -/

theorem placeChildren_of_places
    (hplace : ∀ {i w ts bs}, Places g levels w.path w.reached [some i] ts bs →
      ∃ b w', g.placeWithin levels i w = (.ok b, w') ∧ b.toList = bs ∧ w.Adds w' ts)
    {parent : String} {ids : List String} {ts : List Slot} {bs : List Block}
    (h : Places g levels w.path w.reached (ids.map g.index?) ts bs) :
    ∃ w', placeChildren g (g.placeWithin levels) parent ids w = (.ok bs, w') ∧ w.Adds w' ts := by
  induction ids generalizing w ts bs with
  | nil =>
      cases h
      exact ⟨w, rfl, .refl w⟩
  | cons id ids ih =>
      simp only [placeChildren]
      rw [List.map_cons] at h
      cases hid : g.index? id with
      | none =>
          rw [hid] at h
          cases h with
          | missing h =>
              obtain ⟨w', hw', hadds⟩ := @ih (w.note (.missingChild parent id)) _ _ h
              exact ⟨w', hw', (Walk.Adds.note w _).trans hadds⟩
      | some i =>
          rw [hid] at h
          obtain ⟨ts₁, bs₁, ts₂, bs₂, rfl, rfl, h₁, h₂⟩ := h.uncons
          obtain ⟨b, w₁, hb, rfl, hadds⟩ := hplace h₁
          rw [← hadds.path, ← hadds.reached] at h₂
          obtain ⟨w₂, hw₂, hadds'⟩ := ih h₂
          exact ⟨w₂, by simp [hb, hw₂], hadds.trans hadds'⟩

theorem placeWithin_of_places {ts : List Slot} {bs : List Block}
    (h : Places g levels w.path w.reached [some i] ts bs) :
    ∃ b w', g.placeWithin levels i w = (.ok b, w') ∧ b.toList = bs ∧ w.Adds w' ts := by
  induction levels generalizing i w ts bs with
  | zero => cases h
  | succ levels ih =>
      cases h with
      | repeated hpath hreached h =>
          cases h
          cases hn : g.nodes[i]? with
          | none => exact ⟨none, w, by simp [placeWithin, hn], rfl, .refl w⟩
          | some n => exact ⟨none, _, placeWithin_again hn hpath hreached, rfl, .note w _⟩
      | placed hn hpath hreached hbody h =>
          cases h
          rw [childRefs_of_node hn] at hbody
          obtain ⟨w₁, hw₁, hadds⟩ := placeChildren_of_places (w := w.enter i) ih hbody
          exact ⟨_, _, placeWithin_fresh_ok hn hpath hreached hw₁, rfl, hadds.leave⟩

/-! ## Whole graphs -/

/-- Roots and left over nodes are walked from an empty path. -/
theorem place_of_nil {limit : Nat} (hw : w.path = []) :
    g.place limit i w = g.placeWithin (limit + 1) i w := by
  simp [place, hw]

theorem placeAll_places {limit : Nat} {is : List Nat} {bs : List Block} (hw : w.path = [])
    (his : ∀ i ∈ is, i < g.nodes.length) (h : g.placeAll limit is w = (.ok bs, w')) :
    ∃ ts, Places g (limit + 1) [] w.reached (is.map some) ts bs ∧ w.Adds w' ts := by
  induction is generalizing w bs with
  | nil =>
      simp only [placeAll, Prod.mk.injEq, Except.ok.injEq] at h
      obtain ⟨rfl, rfl⟩ := h
      exact ⟨[], .done, .refl w⟩
  | cons i is ih =>
      simp only [placeAll, place_of_nil hw] at h
      rcases hi : g.placeWithin (limit + 1) i w with ⟨_ | b, w₁⟩
      · simp [hi] at h
      · simp only [hi] at h
        rcases hrest : g.placeAll limit is w₁ with ⟨_ | rest, w₂⟩
        · simp [hrest] at h
        · simp only [hrest, Prod.mk.injEq, Except.ok.injEq] at h
          obtain ⟨rfl, rfl⟩ := h
          obtain ⟨ts, hts, hadds⟩ := placeWithin_places (his i List.mem_cons_self) hi
          obtain ⟨us, hus, hadds'⟩ := ih (hadds.path.trans hw)
            (fun j hj => his j (List.mem_cons_of_mem _ hj)) hrest
          rw [hw] at hts
          rw [hadds.reached] at hus
          exact ⟨ts ++ us, hts.append hus, hadds.trans hadds'⟩

theorem placeAll_of_places {limit : Nat} {is : List Nat} {ts : List Slot} {bs : List Block}
    (hw : w.path = []) (h : Places g (limit + 1) [] w.reached (is.map some) ts bs) :
    ∃ w', g.placeAll limit is w = (.ok bs, w') ∧ w.Adds w' ts := by
  induction is generalizing w ts bs with
  | nil =>
      cases h
      exact ⟨w, rfl, .refl w⟩
  | cons i is ih =>
      simp only [placeAll, place_of_nil hw]
      obtain ⟨ts₁, bs₁, ts₂, bs₂, rfl, rfl, h₁, h₂⟩ := h.uncons
      rw [← hw] at h₁
      obtain ⟨b, w₁, hb, rfl, hadds⟩ := placeWithin_of_places h₁
      rw [← hadds.reached] at h₂
      obtain ⟨w₂, hw₂, hadds'⟩ := ih (hadds.path.trans hw) h₂
      exact ⟨w₂, by simp [hb, hw₂], hadds.trans hadds'⟩

/-- The nodes left over are walked like roots; those that were reached are passed over as
repeated. -/
theorem checkRest_places {limit : Nat} {is : List Nat} {u : Unit} (hw : w.path = [])
    (his : ∀ i ∈ is, i < g.nodes.length) (h : g.checkRest limit is w = (.ok u, w')) :
    ∃ ts bs, Places g (limit + 1) [] w.reached (is.map some) ts bs := by
  induction is generalizing w with
  | nil => exact ⟨[], [], .done⟩
  | cons i is ih =>
      have hrest : ∀ j ∈ is, j < g.nodes.length := fun j hj => his j (List.mem_cons_of_mem _ hj)
      simp only [checkRest, place_of_nil hw, List.contains_iff_mem] at h
      by_cases hreached : i ∈ w.reached
      · rw [if_pos hreached] at h
        obtain ⟨ts, bs, hts⟩ := ih hw hrest h
        exact ⟨ts, bs, .repeated List.not_mem_nil hreached hts⟩
      · rw [if_neg hreached] at h
        rcases hi : g.placeWithin (limit + 1) i w with ⟨_ | b, w₁⟩
        · simp [hi] at h
        · simp only [hi] at h
          obtain ⟨ts, hts, hadds⟩ := placeWithin_places (his i List.mem_cons_self) hi
          obtain ⟨us, cs, hus⟩ := ih (hadds.path.trans hw) hrest h
          rw [hw] at hts
          rw [hadds.reached] at hus
          exact ⟨ts ++ us, b.toList ++ cs, hts.append hus⟩

theorem checkRest_of_places {limit : Nat} {is : List Nat} {ts : List Slot} {bs : List Block}
    (hw : w.path = []) (h : Places g (limit + 1) [] w.reached (is.map some) ts bs) :
    ∃ u w', g.checkRest limit is w = (.ok u, w') := by
  induction is generalizing w ts bs with
  | nil => exact ⟨(), w, rfl⟩
  | cons i is ih =>
      simp only [checkRest, place_of_nil hw, List.contains_iff_mem]
      obtain ⟨ts₁, bs₁, ts₂, bs₂, rfl, rfl, h₁, h₂⟩ := h.uncons
      by_cases hreached : i ∈ w.reached
      · rw [if_pos hreached]
        cases h₁ with
        | repeated _ _ h =>
            cases h
            exact ih hw (by simpa using h₂)
        | placed _ _ hfresh _ _ => exact absurd hreached hfresh
      · rw [if_neg hreached]
        rw [← hw] at h₁
        obtain ⟨b, w₁, hb, rfl, hadds⟩ := placeWithin_of_places h₁
        rw [← hadds.reached] at h₂
        obtain ⟨u, w₂, hw₂⟩ := ih (hadds.path.trans hw) h₂
        exact ⟨u, w₂, by simp [hb, hw₂]⟩

/-- All that a successful resolution does: the roots are placed, and if they were inferred then the
other nodes can be placed after them. -/
structure Resolved (g : Graph) (limit : Nat) (ts : List Slot) (bs : List Block) : Prop where
  roots : Places g (limit + 1) [] [] g.rootRefs ts bs
  rest : g.roots = [] → ∃ us cs, Places g (limit + 1) [] (Slot.indices ts).reverse
    ((List.range g.nodes.length).map some) us cs

theorem rootIndices_map_some (g : Graph) :
    g.rootIndices.map some = (g.rootRefs.filterMap id).map some := by
  unfold rootIndices rootRefs
  cases g.roots.isEmpty with
  | true => simp [List.filterMap_map]
  | false => simp [List.filterMap_map]

/-- A graph is resolved exactly if its roots, and the nodes left over, can be placed. -/
theorem resolve_eq_ok {limit : Nat} {bs : List Block} :
    g.resolve limit = .ok bs ↔ ∃ ts, g.Resolved limit ts bs := by
  simp only [resolve, resolveNoting, resolveStep]
  constructor
  · intro h
    rcases hroots : g.placeAll limit g.rootIndices { notices := g.missingRoots } with ⟨_ | cs, w₁⟩
    · simp [hroots] at h
    obtain ⟨ts, hts, hadds⟩ :=
      placeAll_places rfl (fun i hi => (mem_rootIndices.mp hi).lt_length) hroots
    rw [rootIndices_map_some, Places.filterMap_iff] at hts
    have hreached : w₁.reached = (Slot.indices ts).reverse := by simpa using hadds.reached
    simp only [hroots] at h
    cases hempty : g.roots.isEmpty with
    | false =>
        simp only [hempty] at h
        cases h
        exact ⟨ts, hts, fun he => by simp [he] at hempty⟩
    | true =>
        simp only [hempty] at h
        rcases hrest : g.checkRest limit (List.range g.nodes.length) w₁ with ⟨_ | u, w₂⟩
        · simp [hrest] at h
        · simp only [hrest] at h
          cases h
          obtain ⟨us, ds, hus⟩ :=
            checkRest_places hadds.path (fun i hi => List.mem_range.mp hi) hrest
          exact ⟨ts, hts, fun _ => ⟨us, ds, hreached ▸ hus⟩⟩
  · rintro ⟨ts, hts, hrest⟩
    rw [← Places.filterMap_iff, ← rootIndices_map_some] at hts
    obtain ⟨w₁, hw₁, hadds⟩ :=
      placeAll_of_places (w := { notices := g.missingRoots }) rfl hts
    have hreached : w₁.reached = (Slot.indices ts).reverse := by simpa using hadds.reached
    simp only [hw₁]
    cases hempty : g.roots.isEmpty with
    | false => rfl
    | true =>
        obtain ⟨us, cs, hus⟩ := hrest (List.isEmpty_iff.mp hempty)
        rw [← hreached] at hus
        obtain ⟨u, w₂, hw₂⟩ := checkRest_of_places hadds.path hus
        simp [hw₂]

/-- A greater limit does not change the result. -/
theorem resolve_mono {limit limit' : Nat} {bs : List Block} (h : g.resolve limit = .ok bs)
    (hle : limit ≤ limit') : g.resolve limit' = .ok bs := by
  obtain ⟨ts, hroots, hrest⟩ := resolve_eq_ok.mp h
  refine resolve_eq_ok.mpr ⟨ts, hroots.mono (Nat.succ_le_succ hle), fun hempty => ?_⟩
  obtain ⟨us, cs, hus⟩ := hrest hempty
  exact ⟨us, cs, hus.mono (Nat.succ_le_succ hle)⟩

end Graph

end BlockBot
