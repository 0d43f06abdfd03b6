import BlockBot.Proofs.Routing

/-!
# Routing is segmentation

Routing deals out the root blocks one by one, and what it does with a block depends on a flag. Seen
from outside there is no flag: the list is cut just before every event block, and each segment whose
event has a known trigger is a handler with the replies, settings and control blocks of that
segment. The same is said of single positions: `owner?` tells which handler, if any, takes the block
at a position.
-/

namespace BlockBot

open BlockBot.Json

/-! ## Segments -/

/-- An event block and the blocks after it, up to the next event block. -/
structure Segment where
  event : Block
  others : List Block

namespace Segment

def blocks (g : Segment) : List Block :=
  g.event :: g.others

end Segment

/-- Root blocks cut just before every event block: what stands before the first one, and the
segments. -/
def cut : List Block → List Block × List Segment
  | [] => ([], [])
  | b :: bs =>
    if b.kind = .event then ([], ⟨b, (cut bs).1⟩ :: (cut bs).2) else (b :: (cut bs).1, (cut bs).2)

/-- The pieces of a cut: nothing is lost, and events stand at the head of segments only. -/
structure IsCut (bs lead : List Block) (segments : List Segment) : Prop where
  joined : lead ++ segments.flatMap Segment.blocks = bs
  lead : ∀ b ∈ lead, b.kind ≠ .event
  heads : ∀ g ∈ segments, g.event.kind = .event
  others : ∀ g ∈ segments, ∀ b ∈ g.others, b.kind ≠ .event

theorem cut_of_event {b : Block} (h : b.kind = .event) (bs : List Block) :
    cut (b :: bs) = ([], ⟨b, (cut bs).1⟩ :: (cut bs).2) := by
  rw [cut, if_pos h]

theorem cut_of_other {b : Block} (h : b.kind ≠ .event) (bs : List Block) :
    cut (b :: bs) = (b :: (cut bs).1, (cut bs).2) := by
  rw [cut, if_neg h]

theorem isCut_cut (bs : List Block) : IsCut bs (cut bs).1 (cut bs).2 := by
  induction bs with
  | nil => exact ⟨rfl, by simp [cut], by simp [cut], by simp [cut]⟩
  | cons b bs ih =>
      by_cases hb : b.kind = .event
      · rw [cut_of_event hb]
        refine ⟨?_, by simp, ?_, ?_⟩
        · rw [List.flatMap_cons, List.nil_append, Segment.blocks, List.cons_append, ih.joined]
        · exact List.forall_mem_cons.mpr ⟨hb, ih.heads⟩
        · exact List.forall_mem_cons.mpr ⟨ih.lead, ih.others⟩
      · rw [cut_of_other hb]
        refine ⟨?_, ?_, ih.heads, ih.others⟩
        · rw [List.cons_append, ih.joined]
        · exact List.forall_mem_cons.mpr ⟨hb, ih.lead⟩

/-! ## Segments and handlers -/

/-- The handler of a segment whose event has a trigger. -/
def Segment.handler (g : Segment) (trigger : Trigger) (index : Nat) : Handler :=
  ⟨index, trigger, Handler.guardFor trigger g.event.data, g.others.filter Block.isAction⟩

/-- The segments whose event has a known trigger, with the trigger. -/
def recognised (options : Options) (segments : List Segment) : List (Segment × Trigger) :=
  segments.filterMap fun g => (rootTrigger? options g.event).map fun trigger => (g, trigger)

/-- The handlers of segments, numbered from `start + 1` on. -/
def handlersFrom (options : Options) (start : Nat) (segments : List Segment) : List Handler :=
  (recognised options segments).mapIdx fun i p => p.1.handler p.2 (start + i + 1)

theorem handlersFrom_cons_some {options : Options} {g : Segment} {trigger : Trigger}
    (h : rootTrigger? options g.event = some trigger) (start : Nat) (segments : List Segment) :
    handlersFrom options start (g :: segments) =
      g.handler trigger (start + 1) :: handlersFrom options (start + 1) segments := by
  unfold handlersFrom recognised
  rw [List.filterMap_cons_some (by rw [h]; rfl), List.mapIdx_cons]
  refine congrArg (_ :: ·) (congrArg (List.mapIdx · _) ?_)
  funext i p
  rw [show start + (i + 1) + 1 = start + 1 + i + 1 by omega]

theorem handlersFrom_cons_none {options : Options} {g : Segment}
    (h : rootTrigger? options g.event = none) (start : Nat) (segments : List Segment) :
    handlersFrom options start (g :: segments) = handlersFrom options start segments := by
  unfold handlersFrom recognised
  rw [List.filterMap_cons_none (by rw [h]; rfl)]

namespace Routing

/-- The handlers after more actions, which go to the last one if it is open. -/
def handlersWith (r : Routing) (actions : List Block) : List Handler :=
  match r.handlers, r.isOpen with
  | h :: hs, true => { h with actions := h.actions ++ actions } :: hs
  | hs, _ => hs

theorem handlersWith_nil (r : Routing) : r.handlersWith [] = r.handlers := by
  unfold handlersWith
  rcases r with ⟨_ | ⟨h, hs⟩, _ | _, s⟩ <;> simp

theorem handlersWith_closed {r : Routing} (h : r.isOpen = false) (actions : List Block) :
    r.handlersWith actions = r.handlers := by
  unfold handlersWith
  rw [h]
  cases r.handlers <;> rfl

theorem handlersWith_addAction (r : Routing) (b : Block) (actions : List Block) :
    (r.addAction b).handlersWith actions = r.handlersWith (b :: actions) := by
  rcases r with ⟨_ | ⟨h, hs⟩, _ | _, s⟩
  · rfl
  · rfl
  · rfl
  · simp [addAction, handlersWith, Handler.addAction]

theorem length_addAction (r : Routing) (b : Block) :
    (r.addAction b).handlers.length = r.handlers.length := by
  rcases r with ⟨_ | ⟨h, hs⟩, _ | _, s⟩ <;> rfl

/-- What stands before the next event goes to the handler that is open, and the segments after it
become handlers. -/
theorem handlers_foldl_add (bs : List Block) (r : Routing) :
    (bs.foldl Routing.add r).handlers.reverse =
      (r.handlersWith ((cut bs).1.filter Block.isAction)).reverse ++
        handlersFrom r.session.options r.handlers.length (cut bs).2 := by
  induction bs generalizing r with
  | nil =>
      rw [List.foldl_nil, cut, List.filter_nil, handlersWith_nil]
      exact (List.append_nil _).symm
  | cons b bs ih =>
      have hoptions := (r.add_sameLevel b).options
      rw [List.foldl_cons, ih, hoptions]
      by_cases hevent : b.kind = .event
      · rw [cut_of_event hevent, List.filter_nil, handlersWith_nil]
        cases htrigger : rootTrigger? r.session.options b with
        | some trigger =>
            -- the segment becomes the handler that is open from here on
            rw [add_of_trigger htrigger, handlersFrom_cons_some htrigger]
            simp [openHandler, handlersWith, Handler.guardOf_eq trigger b.data r.session "",
              Segment.handler]
        | none =>
            rw [add_of_event hevent htrigger, handlersFrom_cons_none htrigger,
              handlersWith_closed rfl]
      · rw [cut_of_other hevent]
        cases haction : b.isAction with
        | true =>
            rw [List.filter_cons_of_pos haction, add_of_isAction haction, handlersWith_addAction,
              length_addAction]
        | false =>
            obtain ⟨notice, hadd⟩ := add_of_other (r := r) hevent haction
            rw [List.filter_cons_of_neg (by simp [haction]), hadd]
            rfl

end Routing

theorem route_eq_handlersFrom (bs : List Block) (s : Session) :
    (route bs s).1 = handlersFrom s.options 0 (cut bs).2 :=
  Routing.handlers_foldl_add bs { session := s }

theorem route_eq_mapIdx (bs : List Block) (s : Session) :
    (route bs s).1 =
      (recognised s.options (cut bs).2).mapIdx fun i p => p.1.handler p.2 (i + 1) := by
  rw [route_eq_handlersFrom, handlersFrom]
  simp only [Nat.zero_add]

/-- Each handler stands for a segment, in the order of the segments. -/
theorem route_forall₂ (bs : List Block) (s : Session) :
    List.Forall₂ (fun p h => ∃ index, h = p.1.handler p.2 index)
      (recognised s.options (cut bs).2) (route bs s).1 := by
  rw [route_eq_mapIdx, List.forall₂_iff_get]
  refine ⟨List.length_mapIdx.symm, fun i hi hi' => ⟨i + 1, ?_⟩⟩
  simp

/-! ## Positions -/

/-- The number of the handler that is open after root blocks. There is one if the last event block
among them has a known trigger, and handlers are counted by such blocks. -/
def openAfter? (options : Options) (before : List Block) : Option Nat :=
  match (before.filter fun b => b.kind == .event).getLast? with
  | some event =>
    if (rootTrigger? options event).isSome then some (rootTriggers options before).length else none
  | none => none

/-- The number of the handler that takes the block at a position. -/
def owner? (options : Options) (bs : List Block) (position : Nat) : Option Nat :=
  bs[position]?.bind fun b => if b.isAction then openAfter? options (bs.take position) else none

/-- The blocks that a handler takes, in their order. -/
def takenBy (options : Options) (bs : List Block) (index : Nat) : List Block :=
  ((List.range bs.length).filter fun k => owner? options bs k == some index).filterMap (bs[·]?)

/-- The positions before a block keep their owners, and the block goes to the handler that is
open. -/
theorem takenBy_concat (options : Options) (bs : List Block) (b : Block) (index : Nat) :
    takenBy options (bs ++ [b]) index =
      takenBy options bs index ++
        if b.isAction = true ∧ openAfter? options bs = some index then [b] else [] := by
  have hearlier : ∀ k ∈ List.range bs.length, (bs ++ [b])[k]? = bs[k]? := by
    intro k hk
    exact List.getElem?_append_left (List.mem_range.mp hk)
  have howner : ∀ k ∈ List.range bs.length,
      (owner? options (bs ++ [b]) k == some index) = (owner? options bs k == some index) := by
    intro k hk
    unfold owner?
    rw [hearlier k hk, List.take_append_of_le_length (Nat.le_of_lt (List.mem_range.mp hk))]
  have hlast : owner? options (bs ++ [b]) bs.length = if b.isAction then openAfter? options bs
      else none := by
    unfold owner?
    rw [List.getElem?_concat_length, List.take_left]
    rfl
  unfold takenBy
  rw [List.length_append, List.length_singleton, List.range_succ, List.filter_append,
    List.filterMap_append, List.filter_congr howner]
  congr 1
  · refine List.filterMap_congr fun k hk => hearlier k (List.mem_of_mem_filter hk)
  · by_cases hmine : b.isAction = true ∧ openAfter? options bs = some index
    · rw [if_pos hmine, List.filter_cons_of_pos (by simp [hlast, hmine]), List.filter_nil]
      simp
    · have hother : (owner? options (bs ++ [b]) bs.length == some index) ≠ true := by
        rw [hlast, Ne, beq_iff_eq]
        split_ifs with haction
        · exact fun hopen => hmine ⟨haction, hopen⟩
        · exact nofun
      rw [if_neg hmine,
        List.filter_cons_of_neg (p := fun k => owner? options (bs ++ [b]) k == some index) hother,
        List.filter_nil, List.filterMap_nil]

theorem rootTriggers_concat (options : Options) (bs : List Block) (b : Block) :
    rootTriggers options (bs ++ [b]) = rootTriggers options bs ++
      (rootTrigger? options b).toList := by
  unfold rootTriggers
  rw [List.filterMap_append]
  cases h : rootTrigger? options b with
  | none => rw [List.filterMap_cons_none h]; rfl
  | some trigger => rw [List.filterMap_cons_some h]; rfl

theorem openAfter?_concat_event {b : Block} (h : b.kind = .event) (options : Options)
    (bs : List Block) :
    openAfter? options (bs ++ [b]) =
      if (rootTrigger? options b).isSome then some ((rootTriggers options bs).length + 1)
      else none := by
  unfold openAfter?
  rw [List.filter_append, List.filter_cons_of_pos (by simpa using h), List.filter_nil,
    List.getLast?_concat]
  cases hb : rootTrigger? options b with
  | none => simp [hb]
  | some trigger => simp [rootTriggers_concat, hb]

theorem openAfter?_concat_other {b : Block} (h : b.kind ≠ .event) (options : Options)
    (bs : List Block) : openAfter? options (bs ++ [b]) = openAfter? options bs := by
  unfold openAfter?
  rw [List.filter_append, List.filter_cons_of_neg (by simpa using h), List.filter_nil,
    List.append_nil, rootTriggers_concat, rootTrigger?_of_other h, Option.toList_none,
    List.append_nil]

/-- No handler takes anything before it is opened. -/
theorem takenBy_of_lt {options : Options} {bs : List Block} {index : Nat}
    (h : (rootTriggers options bs).length < index) : takenBy options bs index = [] := by
  have hnone : (List.range bs.length).filter (fun k => owner? options bs k == some index) = [] := by
    rw [List.filter_eq_nil_iff]
    intro k _ howner
    obtain ⟨b, -, hb⟩ := Option.bind_eq_some_iff.mp (beq_iff_eq.mp howner)
    have hopen : openAfter? options (bs.take k) = some index := by
      split_ifs at hb
      exact hb
    have hcount : (rootTriggers options (bs.take k)).length = index := by
      unfold openAfter? at hopen
      split at hopen
      · split_ifs at hopen
        exact Option.some.inj hopen
      · exact absurd hopen nofun
    have hle : (rootTriggers options (bs.take k)).length ≤ (rootTriggers options bs).length :=
      ((List.take_sublist k bs).filterMap _).length_le
    omega
  unfold takenBy
  rw [hnone, List.filterMap_nil]

namespace Routing

/-- The open handler is the last one, and earlier ones have lower numbers. -/
theorem Accounts.index {options : Options} {done : List Block} {h : Handler} {hs : List Handler}
    {isOpen : Bool} {s : Session} (hr : Accounts options done ⟨h :: hs, isOpen, s⟩) :
    h.index = hs.length + 1 ∧ ∀ h' ∈ hs, h'.index ≤ hs.length := by
  have hindices := hr.indices
  simp only [List.reverse_cons, List.map_append, List.map_cons, List.map_nil, List.length_cons,
    List.range'_concat] at hindices
  obtain ⟨hothers, hlast⟩ := List.append_inj' hindices rfl
  refine ⟨by simpa [Nat.add_comm] using hlast, fun h' hh' => ?_⟩
  have hmem : h'.index ∈ List.range' 1 hs.length :=
    hothers ▸ List.mem_map_of_mem (List.mem_reverse.mpr hh')
  have := List.mem_range'_1.mp hmem
  omega

/-- What routing has dealt out so far, position by position. -/
structure Deals (options : Options) (done : List Block) (r : Routing) : Prop where
  accounts : r.Accounts options done
  isOpen : openAfter? options done = if r.isOpen then some r.handlers.length else none
  actions : ∀ h ∈ r.handlers, h.actions = takenBy options done h.index

namespace Deals

variable {options : Options} {done : List Block} {r : Routing} {b : Block}

theorem count (h : r.Deals options done) :
    r.handlers.length = (rootTriggers options done).length := by
  rw [← h.accounts.triggers, List.length_map, List.length_reverse]

/-- A block that is no action goes to no handler. -/
theorem taken_of_other (h : r.Deals options done) (hb : b.isAction = false) :
    ∀ handler ∈ r.handlers, handler.actions = takenBy options (done ++ [b]) handler.index := by
  intro handler hhandler
  rw [h.actions handler hhandler, takenBy_concat, if_neg (by simp [hb]), List.append_nil]

theorem addAction (h : r.Deals options done) (hb : b.isAction = true) :
    (r.addAction b).Deals options (done ++ [b]) := by
  have hother : b.kind ≠ .event := Block.kind_ne_event_of_isAction hb
  have haccounts := h.accounts.addAction (b := b) (rootTrigger?_of_other hother)
  have hopen := openAfter?_concat_other hother options done
  obtain ⟨handlers, isOpen, session⟩ := r
  have hnumber := h.isOpen
  cases isOpen with
  | false =>
      -- nobody takes the block
      have hsame :
          ∀ handler ∈ handlers, handler.actions = takenBy options (done ++ [b]) handler.index := by
        intro handler hhandler
        rw [h.actions handler hhandler, takenBy_concat, if_neg (by simp [hnumber]), List.append_nil]
      cases handlers with
      | nil => exact ⟨haccounts, hopen.trans hnumber, hsame⟩
      | cons last handlers => exact ⟨haccounts, hopen.trans hnumber, hsame⟩
  | true =>
      cases handlers with
      | nil => exact ⟨haccounts, hopen.trans hnumber, by simp [Routing.addAction]⟩
      | cons last handlers =>
          obtain ⟨hlast, hearlier⟩ := h.accounts.index
          refine ⟨haccounts, hopen.trans hnumber,
            List.forall_mem_cons.mpr ⟨?_, fun handler hhandler => ?_⟩⟩
          · have hmine : openAfter? options done = some last.index := by
              rw [hnumber, hlast]
              rfl
            show last.actions ++ [b] = takenBy options (done ++ [b]) last.index
            rw [takenBy_concat, if_pos ⟨hb, hmine⟩, h.actions last List.mem_cons_self]
          · have hle := hearlier handler hhandler
            have hothers : openAfter? options done ≠ some handler.index := by
              intro heq
              rw [hnumber] at heq
              have : handlers.length + 1 = handler.index := Option.some.inj heq
              omega
            rw [h.actions handler (List.mem_cons_of_mem _ hhandler), takenBy_concat,
              if_neg fun hmine => hothers hmine.2, List.append_nil]

theorem add (h : r.Deals options done) (b : Block) : (r.add b).Deals options (done ++ [b]) := by
  have haccounts := h.accounts.add (b := b)
  by_cases hevent : b.kind = .event
  · have hother : b.isAction = false := by simp [Block.isAction, hevent]
    have hopen := openAfter?_concat_event hevent options done
    cases htrigger : rootTrigger? options b with
    | some trigger =>
        rw [add_of_trigger (h.accounts.sameOptions ▸ htrigger)] at haccounts ⊢
        refine ⟨haccounts, ?_, List.forall_mem_cons.mpr ⟨?_, h.taken_of_other hother⟩⟩
        · simp [hopen, htrigger, Routing.openHandler, h.count]
        · -- the new handler has taken nothing yet
          show [] = takenBy options (done ++ [b]) (r.handlers.length + 1)
          rw [takenBy_concat, if_neg (by simp [hother]), takenBy_of_lt (by rw [h.count]; omega)]
          rfl
    | none =>
        rw [add_of_event hevent (h.accounts.sameOptions ▸ htrigger)] at haccounts ⊢
        refine ⟨haccounts, ?_, h.taken_of_other hother⟩
        simp [hopen, htrigger]
  · cases haction : b.isAction with
    | true =>
        rw [add_of_isAction haction]
        exact h.addAction haction
    | false =>
        obtain ⟨notice, hadd⟩ := add_of_other (r := r) hevent haction
        rw [hadd] at haccounts ⊢
        exact ⟨haccounts, (openAfter?_concat_other hevent options done).trans h.isOpen,
          h.taken_of_other haction⟩

theorem foldl (h : r.Deals options done) (bs : List Block) :
    (bs.foldl Routing.add r).Deals options (done ++ bs) := by
  induction bs generalizing r done with
  | nil => simpa using h
  | cons b bs ih => simpa using ih (h.add b)

end Deals

end Routing

theorem route_takenBy (bs : List Block) (s : Session) :
    ∀ h ∈ (route bs s).1, h.actions = takenBy s.options bs h.index := by
  have hstart : Routing.Deals s.options [] { session := s } :=
    ⟨⟨rfl, rfl, rfl, by simp⟩, rfl, by simp⟩
  have hend := hstart.foldl bs
  intro h hh
  exact hend.actions h (List.mem_reverse.mp hh)

/-! ## Routing -/

theorem route_functionName_nodup (bs : List Block) (s : Session) :
    ((route bs s).1.map Handler.functionName).Nodup := by
  have hnames : (route bs s).1.map Handler.functionName =
      (rootTriggers s.options bs).mapIdx fun i t => handlerName t (i + 1) :=
        route_map bs s handlerName
  rw [hnames]
  exact nodup_handlerName _

/-- The handlers of root blocks, as segments and as positions. -/
structure Segmented (options : Options) (bs : List Block) (handlers : List Handler) : Prop where
  /-- The handlers are the segments whose event has a known trigger, in their order and numbered
  from one. -/
  segments : handlers = (recognised options (cut bs).2).mapIdx fun i p => p.1.handler p.2 (i + 1)
  /-- Each handler has the blocks at the positions that it owns. No position has two owners, and one
  before the first event or after an event without a known trigger has none. -/
  positions : ∀ h ∈ handlers, h.actions = takenBy options bs h.index
  names : (handlers.map Handler.functionName).Nodup

/-- Routing cuts the root blocks just before every event block and makes a handler of each segment
whose event has a known trigger, directly or by an alias. -/
theorem route_segmented (bs : List Block) (s : Session) :
    IsCut bs (cut bs).1 (cut bs).2 ∧ Segmented s.options bs (route bs s).1 :=
  ⟨isCut_cut bs, route_eq_mapIdx bs s, route_takenBy bs s, route_functionName_nodup bs s⟩

end BlockBot
