import BlockBot.Proofs.Steps
import Mathlib.Data.List.Nodup

/-!
# Where handlers come from

Routing deals out the root blocks one by one. What it keeps all the way: there is one handler for
each event block with a known trigger so far, in the order of these blocks, numbered from one, and
its guard is the one that its event block asks for. An event block has a trigger if its event type
is the tag of one, or an alias for it (`Block.Resolves`).
-/

namespace BlockBot

open BlockBot.Json

/-! ## Guards -/

namespace Handler

/-- The guard that an event block asks for, in whatever session. -/
def guardFor (trigger : Trigger) (data : Fields) : Option String :=
  (guardOf trigger data (.new {})).1

/-- What a guard needs. -/
def guardEffect (trigger : Trigger) (data : Fields) : Effect :=
  if trigger = .messageText then
    (pattern? data).elim .keep fun p => if p.2.1 = .regex then .register .regex else .keep
  else .keep

theorem guardOf_eq (trigger : Trigger) (data : Fields) (s : Session) (label : String) :
    guardOf trigger data s = (guardFor trigger data, s.after label (guardEffect trigger data)) := by
  unfold guardFor guardEffect guardOf
  cases trigger with
  | messageText =>
      cases pattern? data with
      | none => rfl
      | some p =>
          obtain ⟨pattern, mode, caseSensitive⟩ := p
          cases mode <;> rfl
  | _ => rfl

theorem guardEffect_ne_record (trigger : Trigger) (data : Fields) (name : String) (value : Value) :
    guardEffect trigger data ≠ .record name value := by
  unfold guardEffect
  split
  · cases pattern? data with
    | none => exact nofun
    | some p =>
        simp only [Option.elim_some]
        split <;> exact nofun
  · exact nofun

/-- A trigger with a condition: a pattern for texts, or a payload for postbacks. -/
def AsksGuard (trigger : Trigger) (data : Fields) : Prop :=
  (trigger = .messageText ∧ ∃ pattern, data.HoldsText "pattern" pattern) ∨
    (trigger = .postback ∧
      ∃ payload, data.HoldsText "postbackData" payload ∨ data.HoldsText "data" payload)

theorem guardFor_isSome {trigger : Trigger} {data : Fields} :
    (guardFor trigger data).isSome = true ↔ AsksGuard trigger data := by
  unfold guardFor guardOf AsksGuard
  cases trigger with
  | messageText =>
      unfold pattern?
      cases hpattern : data.text? "pattern" with
      | none => simp [Fields.text?_eq_none.mp hpattern]
      | some pattern =>
          have hheld := Fields.text?_eq_some.mp hpattern
          exact iff_of_true rfl (.inl ⟨rfl, pattern, hheld⟩)
  | postback =>
      unfold payload?
      simp only [reduceCtorEq, false_and, true_and, false_or, exists_or, ← Fields.text?_eq_some,
        Option.isSome_map, Option.isSome_or, Bool.or_eq_true, Option.isSome_iff_exists]
  | _ => simp

end Handler

/-! ## Sessions -/

namespace Routing

/-- What dealing out a root block does to the session: no value is remembered. -/
theorem add_session (r : Routing) (b : Block) :
    ∃ e, (∀ name value, e ≠ .record name value) ∧
      (r.add b).session = r.session.after b.label e := by
  unfold add
  cases b.kind with
  | event =>
      cases triggerOf? r.session.options b with
      | none => exact ⟨.note .unknownTrigger, nofun, rfl⟩
      | some trigger =>
          exact ⟨Handler.guardEffect trigger b.data, Handler.guardEffect_ne_record trigger b.data,
            congrArg Prod.snd (Handler.guardOf_eq trigger b.data r.session b.label)⟩
  | unknown name => exact ⟨.note (.unknownRootKind · name), nofun, rfl⟩
  | reply | control | setting =>
      obtain ⟨handlers, isOpen, session⟩ := r
      cases handlers with
      | nil => exact ⟨.note .outsideHandler, nofun, rfl⟩
      | cons last handlers =>
          cases isOpen with
          | true => exact ⟨.keep, nofun, rfl⟩
          | false => exact ⟨.note .outsideHandler, nofun, rfl⟩

theorem add_sameLevel (r : Routing) (b : Block) : r.session.SameLevel (r.add b).session := by
  obtain ⟨e, -, h⟩ := r.add_session b
  rw [h]
  exact .after r.session b.label e

end Routing

theorem route_sameLevel (bs : List Block) (s : Session) : s.SameLevel (route bs s).2 := by
  have hfold : ∀ (bs : List Block) (r : Routing),
      r.session.SameLevel (bs.foldl Routing.add r).session := by
    intro bs
    induction bs with
    | nil => exact fun r => .refl r.session
    | cons b bs ih => exact fun r => (r.add_sameLevel b).trans (ih (r.add b))
  exact hfold bs { session := s }

/-! ## Triggers -/

/-- A root event block with a known trigger: its event type is the tag of the trigger, or it is no
tag at all and the aliases lead from it to that tag. -/
def Block.Resolves (options : Options) (b : Block) (trigger : Trigger) : Prop :=
  b.kind = .event ∧ (b.data.Stores "eventType" trigger.tag ∨
    ∃ name, b.data.HoldsText "eventType" name ∧ (∀ t : Trigger, t.tag ≠ name) ∧
      Entries.get? name options.eventAliases = some trigger.tag)

section

variable {options : Options} {b : Block} {trigger : Trigger}

theorem Options.trigger?_eq_some {name : String} : options.trigger? name = some trigger ↔
    trigger.tag = name ∨ ((∀ t : Trigger, t.tag ≠ name) ∧
      Entries.get? name options.eventAliases = some trigger.tag) := by
  unfold Options.trigger?
  cases hname : (ofTag? name : Option Trigger) with
  | some t =>
      have htag : t.tag = name := ofTag?_eq_some_iff.mp hname
      constructor
      · rintro ⟨⟩
        exact .inl htag
      · rintro (h | ⟨h, -⟩)
        · exact congrArg some (tag_inj.mp (htag.trans h.symm))
        · exact absurd htag (h t)
  | none =>
      have hnone : ∀ t : Trigger, t.tag ≠ name := ofTag?_eq_none_iff.mp hname
      rw [Option.bind_eq_some_iff]
      constructor
      · rintro ⟨tag, hget, htag⟩
        exact .inr ⟨hnone, hget.trans (congrArg some (ofTag?_eq_some_iff.mp htag).symm)⟩
      · rintro (h | ⟨-, h⟩)
        · exact absurd h (hnone trigger)
        · exact ⟨trigger.tag, h, ofTag?_eq_some_iff.mpr rfl⟩

theorem Routing.triggerOf?_eq_some (h : b.kind = .event) :
    Routing.triggerOf? options b = some trigger ↔ b.Resolves options trigger := by
  unfold Routing.triggerOf? Block.Resolves
  simp only [Option.bind_eq_some_iff, Options.trigger?_eq_some, Fields.text?_eq_some, h, true_and]
  constructor
  · rintro ⟨name, hname, rfl | ⟨hnone, halias⟩⟩
    · exact .inl hname.1
    · exact .inr ⟨name, hname, hnone, halias⟩
  · rintro (hstores | ⟨name, hname, hnone, halias⟩)
    · exact ⟨trigger.tag, (holdsText_tag (a := trigger)).mpr hstores, .inl rfl⟩
    · exact ⟨name, hname, .inr ⟨hnone, halias⟩⟩

instance : Decidable (b.Resolves options trigger) :=
  if h : b.kind = .event then
    decidable_of_iff _ (Routing.triggerOf?_eq_some h)
  else .isFalse fun hb => h hb.1

/-- The trigger of a root block, if it is an event block with a known one. -/
def rootTrigger? (options : Options) (b : Block) : Option Trigger :=
  (Tagged.all : List Trigger).find? fun trigger => b.Resolves options trigger

theorem resolves_of_rootTrigger? (h : rootTrigger? options b = some trigger) :
    b.Resolves options trigger :=
  of_decide_eq_true (List.find?_some (p := fun trigger => decide (b.Resolves options trigger)) h)

theorem rootTrigger?_of_event (h : b.kind = .event) :
    rootTrigger? options b = Routing.triggerOf? options b := by
  cases hroot : rootTrigger? options b with
  | some trigger =>
      exact ((Routing.triggerOf?_eq_some h).mpr (resolves_of_rootTrigger? hroot)).symm
  | none =>
      refine (Option.eq_none_iff_forall_ne_some.mpr fun trigger htrigger => ?_).symm
      have hresolves := (Routing.triggerOf?_eq_some h).mp htrigger
      exact List.find?_eq_none.mp hroot trigger (mem_all trigger) (decide_eq_true hresolves)

theorem rootTrigger?_of_other (h : b.kind ≠ .event) : rootTrigger? options b = none :=
  List.find?_eq_none.mpr fun _ _ ht => h (of_decide_eq_true ht).1

theorem rootTrigger?_eq_some :
    rootTrigger? options b = some trigger ↔ b.Resolves options trigger := by
  refine ⟨resolves_of_rootTrigger?, fun h => ?_⟩
  rw [rootTrigger?_of_event h.1, Routing.triggerOf?_eq_some h.1]
  exact h

end

/-- The known triggers of the root event blocks, in their order. -/
def rootTriggers (options : Options) (bs : List Block) : List Trigger :=
  bs.filterMap (rootTrigger? options)

/-! ## Single root blocks -/

/-- A block that can be an action of a handler. -/
def Block.isAction (b : Block) : Bool :=
  b.kind == .reply || b.kind == .control || b.kind == .setting

theorem Block.kind_ne_event_of_isAction {b : Block} (h : b.isAction = true) : b.kind ≠ .event := by
  intro hkind
  simp [isAction, hkind] at h

namespace Routing

variable {r : Routing} {b : Block}

theorem add_of_trigger {trigger : Trigger}
    (h : rootTrigger? r.session.options b = some trigger) :
    r.add b = r.openHandler trigger b.data := by
  have hkind : b.kind = .event := (rootTrigger?_eq_some.mp h).1
  rw [rootTrigger?_of_event hkind] at h
  simp only [add, hkind, h]

theorem add_of_event (hkind : b.kind = .event) (h : rootTrigger? r.session.options b = none) :
    r.add b = { r with isOpen := false, session := r.session.note (.unknownTrigger b.label) } := by
  rw [rootTrigger?_of_event hkind] at h
  simp only [add, hkind, h]

theorem add_of_isAction (h : b.isAction = true) : r.add b = r.addAction b := by
  unfold add
  cases hkind : b.kind with
  | event => exact absurd hkind (Block.kind_ne_event_of_isAction h)
  | unknown name => simp [Block.isAction, hkind] at h
  | _ => rfl

/-- A block that is neither an event nor an action is of unknown kind, and is passed over. -/
theorem add_of_other (hevent : b.kind ≠ .event) (haction : b.isAction = false) :
    ∃ notice, r.add b = { r with session := r.session.note notice } := by
  cases hkind : b.kind with
  | event => exact absurd hkind hevent
  | unknown name => exact ⟨.unknownRootKind b.label name, by simp only [add, hkind]⟩
  | _ => simp [Block.isAction, hkind] at haction

end Routing

/-! ## Handlers and triggers -/

/-- The handlers so far, which are kept with the last one first, stand for the blocks `done`. -/
structure Routing.Accounts (options : Options) (done : List Block) (r : Routing) : Prop where
  sameOptions : r.session.options = options
  triggers : r.handlers.reverse.map Handler.trigger = rootTriggers options done
  indices : r.handlers.reverse.map Handler.index = List.range' 1 r.handlers.length
  guards : ∀ h ∈ r.handlers, ∃ data, h.guard = Handler.guardFor h.trigger data

namespace Routing.Accounts

variable {options : Options} {done : List Block} {r : Routing} {b : Block}

/-- A block that opens no handler, after which the handlers have the same triggers, numbers and
guards. -/
theorem keep (h : r.Accounts options done) (hb : rootTrigger? options b = none) {r' : Routing}
    (hoptions : r'.session.options = r.session.options)
    (hhandlers : r'.handlers.map (fun h => (h.trigger, h.index, h.guard)) =
      r.handlers.map fun h => (h.trigger, h.index, h.guard)) :
    r'.Accounts options (done ++ [b]) := by
  have htriggers := congrArg (List.map Prod.fst) hhandlers
  have hindices := congrArg (List.map fun p => p.2.1) hhandlers
  have hlength := congrArg List.length hhandlers
  simp only [List.map_map, Function.comp_def, List.length_map] at htriggers hindices hlength
  refine ⟨hoptions.trans h.sameOptions, ?_, ?_, ?_⟩
  · rw [List.map_reverse, htriggers, ← List.map_reverse, h.triggers]
    simp [rootTriggers, hb]
  · rw [List.map_reverse, hindices, ← List.map_reverse, h.indices, hlength]
  · intro handler hhandler
    have hmem :=
      List.mem_map_of_mem (f := fun h : Handler => (h.trigger, h.index, h.guard)) hhandler
    rw [hhandlers] at hmem
    obtain ⟨old, hold, heq⟩ := List.mem_map.mp hmem
    obtain ⟨htrigger, -, hguard⟩ := by simpa using heq
    obtain ⟨data, hdata⟩ := h.guards old hold
    exact ⟨data, by rw [← hguard, ← htrigger, hdata]⟩

theorem openHandler (h : r.Accounts options done) {trigger : Trigger}
    (hb : rootTrigger? options b = some trigger) (data : Fields) :
    (r.openHandler trigger data).Accounts options (done ++ [b]) where
  sameOptions := by
    rw [← h.sameOptions, Routing.openHandler, Handler.guardOf_eq trigger data r.session ""]
    exact (Session.SameLevel.after r.session "" _).options
  triggers := by simp [Routing.openHandler, h.triggers, rootTriggers, hb]
  indices := by simp [Routing.openHandler, h.indices, List.range'_concat, Nat.add_comm]
  guards := by
    intro handler hhandler
    rcases List.mem_cons.mp hhandler with rfl | hhandler
    · have hguard := congrArg Prod.fst (Handler.guardOf_eq trigger data r.session "")
      exact ⟨data, hguard⟩
    · exact h.guards handler hhandler

theorem addAction (h : r.Accounts options done) (hb : rootTrigger? options b = none) :
    (r.addAction b).Accounts options (done ++ [b]) := by
  obtain ⟨handlers, isOpen, session⟩ := r
  cases handlers with
  | nil => exact h.keep hb rfl rfl
  | cons last handlers =>
      cases isOpen with
      | false => exact h.keep hb rfl rfl
      | true => exact h.keep hb rfl rfl

/-- One root block is dealt out. -/
theorem add (h : r.Accounts options done) : (r.add b).Accounts options (done ++ [b]) := by
  by_cases hevent : b.kind = .event
  · cases hb : rootTrigger? options b with
    | some trigger =>
        rw [add_of_trigger (h.sameOptions ▸ hb)]
        exact h.openHandler hb b.data
    | none =>
        rw [add_of_event hevent (h.sameOptions ▸ hb)]
        exact h.keep hb rfl rfl
  · have hb : rootTrigger? options b = none := rootTrigger?_of_other hevent
    cases haction : b.isAction with
    | true =>
        rw [add_of_isAction haction]
        exact h.addAction hb
    | false =>
        obtain ⟨notice, hadd⟩ := add_of_other (r := r) hevent haction
        rw [hadd]
        exact h.keep hb rfl rfl

/-- All root blocks are dealt out, after others. -/
theorem foldl (h : r.Accounts options done) (bs : List Block) :
    (bs.foldl Routing.add r).Accounts options (done ++ bs) := by
  induction bs generalizing r done with
  | nil => simpa using h
  | cons b bs ih => simpa using ih (h.add (b := b))

end Routing.Accounts

/-- What routing keeps, at its end. -/
theorem route_accounts (bs : List Block) (s : Session) :
    (bs.foldl Routing.add { session := s }).Accounts s.options bs := by
  have hstart : Routing.Accounts s.options [] { session := s } :=
    ⟨rfl, rfl, rfl, by simp⟩
  simpa using hstart.foldl bs

theorem route_trigger (bs : List Block) (s : Session) :
    (route bs s).1.map Handler.trigger = rootTriggers s.options bs :=
  (route_accounts bs s).triggers

theorem route_index (bs : List Block) (s : Session) :
    (route bs s).1.map Handler.index = List.range' 1 (rootTriggers s.options bs).length := by
  have h := route_accounts bs s
  have hlength := congrArg List.length h.triggers
  rw [List.length_map, List.length_reverse] at hlength
  rw [← hlength]
  exact h.indices

/-- The handlers are numbered from one along the triggers of the root blocks. -/
theorem route_map {α : Type} (bs : List Block) (s : Session) (f : Trigger → Nat → α) :
    (route bs s).1.map (fun h => f h.trigger h.index) =
      (rootTriggers s.options bs).mapIdx fun i t => f t (i + 1) := by
  have htrigger := route_trigger bs s
  have hindex := route_index bs s
  have hlength : (route bs s).1.length = (rootTriggers s.options bs).length := by
    rw [← htrigger, List.length_map]
  -- position by position: the trigger is the one of the root block, and the number is one more than
  -- the position
  refine List.ext_getElem (by simpa using hlength) fun i hi hi' => ?_
  rw [List.length_map] at hi
  have hti : (route bs s).1[i].trigger = (rootTriggers s.options bs)[i] := by
    simp [← htrigger]
  have hni : (route bs s).1[i].index = i + 1 := by
    have hget :=
      List.getElem_map Handler.index (l := (route bs s).1) (i := i) (h := by simpa using hi)
    rw [← hget]
    simp [hindex, Nat.add_comm]
  rw [List.getElem_map, List.getElem_mapIdx, hti, hni]

theorem route_guard {bs : List Block} {s : Session} {h : Handler} (hh : h ∈ (route bs s).1) :
    ∃ data, h.guard = Handler.guardFor h.trigger data :=
  (route_accounts bs s).guards h (List.mem_reverse.mp hh)

/-! ## Names of functions -/

theorem natText_injective {m n : Nat} (h : natText m = natText n) : m = n := by
  have hdigits : Nat.toDigits 10 m = Nat.toDigits 10 n := String.ofList_injective h
  have hvalue := congrArg (Nat.ofDigitChars 10 · 0) hdigits
  simpa only [Nat.ofDigitChars_ten_toDigits] using hvalue

/-- The name of the function for a trigger, at a position among the handlers: the dots in the tag of
the trigger become underscores. -/
def handlerName (trigger : Trigger) (index : Nat) : String :=
  "handle_" ++ String.ofList (trigger.tag.toList.map fun c => if c = '.' then '_' else c) ++ "_" ++
    toString index

/-- A name ends in its position, behind the last underscore. -/
theorem handlerName_index {t t' : Trigger} {i j : Nat} (h : handlerName t i = handlerName t' j) :
    i = j := by
  have hlast : ∀ (t : Trigger) (n : Nat),
      (handlerName t n).toList.reverse.takeWhile (· != '_') = (natText n).toList.reverse := by
    intro t n
    have hdigits : ∀ c ∈ (natText n).toList.reverse, (c != '_') = true := by
      intro c hc
      rw [List.mem_reverse, natText, String.toList_ofList] at hc
      exact bne_iff_ne.mpr fun heq => Nat.underscore_not_in_toDigits (heq ▸ hc)
    have hunderscore : "_".toList = ['_'] := rfl
    have hnumber : toString n = natText n := rfl
    rw [handlerName, String.toList_append, String.toList_append, hunderscore, hnumber,
      List.reverse_append, List.reverse_append, List.takeWhile_append_of_pos hdigits]
    exact List.append_nil _
  have htext : natText i = natText j := by
    have hreverse := hlast t i
    rw [h, hlast t' j] at hreverse
    exact String.toList_inj.mp (List.reverse_injective hreverse.symm)
  exact natText_injective htext

theorem nodup_handlerName (triggers : List Trigger) :
    (triggers.mapIdx fun i t => handlerName t (i + 1)).Nodup := by
  rw [List.nodup_iff_injective_getElem]
  intro i j h
  simp only [List.getElem_mapIdx] at h
  exact Fin.ext (Nat.succ.inj (handlerName_index h))

end BlockBot
