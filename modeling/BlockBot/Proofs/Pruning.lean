import BlockBot.Proofs.Agreement
import BlockBot.Proofs.Routing

/-!
# What is skipped never matters

Pruning takes everything out of a list of root blocks that no compilation looks at: blocks of
unknown kinds and sub-types, blocks outside of any handler, events in bodies, the children of blocks
without a body, and all ids. The pruned blocks compile to the same program, or fail at the same
depth. Their run is a simulation of the run over all blocks: where a block was taken out, it does
nothing, and otherwise both runs take the same step.
-/

namespace BlockBot

open BlockBot.Json BlockBot.Code

/-! ## Pruning -/

mutual

/-- What is left of a block: nothing if it is skipped, and otherwise its kind, its data and what is
left of its body. -/
def Block.remnant : Block → List Block
  | ⟨_, kind, data, children⟩ =>
      if isIdle kind data then []
      else [⟨none, kind, data, if opensBody kind data then Block.prune children else []⟩]

/-- The blocks of a body without those that are skipped, without the children that nobody looks at,
and without ids. -/
def Block.prune : List Block → List Block
  | [] => []
  | b :: bs => b.remnant ++ Block.prune bs

end

/-- What is left of a root block, and whether the blocks after it belong to a handler; `live` tells
whether it does itself, that is, whether the last event block before it has a known trigger. -/
def pruneRoot (options : Options) (live : Bool) (b : Block) : List Block × Bool :=
  match b.kind with
  | .event =>
      if (Routing.triggerOf? options b).isSome then ([⟨none, .event, b.data, []⟩], true)
      else ([], false)
  | .unknown _ => ([], live)
  | _ => (if live then b.remnant else [], live)

/-- Root blocks one after the other, pruned. -/
def pruneRoots (options : Options) : Bool → List Block → List Block
  | _, [] => []
  | live, b :: bs =>
    (pruneRoot options live b).1 ++ pruneRoots options (pruneRoot options live b).2 bs

/-- A list of root blocks without all that a compilation does not look at. -/
def pruned (options : Options) (bs : List Block) : List Block :=
  pruneRoots options false bs

/-- A block is taken out or keeps its kind. -/
theorem Block.remnant_cases (b : Block) :
    b.remnant = [] ∨ ∃ c, c.kind = b.kind ∧ b.remnant = [c] := by
  obtain ⟨id, kind, data, children⟩ := b
  rw [remnant]
  by_cases hidle : isIdle kind data = true
  · exact .inl (if_pos hidle)
  · exact .inr ⟨⟨none, kind, data, _⟩, rfl, if_neg hidle⟩

theorem Block.prune_append (bs bs' : List Block) :
    Block.prune (bs ++ bs') = Block.prune bs ++ Block.prune bs' := by
  induction bs with
  | nil => simp [prune]
  | cons b bs ih => rw [List.cons_append, prune, ih, prune, List.append_assoc]

/-! ## Blocks -/

theorem proceed_ok {α : Type} (x : Except CompileError α × Session) :
    proceed x (fun a s => (.ok a, s)) = x := by
  rcases x with ⟨_ | a, s⟩ <;> rfl

/-- The children of a block without a body may as well not be there. -/
theorem emitBlock_of_plain_children {kind : Kind} {data : Fields} (h : opensBody kind data = false)
    (id : Option String) (children : List Block) (s : Session) :
    emitBlock ⟨id, kind, data, children⟩ s = emitBlock ⟨id, kind, data, []⟩ s := by
  rw [emitBlock_of_plain h, emitBlock_of_plain h]
  rfl

theorem emitBlocks_nil_same {s s' : Session} (hs : s.Agrees s') :
    SameRun Eq Eq (emitBlocks [] s) (emitBlocks [] s') := by
  rw [emitBlocks, emitBlocks]
  exact ⟨.ok rfl, hs⟩

/-- Blocks run as they do after pruning. -/
theorem emitBlocks_prune (bs : List Block) {s s' : Session} (hs : s.Agrees s') :
    SameRun Eq Eq (emitBlocks bs s) (emitBlocks (Block.prune bs) s') := by
  induction bs using Block.forest_induction generalizing s s' with
  | nil =>
      rw [Block.prune]
      exact emitBlocks_nil_same hs
  | cons id kind data children bs ihChildren ih =>
      rw [Block.prune, Block.remnant, emitBlocks_cons]
      by_cases hidle : isIdle kind data = true
      · obtain ⟨notice, hnotice⟩ :=
          emitPlain_of_isIdle hidle (Block.mk id kind data children).label s
        rw [if_pos hidle, List.nil_append, emitBlock_of_plain (opensBody_of_isIdle hidle), hnotice]
        change SameRun Eq Eq (proceed (emitBlocks bs (s.note notice)) fun rest s => (.ok rest, s)) _
        rw [proceed_ok]
        exact ih (hs.note_left notice)
      · have hfirst : SameRun Eq Eq (emitBlock ⟨id, kind, data, children⟩ s) (emitBlock
            ⟨none, kind, data, if opensBody kind data then Block.prune children else []⟩ s') := by
          cases hopens : opensBody kind data with
          | true => exact emitBlock_same lasting_eq hs id none kind data ihChildren
          | false =>
              rw [emitBlock_of_plain_children hopens]
              exact emitBlock_same lasting_eq hs id none kind data emitBlocks_nil_same
        rw [if_neg hidle, List.singleton_append, emitBlocks_cons]
        refine hfirst.proceed fun hstmts hs => ?_
        refine (ih hs).proceed fun hrest hs => ?_
        exact ⟨.ok (by rw [hstmts, hrest]), hs⟩

/-! ## Routing -/

/-- A handler with pruned actions. -/
def Handler.pruned (h : Handler) : Handler :=
  { h with actions := Block.prune h.actions }

theorem Handler.pruned_addAction (h : Handler) (b : Block) :
    (h.addAction b).pruned = { h.pruned with actions := h.pruned.actions ++ b.remnant } := by
  simp only [addAction, pruned, Block.prune_append, Block.prune, List.append_nil]

/-- Two states of routing, the second one over pruned blocks. Where the first one has an open
handler (`live`), so has the second one; what closed a handler may have been taken out. -/
structure Routing.Prunes (options : Options) (live : Bool) (r r' : Routing) : Prop where
  sameOptions : r.session.options = options
  handlers : r'.handlers = r.handlers.map Handler.pruned
  isOpen : r.isOpen = live
  stillOpen : live = true → r'.isOpen = true
  session : r.session.Agrees r'.session

namespace Routing.Prunes

variable {options : Options} {live : Bool} {r r' : Routing}

theorem openHandler (h : r.Prunes options live r') (trigger : Trigger) (data : Fields) :
    (r.openHandler trigger data).Prunes options true (r'.openHandler trigger data) := by
  unfold Routing.openHandler
  rw [Handler.guardOf_eq trigger data r.session "", Handler.guardOf_eq trigger data r'.session ""]
  refine ⟨?_, ?_, rfl, fun _ => rfl, h.session.after lasting_eq "" "" _⟩
  · exact (Session.SameLevel.after r.session "" _).options.trans h.sameOptions
  · simp [h.handlers, Handler.pruned, Block.prune]

/-- Without an open handler a block is dropped, so it may be taken out. -/
theorem dropAction (h : r.Prunes options false r') (b : Block) :
    (r.addAction b).Prunes options false r' := by
  have hdrop : r.addAction b = { r with session := r.session.note (.outsideHandler b.label) } := by
    unfold Routing.addAction
    rw [h.isOpen]
    cases r.handlers <;> rfl
  rw [hdrop]
  exact ⟨h.sameOptions, h.handlers, h.isOpen, h.stillOpen, h.session.note_left _⟩

/-- The open handler gets what is left of a block. -/
theorem addAction (h : r.Prunes options true r') {b : Block}
    (hadd : ∀ (r : Routing) (c : Block), c.kind = b.kind → r.add c = r.addAction c) :
    (r.addAction b).Prunes options true (b.remnant.foldl Routing.add r') := by
  obtain ⟨handlers, isOpen, session⟩ := r
  obtain ⟨handlers', isOpen', session'⟩ := r'
  obtain ⟨hoptions, hhandlers, hopen, hstill, hsession⟩ := h
  obtain rfl : isOpen' = true := hstill rfl
  simp only at hoptions hhandlers hopen hsession
  subst hhandlers hopen
  rcases b.remnant_cases with hnone | ⟨c, hkind, hone⟩
  · rw [hnone, List.foldl_nil]
    cases handlers with
    | nil => exact ⟨hoptions, rfl, rfl, hstill, hsession.note_left _⟩
    | cons last handlers =>
        refine ⟨hoptions, ?_, rfl, hstill, hsession⟩
        simp only [Routing.addAction, List.map_cons, Handler.pruned_addAction, hnone,
          List.append_nil]
  · rw [hone, List.foldl_cons, List.foldl_nil, hadd _ c hkind]
    cases handlers with
    | nil => exact ⟨hoptions, rfl, rfl, hstill, hsession.note _ _⟩
    | cons last handlers =>
        refine ⟨hoptions, ?_, rfl, hstill, hsession⟩
        simp only [Routing.addAction, List.map_cons, Handler.pruned_addAction, hone]
        rfl

/-- One root block is dealt out as it is after pruning. -/
theorem add (h : r.Prunes options live r') (b : Block) :
    (r.add b).Prunes options (pruneRoot options live b).2
      ((pruneRoot options live b).1.foldl Routing.add r') := by
  unfold pruneRoot
  cases hkind : b.kind with
  | event =>
      have hroot : ∀ c : Block, c.kind = .event → c.data = b.data →
          rootTrigger? options c = triggerOf? options b := by
        intro c hc hdata
        rw [rootTrigger?_of_event hc, triggerOf?, triggerOf?, hdata]
      cases htrigger : triggerOf? options b with
      | some trigger =>
          -- the pruned event asks for the same handler
          rw [htrigger] at hroot
          have hoptions : r'.session.options = options := h.session.options.trans h.sameOptions
          rw [add_of_trigger (h.sameOptions ▸ hroot b hkind rfl)]
          change Prunes options true _ (r'.add ⟨none, .event, b.data, []⟩)
          rw [add_of_trigger (hoptions ▸ hroot ⟨none, .event, b.data, []⟩ rfl rfl)]
          exact h.openHandler trigger b.data
      | none =>
          rw [htrigger] at hroot
          rw [add_of_event hkind (h.sameOptions ▸ hroot b hkind rfl)]
          exact ⟨h.sameOptions, h.handlers, rfl, by simp, h.session.note_left _⟩
  | unknown name =>
      obtain ⟨notice, hadd⟩ := add_of_other (r := r) (b := b) (by simp [hkind])
        (by simp [Block.isAction, hkind])
      rw [hadd]
      exact ⟨h.sameOptions, h.handlers, h.isOpen, h.stillOpen, h.session.note_left _⟩
  | reply | control | setting =>
      have hadd : ∀ (r : Routing) (c : Block), c.kind = b.kind → r.add c = r.addAction c := by
        intro r c hc
        exact add_of_isAction (by simp [Block.isAction, hc, hkind])
      rw [hadd r b rfl]
      cases live with
      | true => exact h.addAction hadd
      | false => exact h.dropAction b

/-- All root blocks are dealt out as they are after pruning. -/
theorem foldl (h : r.Prunes options live r') (bs : List Block) :
    ∃ live', (bs.foldl Routing.add r).Prunes options live'
      ((pruneRoots options live bs).foldl Routing.add r') := by
  induction bs generalizing live r r' with
  | nil => exact ⟨live, h⟩
  | cons b bs ih =>
      rw [List.foldl_cons, pruneRoots, List.foldl_append]
      exact ih (h.add b)

end Routing.Prunes

theorem route_pruned (options : Options) (bs : List Block) :
    (route (pruned options bs) (.new options)).1 = (route bs (.new options)).1.map Handler.pruned ∧
      (route bs (.new options)).2.Agrees (route (pruned options bs) (.new options)).2 := by
  have hstart :
      Routing.Prunes options false { session := .new options } { session := .new options } :=
    ⟨rfl, rfl, rfl, by simp, .refl Eq.refl _⟩
  obtain ⟨live, hend⟩ := hstart.foldl bs
  refine ⟨?_, hend.session⟩
  simp only [route, pruned, hend.handlers, List.map_reverse]

/-! ## Programs -/

/-- The statements of the handlers are the same; the handlers of the second list have pruned
actions. -/
def SameHandlers (hs hs' : List (Handler × List Stmt)) : Prop :=
  hs' = hs.map fun p => (p.1.pruned, p.2)

theorem emitHandlers_pruned {s s' : Session} (hs : s.Agrees s') (handlers : List Handler) :
    SameRun Eq SameHandlers (emitHandlers handlers s)
      (emitHandlers (handlers.map Handler.pruned) s') := by
  induction handlers generalizing s s' with
  | nil => exact ⟨.ok rfl, hs⟩
  | cons h handlers ih =>
      rw [List.map_cons, emitHandlers_cons, emitHandlers_cons]
      refine (emitBlocks_prune h.actions (hs.note _ _)).proceed fun hstmts hs => ?_
      refine (ih hs).proceed fun hrest hs => ?_
      exact ⟨.ok (by rw [SameHandlers, hrest, hstmts, List.map_cons]), hs⟩

theorem Handler.sectionText_pruned (h : Handler) (unit : String) (actions : List Stmt) :
    h.pruned.sectionText unit actions = h.sectionText unit actions := by
  unfold sectionText lines
  rfl

theorem sectionsOf_same {hs hs' : List (Handler × List Stmt)} (h : SameHandlers hs hs')
    (options : Options) : sectionsOf options hs' = sectionsOf options hs := by
  rw [SameHandlers] at h
  subst h
  simp only [sectionsOf, List.map_map, Function.comp_def, Handler.sectionText_pruned]

/-- A list of blocks and the pruned one compile to the same program, or fail at the same depth. -/
theorem compile_sameResult (options : Options) (bs : List Block) :
    SameResult Eq (compile options bs) (compile options (pruned options bs)) := by
  obtain ⟨hhandlers, hsession⟩ := route_pruned options bs
  have hrun := emitHandlers_pruned
    (hsession.note (.routed bs.length (route bs (.new options)).1.length)
      (.routed (pruned options bs).length (route (pruned options bs) (.new options)).1.length))
    (route bs (.new options)).1
  rw [← hhandlers] at hrun
  simp only [compile, compileNoting]
  rcases hx : emitProgram bs (.new options) with ⟨x, t⟩
  rcases hy : emitProgram (pruned options bs) (.new options) with ⟨y, t'⟩
  simp only [emitProgram] at hx hy
  rw [hx, hy] at hrun
  obtain ⟨hresult, hagrees⟩ := hrun
  cases hresult with
  | cyclic => exact .cyclic
  | ok hsame =>
      refine .ok ?_
      rw [sectionsOf_same hsame, Session.statements, Session.statements, hagrees.imports]

/-- Skipped blocks, the children of blocks without a body and ids never reach the program: the
pruned blocks compile exactly when all blocks do, to the same program, and otherwise both fail at
the same depth. -/
theorem compile_pruned (options : Options) (bs : List Block) :
    (∀ program, compile options (pruned options bs) = .ok program ↔
      compile options bs = .ok program) ∧
      ∀ depth, (∃ label, compile options (pruned options bs) = .error (.cyclic label depth)) ↔
        ∃ label, compile options bs = .error (.cyclic label depth) :=
  ⟨(compile_sameResult options bs).eq_ok_iff, (compile_sameResult options bs).cyclic_iff⟩

/-- A block before the first event, a block of an unknown kind and an event in a body are gone. -/
example : pruned {}
    [⟨some "a", .reply, [], []⟩,
     ⟨some "b", .event, [("eventType", .string "follow")], []⟩,
     ⟨some "c", .unknown "note", [], []⟩,
     ⟨some "d", .control, [("controlType", .string "loop")], [⟨some "e", .event, [], []⟩]⟩] =
    [⟨none, .event, [("eventType", .string "follow")], []⟩,
     ⟨none, .control, [("controlType", .string "loop")], []⟩] :=
  rfl

/-! ## Ids -/

theorem Block.prune_withoutIds (bs : List Block) :
    Block.prune (Block.withoutIds bs) = Block.prune bs := by
  induction bs using Block.forest_induction with
  | nil => rw [withoutIds]
  | cons id kind data children bs ihChildren ih =>
      rw [withoutIds, prune, prune, remnant, remnant, ihChildren, ih]

theorem pruneRoot_anonymous (options : Options) (live : Bool) (b : Block) :
    pruneRoot options live b.anonymous = pruneRoot options live b := by
  have hremnant : b.anonymous.remnant = b.remnant := by
    obtain ⟨id, kind, data, children⟩ := b
    rw [Block.anonymous, Block.remnant, Block.remnant, Block.prune_withoutIds]
  simp only [pruneRoot, hremnant]
  rfl

theorem pruneRoots_withoutIds (options : Options) (live : Bool) (bs : List Block) :
    pruneRoots options live (Block.withoutIds bs) = pruneRoots options live bs := by
  rw [Block.withoutIds_eq_map]
  induction bs generalizing live with
  | nil => rfl
  | cons b bs ih => rw [List.map_cons, pruneRoots, pruneRoots, pruneRoot_anonymous, ih]

/-- Ids decide nothing about whether a list of blocks compiles, and to what. -/
theorem compile_eq_ok_of_withoutIds_eq {options : Options} {bs bs' : List Block}
    (h : Block.withoutIds bs = Block.withoutIds bs') (program : String) :
    compile options bs = .ok program ↔ compile options bs' = .ok program := by
  have hpruned : pruned options bs = pruned options bs' := by
    rw [pruned, pruned, ← pruneRoots_withoutIds, h, pruneRoots_withoutIds]
  rw [← (compile_sameResult options bs).eq_ok_iff, ← (compile_sameResult options bs').eq_ok_iff,
    hpruned]

end BlockBot
