import BlockBot.Proofs.OtherOptions
import BlockBot.Proofs.TextHoles

/-!
# Texts of authors stay in their literals

Put any text in any field that authors fill for their users, in any block: either the result of the
compilation does not depend on it at all, or the program is the same for all texts but for one
place, where the literal of the text stands. No text has an influence on imports, defaults, guards,
the boundaries of handlers or the indentation.

A family over all texts is followed through the compilation. At each stage it is constant or varies
in one place: in one block of a body, in one handler, in one section. What is told to the session
never varies.
-/

namespace BlockBot

open BlockBot.Json BlockBot.Code BlockBot.Text

/-- Blocks with a text put into a field of the block at a path: the position among the roots, then
the position in each body on the way. A path that leads nowhere changes nothing. -/
def Block.putText (key text : String) : List Nat → List Block → List Block
  | [], bs => bs
  | [i], bs => bs.modify i fun b => b.withText key text
  | i :: j :: path, bs =>
    bs.modify i fun b => b.withChildren (putText key text (j :: path) b.children)

/-! ## Runs -/

/-- A run that fails in one way for all texts, or succeeds for all of them with one session and with
results in `P`. -/
inductive ConfinedRun {α : Type} (P : (UserText → α) → Prop)
    (run : UserText → Except CompileError α × Session) : Prop
  | fails {e t} : (∀ s, run s = (.error e, t)) → ConfinedRun P run
  | succeeds {f t} : P f → (∀ s, run s = (.ok (f s), t)) → ConfinedRun P run

namespace ConfinedRun

variable {α β : Type} {P : (UserText → α) → Prop} {Q : (UserText → β) → Prop}

/-- A run that does not depend on the text. -/
theorem fixed (hP : ∀ a, P fun _ => a) (x : Except CompileError α × Session) :
    ConfinedRun P fun _ => x := by
  obtain ⟨_ | a, t⟩ := x
  · exact .fails fun _ => rfl
  · exact .succeeds (hP a) fun _ => rfl

/-- A run that varies only after a part that does not. -/
theorem after {x : Except CompileError α × Session} {k : UserText → α → Emit β}
    (hk : ∀ a t, ConfinedRun Q fun s => k s a t) :
    ConfinedRun Q fun s => BlockBot.proceed x (k s) := by
  obtain ⟨_ | a, t⟩ := x
  · exact .fails fun _ => rfl
  · exact hk a t

theorem proceed {x : UserText → Except CompileError α × Session} {k : UserText → α → Emit β}
    (hx : ConfinedRun P x) (hk : ∀ f t, P f → ConfinedRun Q fun s => k s (f s) t) :
    ConfinedRun Q fun s => proceed (x s) (k s) := by
  cases hx with
  | fails h => exact .fails fun s => by rw [h s, BlockBot.proceed]
  | @succeeds f t hf h =>
      have hrun : ∀ s, BlockBot.proceed (x s) (k s) = k s (f s) t :=
        fun s => by rw [h s, BlockBot.proceed]
      simp only [hrun]
      exact hk f t hf

end ConfinedRun

theorem confined_emitBody (label : String) {inner : UserText → Emit (List Stmt)}
    (h : ∀ t, ConfinedRun ConfinedStmts fun s => inner s t) (t : Session) :
    ConfinedRun ConfinedStmts fun s => emitBody label (inner s) t := by
  rcases Nat.lt_or_ge t.depth t.options.maxDepth with hopen | hdeep
  · simp only [emitBody_of_open hopen]
    cases h t.deeper with
    | fails h => exact .fails fun s => by rw [h s]
    | @succeeds f u hf h => exact .succeeds (t := u.leave) hf fun s => by rw [h s]
  · simp only [emitBody_of_deep hdeep]
    exact .fails fun _ => rfl

/-! ## Blocks -/

/-- A block in whose code nothing varies but one literal, if anything does, and that is routed alike
for all texts. -/
structure ConfinedBlock (b : UserText → Block) : Prop where
  label : ∃ label, ∀ s, (b s).label = label
  kind : ∃ kind, ∀ s, (b s).kind = kind
  trigger : ∀ options, ∃ trigger, ∀ s, Routing.triggerOf? options (b s) = trigger
  guard : ∀ trigger t, ∃ f u, ConfinedGuard f ∧ ∀ s, Handler.guardOf trigger (b s).data t = (f s, u)
  emits : ∀ t, ConfinedRun ConfinedStmts fun s => emitBlock (b s) t

/-- The text is in a field of the block itself. -/
theorem ConfinedBlock.of_field {key : String} (hkey : key ∈ userTextKeys) (b : Block) :
    ConfinedBlock fun s => b.withText key s.text := by
  obtain ⟨id, kind, data, children⟩ := b
  show ConfinedBlock fun s => ⟨id, kind, putField key data s, children⟩
  refine ⟨⟨(Block.mk id kind data children).label, fun _ => rfl⟩, ⟨kind, fun _ => rfl⟩,
    fun options => ?_, fun trigger t => ?_, fun t => ?_⟩
  · refine ⟨(data.text? "eventType").bind options.trigger?, fun s => ?_⟩
    rw [Routing.triggerOf?, (sameAt_userText data s hkey (by decide)).text?]
  · exact confined_guardOf hkey trigger data t
  · have hopens : ∀ s, opensBody kind (putField key data s) = opensBody kind data := fun s => by
      rw [opensBody_eq, controlKind?_putField hkey, opensBody_eq]
    cases hbody : opensBody kind data with
    | true =>
        -- a branch or loop has none of these fields
        have hwrap : ∀ s, wrapBody (putField key data s) = wrapBody data := fun s => by
          have hcount := sameAt_userText data s hkey (show "loopCount" ∉ userTextKeys by decide)
          simp only [wrapBody, controlKind?_putField hkey, branchCondition_putField hkey, loopCount,
            hcount.count?]
        simp only [emitBlock_of_opens ((hopens _).trans hbody), hwrap]
        have hlabel : ∀ s, (Block.mk id kind (putField key data s) children).label =
            (Block.mk id kind data children).label := fun _ => rfl
        simp only [hlabel]
        exact .fixed .fixed _
    | false =>
        obtain ⟨f, u, hf, h⟩ :=
          confined_emitPlain hkey data (Block.mk id kind data children).label kind t
        refine .succeeds (t := u) hf fun s => ?_
        rw [emitBlock_of_plain ((hopens s).trans hbody)]
        exact congrArg (fun p : List Stmt × Session => (Except.ok p.1, p.2)) (h s)

/-- Blocks of which one is confined. -/
abbrev ConfinedBlocks (f : UserText → List Block) : Prop :=
  OneVaries ConfinedBlock f

theorem emitBlocks_append (bs bs' : List Block) (t : Session) :
    emitBlocks (bs ++ bs') t = proceed (emitBlocks bs t) fun stmts t =>
      proceed (emitBlocks bs' t) fun rest t => (.ok (stmts ++ rest), t) := by
  induction bs generalizing t with
  | nil =>
      rw [List.nil_append, emitBlocks]
      rcases h : emitBlocks bs' t with ⟨_ | rest, u⟩
      · simp [proceed, h]
      · simp [proceed, h]
  | cons b bs ih =>
      rw [List.cons_append, emitBlocks_cons, emitBlocks_cons]
      rcases emitBlock b t with ⟨_ | first, u⟩
      · rfl
      · simp only [proceed, ih]
        rcases emitBlocks bs u with ⟨_ | stmts, v⟩
        · rfl
        · simp only
          rcases emitBlocks bs' v with ⟨_ | rest, w⟩
          · rfl
          · simp

/-- A run over blocks of which one is confined is confined. -/
theorem ConfinedBlocks.emits {f : UserText → List Block} (h : ConfinedBlocks f) (t : Session) :
    ConfinedRun ConfinedStmts fun s => emitBlocks (f s) t := by
  rcases h with ⟨bs, rfl⟩ | ⟨before, b, after, hb, rfl⟩
  · exact .fixed .fixed _
  · simp only [emitBlocks_append, emitBlocks_cons]
    refine .after fun stmts u => ?_
    refine .proceed (P := ConfinedStmts) (.proceed (hb.emits u) fun first v hfirst => ?_)
      fun rest v hrest => ?_
    · exact .after fun rest w => .succeeds (hfirst.append_right rest) fun _ => rfl
    · exact .succeeds (hrest.append_left stmts) fun _ => rfl

/-- The text is somewhere below the block. -/
theorem ConfinedBlock.of_children {f : UserText → List Block} (h : ConfinedBlocks f) (b : Block) :
    ConfinedBlock fun s => b.withChildren (f s) := by
  obtain ⟨id, kind, data, children⟩ := b
  show ConfinedBlock fun s => ⟨id, kind, data, f s⟩
  refine ⟨⟨(Block.mk id kind data []).label, fun _ => rfl⟩, ⟨kind, fun _ => rfl⟩,
    fun options => ⟨(data.text? "eventType").bind options.trigger?, fun _ => rfl⟩,
    fun trigger t => ⟨_, (Handler.guardOf trigger data t).2,
      .inl ⟨(Handler.guardOf trigger data t).1, rfl⟩, fun _ => rfl⟩, fun t => ?_⟩
  cases hbody : opensBody kind data with
  | true =>
      simp only [emitBlock_of_opens hbody]
      cases confined_emitBody (Block.mk id kind data []).label h.emits t with
      | fails h => exact .fails fun s => congrArg (fun p => (p.1.map (wrapBody data), p.2)) (h s)
      | succeeds hf h =>
          exact .succeeds (hf.wrapBody data) fun s =>
            congrArg (fun p => (p.1.map (wrapBody data), p.2)) (h s)
  | false =>
      have hplain : ∀ s,
          emitBlock ⟨id, kind, data, f s⟩ t = emitBlock ⟨id, kind, data, []⟩ t := fun s => by
        rw [emitBlock_of_plain hbody, emitBlock_of_plain hbody]
        rfl
      simp only [hplain]
      exact .fixed .fixed _

theorem modify_confined {g : UserText → Block → Block} (hg : ∀ b, ConfinedBlock fun s => g s b)
    (i : Nat) (bs : List Block) : ConfinedBlocks fun s => bs.modify i (g s) := by
  induction bs generalizing i with
  | nil => simp only [List.modify_nil]; exact .fixed _
  | cons b bs ih =>
      cases i with
      | zero => exact .inr ⟨[], _, bs, hg b, rfl⟩
      | succ i => exact (ih i).append_left [b]

/-- Putting a text into a field of one block leaves the others as they are. -/
theorem confined_putText {key : String} (hkey : key ∈ userTextKeys) (path : List Nat)
    (bs : List Block) : ConfinedBlocks fun s => Block.putText key s.text path bs := by
  induction path generalizing bs with
  | nil => exact .fixed bs
  | cons i path ih =>
      cases path with
      | nil => exact modify_confined (ConfinedBlock.of_field hkey) i bs
      | cons j path => exact modify_confined (fun b => .of_children (ih b.children) b) i bs

/-! ## Handlers -/

/-- A handler that varies in the literal in its guard, or in one of its actions. -/
inductive ConfinedHandler (h : UserText → Handler) : Prop
  | guard {index trigger condition actions} :
      Hole condition → (h = fun s => ⟨index, trigger, some (condition s), actions⟩) →
      ConfinedHandler h
  | actions {index trigger guard actions} :
      ConfinedBlocks actions → (h = fun s => ⟨index, trigger, guard, actions s⟩) → ConfinedHandler h

theorem ConfinedHandler.addAction {h : UserText → Handler} (hh : ConfinedHandler h) (b : Block) :
    ConfinedHandler fun s => (h s).addAction b := by
  rcases hh with @⟨index, trigger, condition, actions, hcondition, rfl⟩ | ⟨hactions, rfl⟩
  · show ConfinedHandler fun s => ⟨index, trigger, some (condition s), actions ++ [b]⟩
    exact .guard hcondition rfl
  · exact .actions (hactions.append_right [b]) rfl

/-- A handler has one name, whatever the text is. -/
theorem ConfinedHandler.functionName {h : UserText → Handler} (hh : ConfinedHandler h) :
    ∃ name, ∀ s, (h s).functionName = name := by
  rcases hh with @⟨index, trigger, _, _, _, rfl⟩ | @⟨index, trigger, _, _, _, rfl⟩
  · exact ⟨(Handler.mk index trigger none []).functionName, fun _ => rfl⟩
  · exact ⟨(Handler.mk index trigger none []).functionName, fun _ => rfl⟩

/-- A routing whose handlers vary in one place, if at all; what is open and what was told does not
vary. -/
def ConfinedRouting (r : UserText → Routing) : Prop :=
  ∃ handlers isOpen session, OneVaries ConfinedHandler handlers ∧ r = fun s =>
    ⟨handlers s, isOpen, session⟩

namespace ConfinedRouting

variable {r : UserText → Routing}

theorem fixed (r : Routing) : ConfinedRouting fun _ => r :=
  ⟨_, r.isOpen, r.session, .fixed r.handlers, rfl⟩

/-- A fixed action joins the last handler, whether that one varies or not. -/
theorem addAction (h : ConfinedRouting r) (b : Block) :
    ConfinedRouting fun s => (r s).addAction b := by
  obtain ⟨handlers, isOpen, session, hhandlers, rfl⟩ := h
  cases isOpen with
  | false =>
      exact ⟨handlers, false, session.note (.outsideHandler b.label), hhandlers, funext fun s => by
      cases hs : handlers s <;> simp [Routing.addAction, hs]⟩
  | true =>
      rcases hhandlers with ⟨c, rfl⟩ | ⟨before, h, after, hh, rfl⟩
      · exact .fixed _
      · cases before with
        | nil => exact ⟨_, true, session, .inr ⟨[], _, after, hh.addAction b, rfl⟩, rfl⟩
        | cons h' before =>
            exact ⟨_, true, session, .inr ⟨h'.addAction b :: before, h, after, hh, rfl⟩, rfl⟩

/-- A fixed block opens a handler beside the others. -/
theorem openHandler (h : ConfinedRouting r) (trigger : Trigger) (data : Fields) :
    ConfinedRouting fun s => (r s).openHandler trigger data := by
  obtain ⟨handlers, isOpen, session, hhandlers, rfl⟩ := h
  obtain ⟨n, hn⟩ := hhandlers.length
  refine ⟨_, true, (Handler.guardOf trigger data session).2,
    hhandlers.append_left [⟨n + 1, trigger, (Handler.guardOf trigger data session).1, []⟩],
      funext fun s => ?_⟩
  simp only [Routing.openHandler, hn, List.singleton_append]

/-- One step over a fixed block. -/
theorem add (h : ConfinedRouting r) (b : Block) : ConfinedRouting fun s => (r s).add b := by
  have hopens := fun trigger => h.openHandler trigger b.data
  have hadds := h.addAction b
  obtain ⟨handlers, isOpen, session, hhandlers, rfl⟩ := h
  unfold Routing.add
  cases b.kind with
  | event =>
      cases htrigger : Routing.triggerOf? session.options b with
      | none =>
          exact ⟨handlers, false, session.note (.unknownTrigger b.label),
            hhandlers, by simp only [htrigger]⟩
      | some trigger => simpa only [htrigger] using hopens trigger
  | unknown name =>
      exact ⟨handlers, isOpen, session.note (.unknownRootKind b.label name), hhandlers, rfl⟩
  | _ => exact hadds

/-- The block that varies joins the last handler, if one is open. -/
theorem addAction_varying {b : UserText → Block} (hb : ConfinedBlock b) (r : Routing) :
    ConfinedRouting fun s => r.addAction (b s) := by
  obtain ⟨label, hlabel⟩ := hb.label
  obtain ⟨handlers, isOpen, session⟩ := r
  unfold Routing.addAction
  simp only [hlabel]
  rcases handlers with _ | ⟨h, handlers⟩
  · exact .fixed _
  · cases isOpen with
    | false => exact .fixed _
    | true =>
        have hactions : ConfinedHandler fun s => h.addAction (b s) :=
          .actions (OneVaries.append_left (.single hb) h.actions) rfl
        exact ⟨_, true, session, .inr ⟨[], _, handlers, hactions, rfl⟩, rfl⟩

/-- One step over the block that varies. -/
theorem add_varying {b : UserText → Block} (hb : ConfinedBlock b) (r : Routing) :
    ConfinedRouting fun s => r.add (b s) := by
  have hadds := addAction_varying hb r
  obtain ⟨label, hlabel⟩ := hb.label
  obtain ⟨kind, hkind⟩ := hb.kind
  unfold Routing.add
  simp only [hkind]
  cases kind with
  | event =>
      obtain ⟨trigger?, htrigger⟩ := hb.trigger r.session.options
      simp only [htrigger, hlabel]
      cases trigger? with
      | none => exact .fixed _
      | some trigger =>
          obtain ⟨guard, session, hguard, hguardOf⟩ := hb.guard trigger r.session
          simp only [Routing.openHandler, hguardOf]
          rcases hguard with ⟨c, rfl⟩ | ⟨condition, hcondition, rfl⟩
          · exact .fixed _
          · exact ⟨_, true, session, .inr ⟨[], _, r.handlers, .guard hcondition rfl, rfl⟩, rfl⟩
  | unknown name =>
      simp only [hlabel]
      exact .fixed _
  | _ => exact hadds

theorem foldl_add (h : ConfinedRouting r) (bs : List Block) :
    ConfinedRouting fun s => bs.foldl Routing.add (r s) := by
  induction bs generalizing r with
  | nil => exact h
  | cons b bs ih => exact ih (h.add b)

end ConfinedRouting

/-- The handlers of blocks of which one is confined. -/
theorem confined_route {f : UserText → List Block} (h : ConfinedBlocks f) (t : Session) :
    ∃ handlers u, OneVaries ConfinedHandler handlers ∧ ∀ s, route (f s) t = (handlers s, u) := by
  have hrouting : ConfinedRouting fun s => (f s).foldl Routing.add { session := t } := by
    rcases h with ⟨bs, rfl⟩ | ⟨before, b, after, hb, rfl⟩
    · exact .fixed _
    · simp only [List.foldl_append, List.foldl_cons]
      exact (ConfinedRouting.add_varying hb _).foldl_add after
  obtain ⟨handlers, isOpen, session, hhandlers, heq⟩ := hrouting
  refine ⟨_, session, hhandlers.reverse, fun s => ?_⟩
  simp only [route, congrFun heq s]

/-! ## Programs -/

/-- A handler with the statements of its actions that make a confined section. -/
def ConfinedSection (p : UserText → Handler × List Stmt) : Prop :=
  ∀ unit, Confined fun s => (p s).1.sectionText unit (p s).2

/-- The section of a handler whose function is confined. -/
theorem ConfinedSection.of_stmts {p : UserText → Handler × List Stmt} (lines : List String)
    (hlines : ∀ s, (p s).1.headLines = lines)
    (hstmts : ConfinedStmts fun s => (p s).1.stmts (p s).2) : ConfinedSection p := by
  intro unit
  unfold Handler.sectionText Handler.lines
  simp only [hlines]
  exact ConfinedLines.textOfLines (OneVaries.append_left ((hstmts unit).indent unit) lines)

/-- The run that emits a handler that varies and then fixed ones. -/
theorem ConfinedHandler.emits {h : UserText → Handler} (hh : ConfinedHandler h)
    (after : List Handler) (t : Session) :
    ConfinedRun (OneVaries ConfinedSection) fun s => emitHandlers (h s :: after) t := by
  obtain ⟨name, hname⟩ := hh.functionName
  simp only [emitHandlers_cons, hname]
  rcases hh with @⟨index, trigger, condition, actions, hcondition, rfl⟩ |
    @⟨index, trigger, guard, actions, hactions, rfl⟩
  · dsimp only
    refine .after fun stmts u => .after fun rest v => ?_
    refine .succeeds (t := v) (.inr ⟨[], _, rest, ?_, rfl⟩) fun _ => rfl
    refine .of_stmts (Handler.mk index trigger none []).headLines (fun _ => rfl) ?_
    exact (ConfinedStmts.guardCondition hcondition stmts).append_left prologue
  · obtain ⟨n, hn⟩ := hactions.length
    simp only [hn]
    refine .proceed (hactions.emits _) fun stmts u hstmts => .after fun rest v => ?_
    refine .succeeds (t := v) (.inr ⟨[], _, rest, ?_, rfl⟩) fun _ => rfl
    refine .of_stmts (Handler.mk index trigger none []).headLines (fun _ => rfl) ?_
    cases guard with
    | none => exact hstmts.append_left prologue
    | some condition => exact (hstmts.guard condition).append_left prologue

theorem confined_emitHandlers {f : UserText → List Handler} (h : OneVaries ConfinedHandler f)
    (t : Session) : ConfinedRun (OneVaries ConfinedSection) fun s => emitHandlers (f s) t := by
  rcases h with ⟨handlers, rfl⟩ | ⟨before, h, after, hh, rfl⟩
  · exact .fixed .fixed _
  · induction before generalizing t with
    | nil => exact hh.emits after t
    | cons h' before ih =>
        simp only [List.cons_append, emitHandlers_cons]
        exact .after fun stmts u => .proceed (ih u) fun rest v hrest =>
          .succeeds (hrest.append_left [(h', stmts)]) fun _ => rfl

theorem confined_emitProgram {f : UserText → List Block} (h : ConfinedBlocks f) (t : Session) :
    ConfinedRun (OneVaries ConfinedSection) fun s => emitProgram (f s) t := by
  obtain ⟨handlers, u, hhandlers, hroute⟩ := confined_route h t
  obtain ⟨n, hn⟩ := h.length
  obtain ⟨m, hm⟩ := hhandlers.length
  simp only [emitProgram, hroute, hn, hm]
  exact confined_emitHandlers hhandlers _

/-- A program of which one section is confined. -/
theorem confined_assemble {sections : UserText → List String} (h : OneVaries Confined sections)
    (options : Options) (statements : List String) :
    Confined fun s => assemble options statements (sections s) := by
  have hjoin : Confined fun s => String.join ((sections s).map ("\n\n" ++ ·)) := by
    rcases h with ⟨c, rfl⟩ | ⟨before, text, after, htext, rfl⟩
    · exact .fixed _
    · simp only [List.map_append, List.map_cons, String.join_append, String.join_cons]
      exact ((htext.append_left "\n\n").append_right _).append_left _
  exact ((hjoin.append_left _).append_right _).append_right _

/-- Whatever text an author puts in a field, in any block: the result of the compilation does not
depend on it, or it is a program that is the same for all texts but for one place, where the literal
of the text stands. -/
theorem compile_confines (options : Options) (bs : List Block) (path : List Nat) {key : String}
    (hkey : key ∈ userTextKeys) :
    (∃ result, ∀ s : UserText, compile options (Block.putText key s.text path bs) = result) ∨
      ∃ before after, ∀ s : UserText,
        compile options (Block.putText key s.text path bs) =
          .ok (before ++ textLiteral s.text ++ after) := by
  rcases confined_emitProgram (confined_putText hkey path bs) (.new options) with
    @⟨e, t, h⟩ | @⟨emitted, t, hemitted, h⟩
  · exact .inl ⟨.error e, fun s => by simp only [compile, compileNoting, h s]⟩
  · have hprogram : ∀ s : UserText, compile options (Block.putText key s.text path bs) =
        .ok (assemble options t.statements (sectionsOf options (emitted s))) :=
      fun s => compile_eq_ok.mpr ⟨emitted s, t, h s, rfl⟩
    have hsections : OneVaries Confined fun s => sectionsOf options (emitted s) :=
      hemitted.map fun p hp => hp options.unit
    rcases confined_assemble hsections options t.statements with
      ⟨program, heq⟩ | ⟨before, after, heq⟩
    · exact .inl ⟨.ok program, fun s => by rw [hprogram, congrFun heq s]⟩
    · exact .inr ⟨before, after, fun s => by rw [hprogram, congrFun heq s, textLiteral]⟩

/-- A reply in a branch, in the handler of a text. -/
def branchingReply : List Block :=
  [⟨none, .event, [("eventType", .string "message.text"), ("pattern", .string "hi")], []⟩,
   ⟨none, .control, [("controlType", .string "if"), ("condition", .string "x > 1")],
    [⟨none, .reply, [("replyType", .string "text")], []⟩]⟩]

/-- The reply says the text, so the program depends on it. -/
theorem compile_confines_nested :
    "content" ∈ userTextKeys ∧ ∃ before after, ∀ s : UserText,
      compile {} (Block.putText "content" s.text [1, 0] branchingReply) =
        .ok (before ++ textLiteral s.text ++ after) := by
  refine ⟨by decide, (compile_confines {} branchingReply [1, 0] (by decide)).resolve_left ?_⟩
  rintro ⟨result, h⟩
  have hinj : ∀ statements text text',
      assemble {} statements [text] = assemble {} statements [text'] → text = text' := by
    intro statements text text' heq
    simpa [assemble, String.append_assoc] using heq
  have hsame := hinj [] _ _ (Except.ok.inj ((h ⟨"a", by decide⟩).trans (h ⟨"b", by decide⟩).symm))
  exact absurd hsame (by decide +kernel)

end BlockBot
