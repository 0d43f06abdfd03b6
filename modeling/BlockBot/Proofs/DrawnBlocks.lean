import BlockBot.Sample.Blocks
import BlockBot.Proofs.BranchConditions
import BlockBot.Proofs.OneLine
import BlockBot.Proofs.Segmentation

/-!
# What is drawn

A fact about all samples is a fact about all streams of words. It is proved along the draw, with one
rule for each way to put draws together (`Draw.Always`), and never by looking at a word. What comes
out in the end is a grammar of drawn blocks: events have a known trigger (`DrawnEvent`), and actions
have a known sub-type and, if they are branches or loops, a body of actions drawn one level deeper
(`DrawnAction`).
-/

namespace BlockBot.Sample

open BlockBot.Json BlockBot.Text

/-! ## All outcomes of a draw -/

namespace Draw

variable {α β : Type}

/-- Whatever the words are and wherever it starts, a draw comes out like this. -/
def Always (draw : Draw α) (P : α → Prop) : Prop :=
  ∀ words position, P ((draw.run words).run position).1

namespace Always

variable {P : α → Prop} {Q : β → Prop} {draw : Draw α} {next : α → Draw β}

theorem pure {a : α} (h : P a) : Always (pure a) P :=
  fun _ _ => h

theorem bind (h : Always draw P) (hnext : ∀ a, P a → Always (next a) Q) :
    Always (draw >>= next) Q := by
  intro words position
  exact hnext _ (h words position) words _

/-- Where it does not matter what is drawn first. -/
theorem after (hnext : ∀ a, Always (next a) Q) : Always (draw >>= next) Q := by
  intro words position
  exact hnext _ words _

theorem times (h : Always draw P) (n : Nat) :
    Always (draw.times n) fun xs => xs.length = n ∧ ∀ x ∈ xs, P x := by
  induction n with
  | zero => exact .pure ⟨rfl, by simp⟩
  | succ n ih =>
      refine .bind h fun x hx => .bind ih fun xs hxs => .pure ⟨?_, ?_⟩
      · rw [List.length_cons, hxs.1]
      · exact List.forall_mem_cons.mpr ⟨hx, hxs.2⟩

end Always

theorem always_oneOf (first : α) (rest : List α) :
    Always (oneOf first rest) (· ∈ first :: rest) := by
  refine .after fun i => .pure ?_
  cases h : (first :: rest)[i]? with
  | none => exact List.mem_cons_self
  | some x => exact List.mem_of_getElem? h

end Draw

open Draw

/-! ## The grammar of drawn blocks -/

/-- A drawn event block: its trigger is known, and it has no body. -/
structure DrawnEvent (b : Block) : Prop where
  kind : b.kind = .event
  children : b.children = []
  trigger : ∃ t : Trigger, b.data.text? "eventType" = some t.tag

/-- `DrawnAction depth b`: a drawn action with at most `depth` levels of branches and loops. -/
inductive DrawnAction : Nat → Block → Prop
  | reply {depth b kind} :
      b.kind = .reply → b.children = [] → replyKind? b.data = some kind → DrawnAction depth b
  | setting {depth b kind} : b.kind = .setting → b.children = [] → settingKind? b.data = some kind →
      DrawnAction depth b
  | wait {depth b} :
      b.kind = .control → b.children = [] → controlKind? b.data = some .wait → DrawnAction depth b
  | branch {depth b} :
      b.kind = .control → controlKind? b.data = some .branch → OneLine (branchCondition b.data) →
      (∀ c ∈ b.children, DrawnAction depth c) → DrawnAction (depth + 1) b
  | loop {depth b} : b.kind = .control → controlKind? b.data = some .loop →
      (∀ c ∈ b.children, DrawnAction depth c) → DrawnAction (depth + 1) b

theorem always_event : Always event DrawnEvent := by
  refine .after fun trigger => ?_
  have hplain : DrawnEvent (Block.withText { kind := .event } "eventType" trigger.tag) :=
    ⟨rfl, rfl, trigger, Block.text?_withTag _ "eventType" trigger⟩
  have hmore : ∀ {b : Block} {key : String} (v : Value), DrawnEvent b → key ≠ "eventType" →
      DrawnEvent (b.withData key v) := by
    intro b key v hb hkey
    obtain ⟨t, ht⟩ := hb.trigger
    exact ⟨hb.kind, hb.children, t, (Block.text?_withData hkey v).trans ht⟩
  cases trigger with
  | messageText =>
      refine .after fun mode => .after fun pattern => .after fun caseSensitive => .pure ?_
      exact hmore _ (hmore _ (hmore _ hplain (by decide)) (by decide)) (by decide)
  | postback => exact .after fun n => .pure (hmore _ hplain (by decide))
  | _ => exact .pure hplain

/-! ## Actions -/

theorem always_reply (depth : Nat) : Always reply (DrawnAction depth) := by
  refine .after fun kind => ?_
  have hkind : replyKind? (Block.withText { kind := .reply } "replyType" kind.tag).data =
      some kind :=
    Block.ofTag?_withTag _ "replyType" kind
  have hmore : ∀ {b : Block} {key : String} (v : Value), replyKind? b.data = some kind →
      key ≠ "replyType" → replyKind? (b.withData key v).data = some kind := by
    intro b key v hb hkey
    rwa [replyKind?, Block.text?_withData hkey]
  cases kind with
  | text => exact .after fun n => .pure (.reply rfl rfl (hmore _ hkind (by decide)))
  | image => exact .pure (.reply rfl rfl (hmore _ hkind (by decide)))
  | flex => exact .pure (.reply rfl rfl (hmore _ hkind (by decide)))
  | sticker =>
      exact .after fun n => .pure (.reply rfl rfl (hmore _ (hmore _ hkind (by decide)) (by decide)))

theorem always_setting (depth : Nat) : Always setting (DrawnAction depth) := by
  refine .after fun kind => .after fun name => ?_
  have hkind :
      settingKind? ((Block.withText { kind := .setting } "settingType" kind.tag).withText
        "variableName" name).data = some kind := by
    rw [settingKind?, Block.text?_withText (by decide)]
    exact Block.ofTag?_withTag _ "settingType" kind
  cases kind with
  | setVariable =>
      refine .after fun n => .pure (.setting rfl rfl (?_ : _ = some .setVariable))
      rwa [settingKind?, Block.text?_withData (by decide)]
  | getVariable => exact .pure (.setting rfl rfl hkind)
  | saveUserData => exact .pure (.setting rfl rfl hkind)

theorem always_leaf (depth : Nat) : Always leaf (DrawnAction depth) := by
  refine .after fun isReply => ?_
  cases isReply with
  | true => exact always_reply depth
  | false => exact always_setting depth

/-- A comparison of the message or the user is a single line. -/
theorem oneLine_comparison {subject : Subject} (h : subject ≠ .rawVariable)
    (operator value : String) : OneLine (comparison subject operator value) := by
  have hoperator : OneLine (operatorText (words operator)) := by
    intro hmem
    exact absurd (onlySpaces_operatorText operator _ hmem (by decide)) (by decide)
  have hsubject : OneLine (subject.expression value) := by
    cases subject with
    | message => exact .of_chars (by decide)
    | userId => exact .of_chars (by decide)
    | rawVariable => exact absurd rfl h
  have hspace : OneLine " " := .of_chars (by decide)
  unfold comparison
  split
  · exact ((((oneLine_quote value).append hspace).append hoperator).append hspace).append hsubject
  · exact (((hsubject.append hspace).append hoperator).append hspace).append (oneLine_quote value)

/-- A branch that compares the message or the user, and has no other condition. -/
theorem oneLine_branchCondition {data : Fields} {subject : Subject}
    (hsubject : subject ≠ .rawVariable) (htext : data.text? "conditionType" = some subject.tag)
    (hnone : data.value? "condition" = none) : OneLine (branchCondition data) := by
  have hnested : ¬ HasNested data := by
    rintro ⟨fields, hfields⟩
    simp [hnone] at hfields
  rw [branchCondition_of_known hnested (Fields.text?_eq_some.mp htext)]
  exact oneLine_comparison hsubject _ _

/-- A control block whose body is drawn one level deeper. -/
theorem always_control {maxActions depth : Nat} {inner : Draw Block}
    (h : Always inner (DrawnAction depth)) :
    Always (control maxActions inner) (DrawnAction (depth + 1)) := by
  refine .after fun kind => ?_
  have hkind : controlKind? (Block.withText { kind := .control } "controlType" kind.tag).data =
      some kind :=
    Block.ofTag?_withTag _ "controlType" kind
  cases kind with
  | wait =>
      refine .after fun n => .pure (.wait rfl rfl ?_)
      rwa [controlKind?, Block.text?_withData (by decide)]
  | branch =>
      refine .bind (always_oneOf "message" ["userId"]) fun subject hsubject => ?_
      refine .after fun operator => .after fun count => .bind (h.times count)
        fun children hchildren => .pure ?_
      refine .branch rfl ?_ ?_ hchildren.2
      · rwa [Block.data_withChildren, controlKind?, Block.text?_withText (by decide),
          Block.text?_withText (by decide), Block.text?_withText (by decide)]
      · obtain ⟨subject, hraw, rfl⟩ : ∃ s : Subject, s ≠ .rawVariable ∧ subject = s.tag := by
          simp only [List.mem_cons, List.not_mem_nil, or_false] at hsubject
          rcases hsubject with rfl | rfl
          · exact ⟨.message, by decide, rfl⟩
          · exact ⟨.userId, by decide, rfl⟩
        refine oneLine_branchCondition hraw ?_ ?_
        · rw [Block.data_withChildren, Block.text?_withText (by decide),
            Block.text?_withText (by decide)]
          exact Block.text?_withTag _ "conditionType" subject
        · rw [Block.data_withChildren, Block.value?_withText (by decide),
            Block.value?_withText (by decide), Block.value?_withText (by decide),
            Block.value?_withText (by decide)]
          rfl
  | loop =>
      refine .after fun n => .after fun count =>
        .bind (h.times count) fun children hchildren => .pure ?_
      refine .loop rfl ?_ hchildren.2
      rwa [Block.data_withChildren, controlKind?, Block.text?_withData (by decide)]

theorem always_action (maxActions depth : Nat) :
    Always (action maxActions depth) (DrawnAction depth) := by
  induction depth with
  | zero => exact always_leaf 0
  | succ depth ih =>
      refine .after fun isControl => ?_
      cases isControl with
      | true => exact always_control ih
      | false => exact always_leaf (depth + 1)

/-! ## Bots -/

/-- A drawn handler: an event block and its actions. -/
structure DrawnSegment (depth : Nat) (g : Segment) : Prop where
  event : DrawnEvent g.event
  actions : ∀ b ∈ g.others, DrawnAction depth b

theorem always_handler (shape : Shape) : Always (handler shape) fun bs =>
    ∃ g : Segment, bs = g.blocks ∧ DrawnSegment shape.maxDepth g := by
  refine .bind always_event fun e he => .after fun count => ?_
  refine .bind ((always_action shape.maxActions shape.maxDepth).times count)
    fun actions hactions => ?_
  exact .pure ⟨⟨e, actions⟩, rfl, he, hactions.2⟩

theorem exists_segments {P : Segment → Prop} {handlers : List (List Block)}
    (h : ∀ bs ∈ handlers, ∃ g : Segment, bs = g.blocks ∧ P g) :
    ∃ segments : List Segment, segments.length = handlers.length ∧
      handlers.flatten = segments.flatMap Segment.blocks ∧ ∀ g ∈ segments, P g := by
  induction handlers with
  | nil => exact ⟨[], rfl, rfl, by simp⟩
  | cons bs handlers ih =>
      rw [List.forall_mem_cons] at h
      obtain ⟨g, rfl, hg⟩ := h.1
      obtain ⟨segments, hlength, hjoined, hsegments⟩ := ih h.2
      refine ⟨g :: segments, ?_, ?_, List.forall_mem_cons.mpr ⟨hg, hsegments⟩⟩
      · rw [List.length_cons, List.length_cons, hlength]
      · rw [List.flatten_cons, List.flatMap_cons, hjoined]

/-- A bot is as many drawn handlers as were asked for, one after the other. -/
theorem always_bot (shape : Shape) : Always (bot shape) fun bs =>
    ∃ segments : List Segment, segments.length = shape.handlers ∧
      bs = segments.flatMap Segment.blocks ∧ ∀ g ∈ segments, DrawnSegment shape.maxDepth g := by
  refine .bind ((always_handler shape).times shape.handlers) fun handlers hhandlers => .pure ?_
  rw [← hhandlers.1]
  exact exists_segments hhandlers.2

end BlockBot.Sample
