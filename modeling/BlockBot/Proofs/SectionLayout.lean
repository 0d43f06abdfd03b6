import BlockBot.Proofs.Emission
import BlockBot.Proofs.Outline
import BlockBot.Proofs.Segmentation

/-!
# Sections have the structure of their blocks

A handler's section is all that its blocks leave in a program. Seen as lines, it is an outline: the
statements of the blocks, one level deeper for each body, below the head of the function and the
guard. Grouping the lines by their indentation gives this outline back, and with it the tree of the
blocks, which is told by the texts of their fields (`Outlined`).
-/

namespace BlockBot

open BlockBot.Json BlockBot.Code BlockBot.Text

/-! ## Texts of emitted lines -/

/-- The first letters of the lines that blocks say. -/
def firstLetters : List Char :=
  ['r', 'v', 'p', 't']

theorem head?_ident (name : String) : (ident name).toList.head? = some 'v' :=
  congrArg List.head? String.toList_ofList

section

variable {b : Block} {s t : Session} {text : String}

theorem Says.head (h : Says b s text t) : ∃ c ∈ firstLetters, text.toList.head? = some c := by
  cases h with
  | reply _ =>
      exact ⟨'r', by decide, head?_toList_append (head?_toList_append (head?_ofList _ _))⟩
  | setVariable _ =>
      exact ⟨'v', by decide,
        head?_toList_append (head?_toList_append (head?_toList_append (head?_ofList _ _)))⟩
  | getVariable _ =>
      exact ⟨'v', by decide, head?_toList_append (head?_toList_append (head?_toList_append
        (head?_toList_append (head?_ident _))))⟩
  | saveUserData _ =>
      exact ⟨'p', by decide, head?_toList_append (head?_toList_append (head?_ofList _ _))⟩
  | wait _ => exact ⟨'t', by decide, head?_toList_append (head?_toList_append (head?_ofList _ _))⟩

theorem Says.flush (h : Says b s text t) : Flush text := by
  obtain ⟨c, hc, htext⟩ := h.head
  refine ⟨c, htext, ?_⟩
  rintro rfl
  simp [firstLetters] at hc

theorem Says.not_header (h : Says b s text t) : Outline.isHeader text = false := by
  obtain ⟨c, hc, htext⟩ := h.head
  have hletters : ∀ c ∈ firstLetters, c ∉ ['d', 'i', 'e', 'f'] := by simp [firstLetters]
  exact Outline.not_isHeader_of_head htext (hletters c hc)

theorem Says.isSimple (h : Says b s text t) : b.IsSimple := by
  cases h with
  | reply hkind => exact .inl ⟨rfl, replyKind?_isSome.mp (Option.isSome_of_eq_some hkind)⟩
  | wait hkind => exact .inr (.inr ⟨rfl, controlKind?_eq_some.mp hkind⟩)
  | setVariable hkind | getVariable hkind | saveUserData hkind =>
      exact .inr (.inl ⟨rfl, settingKind?_isSome.mp (Option.isSome_of_eq_some hkind)⟩)

end

theorem isHeader_else : Outline.isHeader "else:" = true := by
  decide

theorem flush_if (condition : String) : Flush ("if " ++ condition ++ ":") :=
  ⟨'i', head?_toList_append (head?_toList_append (head?_ofList _ _)), by decide⟩

theorem isHeader_if (condition : String) : Outline.isHeader ("if " ++ condition ++ ":") = true :=
  Outline.isHeader_of_begins (List.mem_cons_of_mem _ List.mem_cons_self)
    (prefix_toList_append "if " _ _)

theorem head?_for (count : Nat) :
    ("for _ in range(" ++ toString count ++ "):").toList.head? = some 'f' :=
  head?_toList_append (head?_toList_append (head?_ofList _ _))

theorem flush_for (count : Nat) : Flush ("for _ in range(" ++ toString count ++ "):") :=
  ⟨'f', head?_for count, by decide⟩

theorem isHeader_for (count : Nat) :
    Outline.isHeader ("for _ in range(" ++ toString count ++ "):") = true := by
  have hfor : "for ".toList <+: "for _ in range(".toList := by decide
  exact Outline.isHeader_of_begins (by decide)
    (hfor.trans (prefix_toList_append "for _ in range(" _ _))

/-- What holds of the fixed texts and of every text that blocks emit holds of all texts of the
emitted statements. -/
theorem Emits.forall_texts {P : String → Prop} {bs : List Block} {s t : Session}
    {stmts : List Stmt} (h : Emits bs s stmts t) (hpass : P "pass") (helse : P "else:")
    (hloop : ∀ count : Nat, P ("for _ in range(" ++ toString count ++ "):"))
    (hline : ∀ {b s text t}, Says b s text t → P text)
    (hbranch : ∀ b ∈ Block.reached bs, b.kind = .control → controlKind? b.data = some .branch →
      P ("if " ++ branchCondition b.data ++ ":")) :
    ∀ text ∈ Outline.texts (Stmt.outlines stmts), P text := by
  -- on the emission: what it comes to in a body or after a block is also what it comes to in all
  induction h with
  | done => simp [Stmt.outlines]
  | skipped _ _ ih => exact ih fun b hb => hbranch b (Block.mem_reached_cons hb)
  | line hsaid _ ih =>
      simp only [Stmt.outlines, Outline.texts_cons, Outline.texts_nil, List.nil_append,
        List.forall_mem_cons]
      exact ⟨hline hsaid, ih fun b hb => hbranch b (Block.mem_reached_cons hb)⟩
  | branch hkind _ _ _ ihBody ih =>
      rw [Block.reached_cons_of_opens (by simp [opensBody_eq, hkind])] at hbranch
      simp only [List.forall_mem_cons, List.forall_mem_append] at hbranch
      obtain ⟨hhere, hbody, hothers⟩ := hbranch
      simp only [Stmt.outlines, Outline.texts_cons, Outline.texts_nil, List.append_nil,
        List.forall_mem_cons, List.forall_mem_append, Outline.forall_texts_orPass hpass]
      exact ⟨hhere trivial hkind, ihBody hbody, helse, ⟨hpass, by simp⟩, ih hothers⟩
  | loop hkind _ _ _ ihBody ih =>
      rw [Block.reached_cons_of_opens (by simp [opensBody_eq, hkind])] at hbranch
      simp only [List.forall_mem_cons, List.forall_mem_append] at hbranch
      obtain ⟨-, hbody, hothers⟩ := hbranch
      simp only [Stmt.outlines, Outline.texts_cons, List.forall_mem_cons, List.forall_mem_append,
        Outline.forall_texts_orPass hpass]
      exact ⟨hloop _, ihBody hbody, ih hothers⟩

theorem Emits.flush {bs : List Block} {s t : Session} {stmts : List Stmt}
    (h : Emits bs s stmts t) : ∀ text ∈ Outline.texts (Stmt.outlines stmts), Flush text :=
  h.forall_texts Outline.flush_pass ⟨'e', rfl, by decide⟩ flush_for Says.flush
    fun _ _ _ _ => flush_if _

/-! ## Statements as outlines -/

/-- `Outlined bs os`: the outlines `os` are those of the blocks `bs`, in their order. A reply, a
setting or a wait is a single line, a branch has its children as body and an alternative that does
nothing, a loop has its children as body, and any other block is left out with its children. -/
inductive Outlined : List Block → List Outline → Prop
  | nil : Outlined [] []
  | skipped {b bs os} : ¬ b.Recognised → Outlined bs os → Outlined (b :: bs) os
  | simple {b bs text os} : b.IsSimple → Outline.isHeader text = false → Outlined bs os →
      Outlined (b :: bs) (⟨text, []⟩ :: os)
  | branch {b bs condition body os} : b.IsBranch → Outlined b.children body → Outlined bs os →
      Outlined (b :: bs)
        (⟨"if " ++ condition ++ ":", Outline.orPass body⟩ :: ⟨"else:", [⟨"pass", []⟩]⟩ :: os)
  | loop {b bs body os} {count : Nat} : b.IsLoop → Outlined b.children body → Outlined bs os →
      Outlined (b :: bs)
        (⟨"for _ in range(" ++ toString count ++ "):", Outline.orPass body⟩ :: os)

theorem Emits.outlined {bs : List Block} {s t : Session} {stmts : List Stmt}
    (h : Emits bs s stmts t) : Outlined bs (Stmt.outlines stmts) := by
  induction h with
  | done =>
      rw [Stmt.outlines]
      exact .nil
  | skipped hidle _ ih =>
      refine .skipped (fun hb => ?_) ih
      rw [isIdle_eq_false.mpr hb] at hidle
      exact Bool.false_ne_true hidle
  | line hsaid _ ih =>
      rw [Stmt.outlines]
      exact .simple hsaid.isSimple hsaid.not_header ih
  | branch hkind _ _ _ ihBody ih =>
      rw [Stmt.outlines]
      exact .branch ⟨rfl, controlKind?_eq_some.mp hkind⟩ ihBody ih
  | loop hkind _ _ _ ihBody ih =>
      rw [Stmt.outlines]
      exact .loop ⟨rfl, controlKind?_eq_some.mp hkind⟩ ihBody ih

theorem Outlined.regular {bs : List Block} {os : List Outline} (h : Outlined bs os) :
    Outline.Regular os := by
  induction h with
  | nil => exact .nil
  | skipped _ _ ih => exact ih
  | simple _ htext _ ih => exact Outline.Regular.line htext ih
  | branch _ _ _ ihBody ih =>
      -- the alternative is a header like others, with nothing to stand below it
      have helse := Outline.Regular.header isHeader_else Outline.Regular.nil ih
      exact Outline.Regular.header (isHeader_if _) ihBody helse
  | loop _ _ _ ihBody ih => exact Outline.Regular.header (isHeader_for _) ihBody ih

def isConditional (text : String) : Bool :=
  "if ".toList.isPrefixOf text.toList

/-- Every conditional statement is followed, at its own level, by one alternative that does nothing,
and there is no other alternative. -/
inductive Paired : List Outline → Prop
  | nil : Paired []
  | other {text body os} : isConditional text = false → text ≠ "else:" → Paired body → Paired os →
      Paired (⟨text, body⟩ :: os)
  | pair {text body os} : isConditional text = true → Paired body → Paired os →
      Paired (⟨text, body⟩ :: ⟨"else:", [⟨"pass", []⟩]⟩ :: os)

theorem isConditional_if (condition : String) :
    isConditional ("if " ++ condition ++ ":") = true :=
  List.isPrefixOf_iff_prefix.mpr (prefix_toList_append "if " condition ":")

/-- A line with another first letter has no part in a pair. -/
theorem paired_other {text : String} {c : Char} {body os : List Outline}
    (htext : text.toList.head? = some c) (hc : c ∉ ['i', 'e']) (hbody : Paired body)
    (hos : Paired os) : Paired (⟨text, body⟩ :: os) := by
  refine .other ?_ ?_ hbody hos
  · rw [← Bool.not_eq_true]
    intro hif
    have hsame := head?_eq_of_begins (head?_ofList 'i' ['f', ' '])
      (List.isPrefixOf_iff_prefix.mp hif)
    rw [htext, Option.some.injEq] at hsame
    simp [hsame] at hc
  · rintro rfl
    have hsame : c = 'e' := (Option.some.inj htext).symm
    simp [hsame] at hc

theorem paired_orPass {os : List Outline} (h : Paired os) : Paired (Outline.orPass os) := by
  cases os with
  | nil => exact paired_other (c := 'p') rfl (by decide) .nil .nil
  | cons o os => exact h

theorem Emits.paired {bs : List Block} {s t : Session} {stmts : List Stmt}
    (h : Emits bs s stmts t) : Paired (Stmt.outlines stmts) := by
  induction h with
  | done =>
      rw [Stmt.outlines]
      exact .nil
  | skipped _ _ ih => exact ih
  | line hsaid _ ih =>
      rw [Stmt.outlines]
      obtain ⟨c, hc, htext⟩ := hsaid.head
      have hletters : ∀ c ∈ firstLetters, c ∉ ['i', 'e'] := by simp [firstLetters]
      exact paired_other htext (hletters c hc) .nil ih
  | branch _ _ _ _ ihBody ih =>
      rw [Stmt.outlines]
      exact .pair (isConditional_if _) (paired_orPass ihBody) ih
  | loop _ _ _ _ ihBody ih =>
      rw [Stmt.outlines]
      exact paired_other (head?_for _) (by decide) (paired_orPass ihBody) ih

/-! ## Sections as outlines -/

theorem Stmt.outlines_append (ss ss' : List Stmt) :
    Stmt.outlines (ss ++ ss') = Stmt.outlines ss ++ Stmt.outlines ss' := by
  induction ss with
  | nil => simp [Stmt.outlines]
  | cons s ss ih => cases s <;> simp [Stmt.outlines, ih]

/-- The assignments at the start of every function. -/
def assignments : List Outline :=
  [⟨"message = message_text(event)", []⟩,
   ⟨"user_id = sender_id(event)", []⟩,
   ⟨"postback_data = postback_payload(event)", []⟩,
   ⟨"variables = user_variables.setdefault(user_id, \x7b\x7d)", []⟩]

theorem assignments_letters : ∀ text ∈ Outline.texts assignments,
    ∃ c ∈ ['m', 'u', 'p', 'v'], text.toList.head? = some c := by
  simp only [assignments, Outline.texts_cons, Outline.texts_nil, List.append_nil, List.nil_append,
    List.forall_mem_cons]
  exact ⟨⟨'m', by decide, head?_ofList _ _⟩, ⟨'u', by decide, head?_ofList _ _⟩,
    ⟨'p', by decide, head?_ofList _ _⟩, ⟨'v', by decide, head?_ofList _ _⟩, by simp⟩

theorem flush_assignments : ∀ text ∈ Outline.texts assignments, Flush text := by
  intro text htext
  obtain ⟨c, hc, hhead⟩ := assignments_letters text htext
  have hletters : ∀ c ∈ ['m', 'u', 'p', 'v'], c ≠ ' ' := by simp
  exact ⟨c, hhead, hletters c hc⟩

theorem regular_assignments : Outline.Regular assignments := by
  have hplain : ∀ text ∈ Outline.texts assignments, Outline.isHeader text = false := by
    intro text htext
    obtain ⟨c, hc, hhead⟩ := assignments_letters text htext
    have hletters : ∀ c ∈ ['m', 'u', 'p', 'v'], c ∉ ['d', 'i', 'e', 'f'] := by simp
    exact Outline.not_isHeader_of_head hhead (hletters c hc)
  simp only [assignments, Outline.texts_cons, Outline.texts_nil, List.append_nil, List.nil_append,
    List.forall_mem_cons] at hplain
  obtain ⟨h₁, h₂, h₃, h₄, -⟩ := hplain
  exact Outline.Regular.line h₁
    (Outline.Regular.line h₂ (Outline.Regular.line h₃ (Outline.Regular.line h₄ .nil)))

namespace Handler

/-- The outline of a function's body, for the outline of the actions: the fixed assignments and then
the actions, under the guard if there is one. -/
def bodyOutlines (h : Handler) (actions : List Outline) : List Outline :=
  assignments ++
    h.guard.elim actions fun condition => [⟨"if " ++ condition ++ ":", Outline.orPass actions⟩]

def comment (h : Handler) : String :=
  "# Event handler " ++ toString h.index ++ ": " ++ h.trigger.tag

def decorator (h : Handler) : String :=
  "@on(\"" ++ h.trigger.tag ++ "\")"

def signature (h : Handler) : String :=
  "def " ++ handlerName h.trigger h.index ++ "(event, reply_messages):"

theorem headLines_eq (h : Handler) : h.headLines = [h.comment, h.decorator, h.signature] :=
  rfl

/-- The outline of a handler's section, for the outline of its actions. -/
def outlines (h : Handler) (actions : List Outline) : List Outline :=
  [⟨h.comment, []⟩, ⟨h.decorator, []⟩, ⟨h.signature, h.bodyOutlines actions⟩]

variable {h : Handler} {unit : String} {actions : List Stmt}

theorem outlines_stmts :
    Stmt.outlines (h.stmts actions) = h.bodyOutlines (Stmt.outlines actions) := by
  have hprologue : Stmt.outlines prologue = assignments := by
    simp [prologue, assignments, Stmt.outlines]
  unfold Handler.stmts Handler.bodyOutlines
  rw [Stmt.outlines_append, hprologue]
  cases h.guard with
  | none => rfl
  | some condition => simp [Stmt.outlines]

/-- What holds of the fixed texts and of those of the actions holds of all texts in the body. -/
theorem forall_texts_bodyOutlines {P : String → Prop} {os : List Outline}
    (hfixed : ∀ text ∈ Outline.texts assignments, P text) (hpass : P "pass")
    (hguard : ∀ condition ∈ h.guard, P ("if " ++ condition ++ ":"))
    (hos : ∀ text ∈ Outline.texts os, P text) :
    ∀ text ∈ Outline.texts (h.bodyOutlines os), P text := by
  unfold bodyOutlines
  rw [Outline.texts_append, List.forall_mem_append]
  refine ⟨hfixed, ?_⟩
  cases hcondition : h.guard with
  | none => exact hos
  | some condition =>
      simp only [Option.elim_some, Outline.texts_cons, Outline.texts_nil, List.append_nil,
        List.forall_mem_cons, Outline.forall_texts_orPass hpass]
      exact ⟨hguard condition hcondition, hos⟩

theorem flush_bodyOutlines {os : List Outline} (hos : ∀ text ∈ Outline.texts os, Flush text) :
    ∀ text ∈ Outline.texts (h.bodyOutlines os), Flush text :=
  forall_texts_bodyOutlines flush_assignments Outline.flush_pass (fun _ _ => flush_if _) hos

theorem head?_comment (h : Handler) : h.comment.toList.head? = some '#' :=
  head?_toList_append (head?_toList_append (head?_toList_append (head?_ofList _ _)))

theorem head?_decorator (h : Handler) : h.decorator.toList.head? = some '@' :=
  head?_toList_append (head?_toList_append (head?_ofList _ _))

theorem head?_signature (h : Handler) : h.signature.toList.head? = some 'd' :=
  head?_toList_append (head?_toList_append (head?_ofList _ _))

theorem flush_outlines {os : List Outline} (hos : ∀ text ∈ Outline.texts os, Flush text) :
    ∀ text ∈ Outline.texts (h.outlines os), Flush text := by
  simp only [outlines, Outline.texts_cons, Outline.texts_nil, List.append_nil, List.nil_append,
    List.forall_mem_cons]
  exact ⟨⟨'#', h.head?_comment, by decide⟩, ⟨'@', h.head?_decorator, by decide⟩,
    ⟨'d', h.head?_signature, by decide⟩, flush_bodyOutlines hos⟩

/-- The lines below the head of a section. -/
def bodyLines (h : Handler) (unit : String) (actions : List Stmt) : List String :=
  indent unit (Stmt.linesOfAll unit (h.stmts actions))

theorem bodyLines_eq_rows (hactions : ∀ text ∈ Outline.texts (Stmt.outlines actions), Flush text) :
    h.bodyLines unit actions =
      (Outline.rows 1 (h.bodyOutlines (Stmt.outlines actions))).map (Row.line unit) := by
  have hbody := flush_bodyOutlines (h := h) hactions
  rw [← outlines_stmts] at hbody
  unfold bodyLines
  rw [Stmt.linesOfAll_eq_rows hbody, Outline.indent_rows hbody, outlines_stmts]

/-- A section is written as the rows of its outline. -/
theorem lines_eq_rows (hactions : ∀ text ∈ Outline.texts (Stmt.outlines actions), Flush text) :
    h.lines unit actions =
      (Outline.rows 0 (h.outlines (Stmt.outlines actions))).map (Row.line unit) := by
  change h.headLines ++ h.bodyLines unit actions = _
  rw [headLines_eq, bodyLines_eq_rows hactions, outlines]
  simp only [Outline.rows_cons, Outline.rows_nil, List.append_nil, List.nil_append, List.map_cons,
    Row.line_zero, List.cons_append]

theorem regular_bodyOutlines {os : List Outline} (hos : Outline.Regular os) :
    Outline.Regular (h.bodyOutlines os) := by
  unfold bodyOutlines
  refine regular_assignments.append ?_
  cases h.guard with
  | none => exact hos
  | some condition => exact Outline.Regular.header (isHeader_if condition) hos .nil

theorem regular_outlines {os : List Outline} (hos : Outline.Regular os) :
    Outline.Regular (h.outlines os) := by
  have hdef : Outline.isHeader h.signature = true :=
    Outline.isHeader_of_begins List.mem_cons_self (prefix_toList_append "def " _ _)
  have hbody : h.bodyOutlines os ≠ [] := by simp [bodyOutlines, assignments]
  exact Outline.Regular.line (Outline.not_isHeader_of_head h.head?_comment (by decide))
    (Outline.Regular.line (Outline.not_isHeader_of_head h.head?_decorator (by decide))
      (.cons (iff_of_true hdef hbody) (regular_bodyOutlines hos) .nil))

end Handler

/-! ## Sections of a program -/

/-- The section of the handler `h` of the segment `g`, whose actions are `actions`, as a reader of
its lines sees it who knows the unit of indentation. -/
structure SectionLayout (options : Options) (unit : String) (g : Segment) (h : Handler)
    (actions : List Stmt) : Prop where
  blocks : h.actions = g.others.filter Block.isAction
  /-- There is a guard if the event has a condition. -/
  guarded : h.guard.isSome = true ↔ Handler.AsksGuard h.trigger g.event.data
  /-- Each line is the unit, repeated, and a text that does not begin with a space. -/
  units : ∀ line ∈ h.lines options.unit actions,
    (Row.ofLine unit line).line unit = line ∧ Flush (Row.ofLine unit line).text
  /-- Each header has a body one level deeper, and nothing else has one. -/
  steps : Outline.Stepwise ((h.lines options.unit actions).map (Row.ofLine unit))
  /-- The actions are what the blocks say, in their order and with their nesting. -/
  emits : ∃ s t, s.options = options ∧ Emits h.actions s actions t
  outlined : Outlined h.actions (Stmt.outlines actions)
  /-- Each conditional statement among the actions has its alternative. -/
  paired : Paired (Stmt.outlines actions)
  /-- Grouping the lines by their indentation gives the tree of the section. -/
  tree : Outline.group ((h.lines options.unit actions).map (Row.ofLine unit)) =
    (h.outlines (Stmt.outlines actions)).map fun o => (0, o)

theorem Emits.sectionLayout {options : Options} {g : Segment} {trigger : Trigger} {index : Nat}
    {s t : Session} {actions : List Stmt} (hoptions : s.options = options)
    (hemits : Emits (g.handler trigger index).actions s actions t) :
    SectionLayout options (String.ofList (List.replicate (max options.indentWidth 1) ' ')) g
      (g.handler trigger index) actions := by
  change SectionLayout options options.unit g _ actions
  generalize hh : g.handler trigger index = h at hemits
  have hlines : h.lines options.unit actions =
      (Outline.rows 0 (h.outlines (Stmt.outlines actions))).map (Row.line options.unit) :=
    Handler.lines_eq_rows hemits.flush
  have hflush : ∀ r ∈ Outline.rows 0 (h.outlines (Stmt.outlines actions)), Flush r.text :=
    fun r hr => Handler.flush_outlines hemits.flush _ (Outline.text_mem_texts hr)
  have hread : ∀ r ∈ Outline.rows 0 (h.outlines (Stmt.outlines actions)),
      Row.ofLine options.unit (r.line options.unit) = r :=
    fun r hr => Row.ofLine_line rfl (Nat.le_max_right _ _) (hflush r hr)
  have hrows : (h.lines options.unit actions).map (Row.ofLine options.unit) =
      Outline.rows 0 (h.outlines (Stmt.outlines actions)) := by
    rw [hlines, List.map_map]
    exact (List.map_congr_left hread).trans (List.map_id _)
  -- reading the lines gives the rows of the outline, so all that is left is about outlines
  refine ⟨hh ▸ rfl, hh ▸ Handler.guardFor_isSome, ?_, ?_, ⟨s, t, hoptions, hemits⟩,
    hemits.outlined, hemits.paired, ?_⟩
  · rw [hlines, List.forall_mem_map]
    intro r hr
    rw [hread r hr]
    exact ⟨rfl, hflush r hr⟩
  · rw [hrows]
    exact (Handler.regular_outlines hemits.outlined.regular).stepwise 0
  · rw [hrows]
    exact Outline.group_rows _

/-- A program has one section for each segment of its root blocks whose event has a known trigger,
in their order, and the lines of a section show the blocks of its segment as a tree. -/
theorem compile_section_layout {options : Options} {bs : List Block} {program : String}
    (h : compile options bs = .ok program) :
    ∃ emitted s, emitProgram bs (.new options) = (.ok emitted, s) ∧
      program = assemble options (Import.statements s.imports) (sectionsOf options emitted) ∧
      emitted.map Prod.fst = (route bs (.new options)).1 ∧
      List.Forall₂ (fun p q => q.1.trigger = p.2 ∧
          SectionLayout options (String.ofList (List.replicate (max options.indentWidth 1) ' '))
            p.1 q.1 q.2)
        (recognised options (cut bs).2) emitted := by
  obtain ⟨emitted, s, hrun, rfl⟩ := compile_eq_ok.mp h
  obtain ⟨hhandlers, hactions⟩ := emitProgram_emits hrun
  have hsegments := route_forall₂ bs (.new options)
  rw [← hhandlers, List.forall₂_map_right_iff] at hsegments
  refine ⟨emitted, s, hrun, rfl, hhandlers, List.forall₂_iff_zip.mpr ⟨hsegments.length_eq, ?_⟩⟩
  intro p q hpq
  obtain ⟨index, hindex⟩ := (List.forall₂_iff_zip.mp hsegments).2 hpq
  obtain ⟨u, v, hoptions, hemits⟩ := hactions q (List.of_mem_zip hpq).2
  rw [hindex] at hemits ⊢
  exact ⟨rfl, hemits.sectionLayout hoptions⟩

/-- Two handlers. The first one has a guard, an empty loop in a branch, and a reply whose text looks
like the head of another handler. -/
def guardedBlocks : List Block :=
  [⟨none, .event, [("eventType", .string "message.text"), ("pattern", .string "hi\nthere")], []⟩,
   ⟨none, .control, [("controlType", .string "if"), ("condition", .string "x > 1")],
    [⟨none, .control, [("controlType", .string "loop")], []⟩]⟩,
   ⟨none, .reply,
    [("replyType", .string "text"), ("content", .string "ok\n@on(\"follow\")\ndef")], []⟩,
   ⟨none, .event, [("eventType", .string "follow")], []⟩]

theorem compile_section_layout_guarded :
    ∃ program emitted s, compile { indentWidth := 2 } guardedBlocks = .ok program ∧
      emitProgram guardedBlocks (.new { indentWidth := 2 }) = (.ok emitted, s) ∧
      emitted.map (fun p => p.1.lines "  " p.2) =
        [["# Event handler 1: message.text",
          "@on(\"message.text\")",
          "def handle_message_text_1(event, reply_messages):",
          "  message = message_text(event)",
          "  user_id = sender_id(event)",
          "  postback_data = postback_payload(event)",
          "  variables = user_variables.setdefault(user_id, \x7b\x7d)",
          "  if \"hi\\nthere\".lower() in message.lower():",
          "    if x > 1:",
          "      for _ in range(5):",
          "        pass",
          "    else:",
          "      pass",
          "    reply_messages.append(TextSendMessage(text=\"ok\\n@on(\\\"follow\\\")\\ndef\"))"],
         ["# Event handler 2: follow",
          "@on(\"follow\")",
          "def handle_follow_2(event, reply_messages):",
          "  message = message_text(event)",
          "  user_id = sender_id(event)",
          "  postback_data = postback_payload(event)",
          "  variables = user_variables.setdefault(user_id, \x7b\x7d)"]] ∧
      List.Forall₂ (fun p q => q.1.trigger = p.2 ∧
          SectionLayout { indentWidth := 2 } "  " p.1 q.1 q.2)
        (recognised { indentWidth := 2 } (cut guardedBlocks).2) emitted := by
  obtain ⟨emitted, s, hrun, -, -, hlayout⟩ :=
    compile_section_layout (show compile { indentWidth := 2 } guardedBlocks = .ok _ from rfl)
  refine ⟨_, emitted, s, rfl, hrun, ?_, hlayout⟩
  have hlines : Except.ok (emitted.map fun p => p.1.lines "  " p.2) =
      (emitProgram guardedBlocks (.new { indentWidth := 2 })).1.map
        (List.map fun p => p.1.lines "  " p.2) := by
    rw [hrun]
    rfl
  refine Except.ok.inj (hlines.trans ?_)
  decide +kernel

end BlockBot
