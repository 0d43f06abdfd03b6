import BlockBot.Proofs.SectionLayout
import BlockBot.Proofs.TextLines
import Mathlib.Data.List.DropRight

/-!
# Handlers are registered by events alone

A program registers a handler by a line that begins with `@on(`, above the function of the handler.
Read line by line, a program has exactly one such line for each event block with a known trigger, in
the order of these blocks, whatever texts its blocks contain: all other lines are fixed, or they
stand in the body of a function and begin with the unit of indentation. The one exception is an
expression of the author's own as the condition of a branch, if it has a line feed.
-/

namespace BlockBot

open BlockBot.Json BlockBot.Code BlockBot.Text

/-! ## Lines that register a handler -/

def isDecorator (line : String) : Bool :=
  "@on(".toList.isPrefixOf line.toList

/-- The lines that register a handler, each with the line below it. -/
def registrations (lines : List String) : List (String × String) :=
  (lines.zip lines.tail).filter fun p => isDecorator p.1

theorem not_isDecorator_of_head {line : String} {c : Char} (hline : line.toList.head? = some c)
    (hc : c ≠ '@') : isDecorator line = false := by
  rw [← Bool.not_eq_true]
  intro h
  have hsame :=
    head?_eq_of_begins (head?_ofList '@' ['o', 'n', '(']) (List.isPrefixOf_iff_prefix.mp h)
  rw [hline, Option.some.injEq] at hsame
  exact hc hsame

theorem registrations_cons_of_plain {line : String} (h : isDecorator line = false)
    (lines : List String) : registrations (line :: lines) = registrations lines := by
  cases lines with
  | nil => rfl
  | cons next lines => simp [registrations, h]

theorem registrations_cons_of_decorator {line : String} (h : isDecorator line = true)
    (next : String) (lines : List String) :
    registrations (line :: next :: lines) = (line, next) :: registrations (next :: lines) := by
  simp [registrations, h]

theorem registrations_append_of_plain {lines : List String}
    (h : ∀ line ∈ lines, isDecorator line = false) (rest : List String) :
    registrations (lines ++ rest) = registrations rest := by
  induction lines with
  | nil => rfl
  | cons line lines ih =>
      rw [List.forall_mem_cons] at h
      rw [List.cons_append, registrations_cons_of_plain h.1, ih h.2]

/-- No registering line is lost if the last line is not one. -/
theorem registrations_map_fst {last : String} (h : isDecorator last = false) (lines : List String) :
    (registrations (lines ++ [last])).map Prod.fst = (lines ++ [last]).filter isDecorator := by
  induction lines with
  | nil => simp [registrations, h]
  | cons line lines ih =>
      cases hline : isDecorator line with
      | false =>
          rw [List.cons_append, registrations_cons_of_plain hline, ih,
            List.filter_cons_of_neg (by simp [hline])]
      | true =>
          obtain ⟨next, rest, hrest⟩ : ∃ next rest, lines ++ [last] = next :: rest :=
            List.exists_cons_of_ne_nil (by simp)
          rw [hrest] at ih
          rw [List.cons_append, hrest, registrations_cons_of_decorator hline, List.map_cons, ih,
            List.filter_cons_of_pos hline]

/-! ## Fixed lines -/

theorem dropWhile_rescaledLine {unit : String} {width : Nat}
    (hunit : unit = String.ofList (List.replicate width ' ')) (line : String) :
    (rescaledLine unit line).toList.dropWhile (· == ' ') = line.toList.dropWhile (· == ' ') := by
  rw [toList_rescaledLine hunit, List.dropWhile_append_of_pos (by simp), List.dropWhile_idempotent]

/-- A single line that does not register a handler, however deep it is indented. -/
structure Inert (line : String) : Prop where
  oneLine : OneLine line
  plain : "@on(".toList.isPrefixOf (line.toList.dropWhile (· == ' ')) = false

namespace Inert

variable {line : String}

theorem of_chars {cs : List Char} (h : '\n' ∉ cs)
    (hplain : "@on(".toList.isPrefixOf (cs.dropWhile (· == ' ')) = false) :
    Inert (String.ofList cs) where
  oneLine := .of_chars h
  plain := by rwa [String.toList_ofList (l := cs)]

theorem not_decorator (h : Inert line) : isDecorator line = false := by
  rw [← Bool.not_eq_true]
  intro hdecorator
  have hhead :=
    head?_eq_of_begins (head?_ofList '@' ['o', 'n', '(']) (List.isPrefixOf_iff_prefix.mp hdecorator)
  obtain ⟨cs, hcs⟩ := List.head?_eq_some_iff.mp hhead
  -- a line that begins with `@` has no indentation to drop
  have hflush : line.toList.dropWhile (· == ' ') = line.toList := by
    rw [hcs]
    rfl
  have hplain := h.plain
  rw [hflush] at hplain
  exact Bool.false_ne_true (hplain.symm.trans hdecorator)

theorem rescaled (h : Inert line) {unit : String} {width : Nat}
    (hunit : unit = String.ofList (List.replicate width ' ')) : Inert (rescaledLine unit line) where
  oneLine := h.oneLine.rescaled hunit
  plain := by
    rw [dropWhile_rescaledLine hunit]
    exact h.plain

/-- It is the first character after the indentation that counts, not what follows. -/
theorem append {a b : String} {c : Char} {cs : List Char}
    (ha : a.toList.dropWhile (· == ' ') = c :: cs) (hc : c ≠ '@') (hone : OneLine (a ++ b)) :
    Inert (a ++ b) where
  oneLine := hone
  plain := by
    rw [← Bool.not_eq_true, String.toList_append, List.dropWhile_append, ha]
    intro hbegins
    exact hc (List.cons_prefix_cons.mp (List.isPrefixOf_iff_prefix.mp hbegins)).1.symm

end Inert

theorem inert_blank : Inert "" :=
  .of_chars (by decide) (by decide)

theorem inert_preamble : ∃ lines, preamble = textOfLines lines ∧ ∀ line ∈ lines, Inert line := by
  refine ⟨_, rfl, ?_⟩
  simp only [List.forall_mem_cons]
  -- one goal for each line, and one for the end of the list
  and_intros
  all_goals first | exact .of_chars (by decide) (by decide) | simp

theorem inert_epilogue (port : Nat) :
    ∃ lines, epilogue port = textOfLines lines ∧ ∀ line ∈ lines, Inert line := by
  refine ⟨_, rfl, ?_⟩
  simp only [List.forall_mem_cons]
  refine ⟨.of_chars (by decide) (by decide), ?_, .of_chars (by decide) (by decide), by simp⟩
  have hone : OneLine ("    port = int(os.environ.get(\"PORT\", " ++ natText port ++ "))") :=
    ((OneLine.of_chars (by decide)).append (oneLine_natText port)).append (.of_chars (by decide))
  rw [String.append_assoc] at hone ⊢
  exact .append (congrArg (List.dropWhile (· == ' ')) String.toList_ofList) (by decide) hone

theorem inert_statements (imports : List Import) :
    ∀ line ∈ Import.statements imports, Inert line := by
  intro line hline
  obtain ⟨i, -, rfl⟩ := List.mem_map.mp hline
  cases i <;> exact .of_chars (by decide) (by decide)

/-- A program is made of lines: those of its sections, with two blank lines above each, between
fixed ones. -/
theorem assemble_eq_textOfLines (options : Options) (imports : List Import)
    (sections : List (List String)) :
    ∃ before after, (∀ line ∈ before, Inert line) ∧ (∀ line ∈ after, Inert line) ∧
      assemble options (Import.statements imports) (sections.map textOfLines) =
        textOfLines (before ++ (sections.flatMap (["", ""] ++ ·) ++ after)) := by
  obtain ⟨first, hfirst, hinertFirst⟩ := inert_preamble
  obtain ⟨last, hlast, hinertLast⟩ := inert_epilogue options.port
  refine ⟨templateLines options.unit first ++
    (["", ""] ++ importsHeader :: Import.statements imports),
    ["", ""] ++ templateLines options.unit last, ?_, ?_, ?_⟩
  · simp only [List.forall_mem_append, List.forall_mem_cons]
    exact ⟨forall_mem_templateLines hinertFirst fun _ h => h.rescaled rfl,
      ⟨inert_blank, inert_blank, by simp⟩, .of_chars (by decide) (by decide),
      inert_statements imports⟩
  · simp only [List.forall_mem_append, List.forall_mem_cons]
    exact ⟨⟨inert_blank, inert_blank, by simp⟩,
      forall_mem_templateLines hinertLast fun _ h => h.rescaled rfl⟩
  · exact assemble_textOfLines options hfirst hlast
      (fun line hline => (hinertFirst line hline).oneLine)
      (fun line hline => (hinertLast line hline).oneLine) _ _

/-! ## Sections -/

/-- The branches that an emission comes to have conditions of a single line. -/
def OneLineConditions (bs : List Block) : Prop :=
  ∀ b ∈ Block.reached bs, b.kind = .control → controlKind? b.data = some .branch →
    OneLine (branchCondition b.data)

theorem Emits.oneLine {bs : List Block} {s t : Session} {stmts : List Stmt} (h : Emits bs s stmts t)
    (hconditions : OneLineConditions bs) :
    ∀ text ∈ Outline.texts (Stmt.outlines stmts), OneLine text :=
  h.forall_texts (.of_chars (by decide)) (.of_chars (by decide)) oneLine_loopHeader Says.oneLine
    fun b hb hkind hbranch => oneLine_ifHeader (hconditions b hb hkind hbranch)

theorem oneLine_assignments : ∀ text ∈ Outline.texts assignments, OneLine text := by
  simp only [assignments, Outline.texts_cons, Outline.texts_nil, List.append_nil, List.nil_append,
    List.forall_mem_cons]
  exact ⟨.of_chars (by decide), .of_chars (by decide), .of_chars (by decide),
    .of_chars (by decide), by simp⟩

theorem Row.oneLine_line {unit : String} {r : Row} (hunit : OneLine unit) (hr : OneLine r.text) :
    OneLine (r.line unit) := by
  refine OneLine.append (.of_chars ?_) hr
  rw [List.mem_flatten]
  rintro ⟨cs, hcs, hmem⟩
  exact hunit (List.eq_of_mem_replicate hcs ▸ hmem)

theorem Row.unit_prefix_line {unit : String} {r : Row} (hr : 1 ≤ r.level) :
    unit.toList <+: (r.line unit).toList := by
  obtain ⟨level, hlevel⟩ := Nat.exists_eq_add_of_le' hr
  unfold Row.line
  rw [String.toList_append, String.toList_ofList, hlevel, List.replicate_succ, List.flatten_cons,
    List.append_assoc]
  exact List.prefix_append _ _

/-- The lines below the head of a section are single lines, and none of them begins at the
margin. -/
def Handler.Indented (options : Options) (h : Handler) (actions : List Stmt) : Prop :=
  ∀ line ∈ h.bodyLines options.unit actions, OneLine line ∧ options.unit.toList <+: line.toList

theorem Emits.indented {h : Handler} {s t : Session} {actions : List Stmt} {options : Options}
    (hemits : Emits h.actions s actions t) (hconditions : OneLineConditions h.actions)
    (hguard : ∀ condition ∈ h.guard, OneLine condition) : h.Indented options actions := by
  have hunit : OneLine options.unit :=
    .of_chars fun hmem => absurd (List.eq_of_mem_replicate hmem) (by decide)
  have htexts : ∀ text ∈ Outline.texts (h.bodyOutlines (Stmt.outlines actions)), OneLine text :=
    Handler.forall_texts_bodyOutlines oneLine_assignments (.of_chars (by decide))
      (fun condition hcondition => oneLine_ifHeader (hguard condition hcondition))
      (hemits.oneLine hconditions)
  unfold Handler.Indented
  rw [Handler.bodyLines_eq_rows hemits.flush, List.forall_mem_map]
  intro r hr
  exact ⟨Row.oneLine_line hunit (htexts r.text (Outline.text_mem_texts hr)),
    Row.unit_prefix_line (Outline.level_le_of_mem_rows hr)⟩

/-- A line that begins with a unit of indentation registers nothing. -/
theorem not_isDecorator_of_unit {options : Options} {line : String}
    (h : options.unit.toList <+: line.toList) : isDecorator line = false := by
  have hwidth : max options.indentWidth 1 = max options.indentWidth 1 - 1 + 1 := by omega
  have hunit : options.unit.toList.head? = some ' ' := by
    rw [Options.unit, String.toList_ofList, hwidth, List.replicate_succ, List.head?_cons]
  exact not_isDecorator_of_head (head?_eq_of_begins hunit h) (by decide)

theorem Handler.isDecorator_decorator (h : Handler) : isDecorator h.decorator = true := by
  have hstart : "@on(".toList <+: "@on(\"".toList := by decide
  exact List.isPrefixOf_iff_prefix.mpr (hstart.trans (prefix_toList_append _ _ _))

theorem registrations_section (h : Handler) {body : List String}
    (hbody : ∀ line ∈ body, isDecorator line = false) (rest : List String) :
    registrations (h.headLines ++ body ++ rest) = (h.decorator, h.signature) ::
      registrations rest := by
  have hcomment := not_isDecorator_of_head h.head?_comment (by decide)
  have hsignature := not_isDecorator_of_head h.head?_signature (by decide)
  change registrations (h.comment :: h.decorator :: h.signature :: (body ++ rest)) = _
  rw [registrations_cons_of_plain hcomment, registrations_cons_of_decorator h.isDecorator_decorator,
    registrations_cons_of_plain hsignature, registrations_append_of_plain hbody]

/-- Sections register their handlers in their order. -/
theorem registrations_sections {options : Options} {emitted : List (Handler × List Stmt)}
    (hbody : ∀ p ∈ emitted, p.1.Indented options p.2) (rest : List String) :
    registrations ((emitted.map fun p => p.1.lines options.unit p.2).flatMap (["", ""] ++ ·) ++
      rest) = emitted.map (fun p => (p.1.decorator, p.1.signature)) ++ registrations rest := by
  induction emitted with
  | nil => rfl
  | cons p emitted ih =>
      rw [List.forall_mem_cons] at hbody
      have hblank : ∀ line ∈ ["", ""], isDecorator line = false := by decide
      rw [List.map_cons, List.flatMap_cons, List.append_assoc, List.append_assoc,
        registrations_append_of_plain hblank]
      have hplain : ∀ line ∈ p.1.bodyLines options.unit p.2, isDecorator line = false :=
        fun line hline => not_isDecorator_of_unit (hbody.1 line hline).2
      change registrations (p.1.headLines ++ p.1.bodyLines options.unit p.2 ++ _) = _
      rw [registrations_section p.1 hplain, ih hbody.2, List.map_cons, List.cons_append]

/-! ## Programs -/

/-- The structure of a program, as a reader of its lines sees it, is the one that the root event
blocks ask for. -/
structure Registers (options : Options) (bs : List Block) (program : String) : Prop where
  /-- The lines that register a handler name the triggers of the root event blocks. -/
  decorators : (linesIn program).filter isDecorator =
    (rootTriggers options bs).map fun t => "@on(\"" ++ t.tag ++ "\")"
  /-- Below each of these lines stands the header of the function. -/
  signatures : registrations (linesIn program) = (rootTriggers options bs).mapIdx fun i t =>
    ("@on(\"" ++ t.tag ++ "\")", "def " ++ handlerName t (i + 1) ++ "(event, reply_messages):")
  /-- No two functions have the same name. -/
  names : ((rootTriggers options bs).mapIdx fun i t => handlerName t (i + 1)).Nodup
  /-- Below the head of each section all lines are indented. -/
  sections : ∃ emitted s, emitProgram bs (.new options) = (.ok emitted, s) ∧
    program = assemble options (Import.statements s.imports) (sectionsOf options emitted) ∧
      emitted.map Prod.fst = (route bs (.new options)).1 ∧
      ∀ p ∈ emitted, ∃ body,
        linesIn (p.1.sectionText options.unit p.2) =
          [p.1.comment, p.1.decorator, p.1.signature] ++ body ++ [""] ∧
        ∀ line ∈ body, List.replicate (max options.indentWidth 1) ' ' <+: line.toList

theorem Handler.Indented.oneLine {options : Options} {h : Handler} {actions : List Stmt}
    (hbody : h.Indented options actions) : ∀ line ∈ h.lines options.unit actions, OneLine line :=
  List.forall_mem_append.mpr ⟨h.oneLine_headLines, fun line hline => (hbody line hline).1⟩

/-- The lines of a program: its sections between lines that register nothing. -/
theorem linesIn_assemble {options : Options} (imports : List Import)
    {emitted : List (Handler × List Stmt)} (hbody : ∀ p ∈ emitted, p.1.Indented options p.2) :
    ∃ before after, (∀ line ∈ before, isDecorator line = false) ∧
      (∀ line ∈ after, isDecorator line = false) ∧
      linesIn (assemble options (Import.statements imports) (sectionsOf options emitted)) =
        before ++ ((emitted.map fun p => p.1.lines options.unit p.2).flatMap (["", ""] ++ ·) ++
          after) ++ [""] := by
  obtain ⟨before, after, hbefore, hafter, hassemble⟩ := assemble_eq_textOfLines options imports
    (emitted.map fun p => p.1.lines options.unit p.2)
  have hsections : (emitted.map fun p => p.1.lines options.unit p.2).map textOfLines =
      sectionsOf options emitted := by
    simp only [sectionsOf, Handler.sectionText, List.map_map, Function.comp_def]
  have hlines : ∀ line ∈ before ++
      ((emitted.map fun p => p.1.lines options.unit p.2).flatMap (["", ""] ++ ·) ++ after),
        OneLine line := by
    simp only [List.forall_mem_append, List.mem_flatMap, List.mem_map]
    refine ⟨fun line hline => (hbefore line hline).oneLine, ?_,
      fun line hline => (hafter line hline).oneLine⟩
    rintro line ⟨lines, ⟨p, hp, rfl⟩, hline⟩
    rcases List.mem_append.mp hline with hline | hline
    · exact (List.forall_mem_cons.mpr ⟨inert_blank, by simpa using inert_blank⟩ line hline).oneLine
    · exact (hbody p hp).oneLine line hline
  refine ⟨before, after, fun line hline => (hbefore line hline).not_decorator,
    fun line hline => (hafter line hline).not_decorator, ?_⟩
  rw [← hsections, hassemble, linesIn_textOfLines hlines]

/-- A program registers the handlers of its sections. -/
theorem registrations_assemble {options : Options} (imports : List Import)
    {emitted : List (Handler × List Stmt)} (hbody : ∀ p ∈ emitted, p.1.Indented options p.2) :
    registrations
      (linesIn (assemble options (Import.statements imports) (sectionsOf options emitted))) =
        emitted.map (fun p => (p.1.decorator, p.1.signature)) ∧
      (linesIn (assemble options (Import.statements imports) (sectionsOf options emitted))).filter
        isDecorator = emitted.map fun p => p.1.decorator := by
  obtain ⟨before, after, hbefore, hafter, hlines⟩ := linesIn_assemble imports hbody
  have hregistrations : registrations (linesIn
      (assemble options (Import.statements imports) (sectionsOf options emitted))) =
        emitted.map fun p => (p.1.decorator, p.1.signature) := by
    rw [hlines, List.append_assoc, registrations_append_of_plain hbefore, List.append_assoc,
      registrations_sections hbody, registrations_append_of_plain hafter]
    exact List.append_nil _
  refine ⟨hregistrations, ?_⟩
  have hfilter := registrations_map_fst inert_blank.not_decorator
    (before ++ ((emitted.map fun p => p.1.lines options.unit p.2).flatMap (["", ""] ++ ·) ++ after))
  rw [← hlines, hregistrations, List.map_map] at hfilter
  exact hfilter.symm

/-- Whatever the blocks of a program say, it registers its handlers for the root event blocks and
for nothing else, as long as the conditions of its branches are single lines. -/
theorem compile_registers {options : Options} {bs : List Block} {program : String}
    (h : compile options bs = .ok program)
    (hconditions : ∀ handler ∈ (route bs (.new options)).1, OneLineConditions handler.actions) :
    Registers options bs program := by
  obtain ⟨emitted, s, hrun, hprogram⟩ := compile_eq_ok.mp h
  obtain ⟨hhandlers, hactions⟩ := emitProgram_emits hrun
  have hbody : ∀ p ∈ emitted, p.1.Indented options p.2 := by
    intro p hp
    obtain ⟨u, v, -, hemits⟩ := hactions p hp
    have hroute : p.1 ∈ (route bs (.new options)).1 := hhandlers ▸ List.mem_map_of_mem hp
    obtain ⟨data, hguard⟩ := route_guard hroute
    exact hemits.indented (hconditions p.1 hroute) fun condition hcondition =>
      oneLine_guardOf (hguard ▸ hcondition)
  obtain ⟨hregistrations, hdecorators⟩ := registrations_assemble s.imports hbody
  -- what is said of the emitted handlers is said of the routed ones, and so of the triggers
  have hpairs := route_map bs (.new options) fun t i =>
    ("@on(\"" ++ t.tag ++ "\")", "def " ++ handlerName t i ++ "(event, reply_messages):")
  have htriggers := congrArg (List.map fun t : Trigger => "@on(\"" ++ t.tag ++ "\")")
    (route_trigger bs (.new options))
  rw [← hhandlers, List.map_map] at hpairs
  rw [← hhandlers, List.map_map, List.map_map] at htriggers
  refine ⟨?_, ?_, nodup_handlerName _, emitted, s, hrun, hprogram, hhandlers, fun p hp => ?_⟩
  · rw [hprogram]
    exact hdecorators.trans htriggers
  · rw [hprogram]
    exact hregistrations.trans hpairs
  · have hsection : linesIn (p.1.sectionText options.unit p.2) =
        p.1.lines options.unit p.2 ++ [""] := linesIn_textOfLines (hbody p hp).oneLine
    refine ⟨p.1.bodyLines options.unit p.2, hsection, fun line hline => ?_⟩
    have hunit := (hbody p hp line hline).2
    rwa [Options.unit, String.toList_ofList] at hunit

theorem compile_registers_guarded :
    ∃ program, compile { indentWidth := 2 } guardedBlocks = .ok program ∧
      (∀ handler ∈ (route guardedBlocks (.new { indentWidth := 2 })).1,
        OneLineConditions handler.actions) ∧
      (linesIn program).filter isDecorator = ["@on(\"message.text\")", "@on(\"follow\")"] ∧
      registrations (linesIn program) =
        [("@on(\"message.text\")", "def handle_message_text_1(event, reply_messages):"),
         ("@on(\"follow\")", "def handle_follow_2(event, reply_messages):")] ∧
      Registers { indentWidth := 2 } guardedBlocks program := by
  have hconditions : ∀ handler ∈ (route guardedBlocks (.new { indentWidth := 2 })).1,
      OneLineConditions handler.actions := by
    unfold OneLineConditions OneLine
    decide
  have hregisters : Registers { indentWidth := 2 } guardedBlocks _ :=
    compile_registers rfl hconditions
  refine ⟨_, rfl, hconditions, hregisters.decorators.trans ?_, hregisters.signatures.trans ?_,
    hregisters⟩
  · decide
  · decide

end BlockBot
