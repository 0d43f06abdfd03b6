import BlockBot.Proofs.NestingGuard
import BlockBot.Proofs.Registration

/-!
# The width of indentation rescales a program

Programs are laid out with a unit of indentation in three ways: statements are indented body by
body, sections below their heads, and the fixed parts are rescaled from templates. All three write a
row as its unit, repeated, and its text. So a program of any width has the lines of the program with
four spaces per level, in which each four leading spaces are replaced by one unit; and failures do
not depend on the width at all.
-/

namespace BlockBot

open BlockBot.Json BlockBot.Code BlockBot.Text

/-- The unit of templates. -/
def fourSpaces : String := "    "

/-- A line that begins with a multiple of four spaces. -/
def Aligned (line : String) : Prop :=
  (Row.ofLine fourSpaces line).line fourSpaces = line

theorem rescaledLine_eq_line (unit line : String) :
    rescaledLine unit line = (Row.ofLine fourSpaces line).line unit := by
  unfold rescaledLine rescaleLine Row.ofLine Row.line
  rw [String.ofList_append]
  rfl

theorem Aligned.of_spaces {line : String} (h : (line.toList.takeWhile (· == ' ')).length % 4 = 0) :
    Aligned line := by
  have hlevels : (line.toList.takeWhile (· == ' ')).length / 4 * 4 =
      (line.toList.takeWhile (· == ' ')).length := by omega
  have hfour : fourSpaces = String.ofList (List.replicate 4 ' ') := rfl
  unfold Aligned Row.line Row.ofLine
  rw [hfour, ← String.ofList_append]
  simp only [String.toList_ofList, String.length_ofList, List.length_replicate,
    List.flatten_replicate_replicate]
  rw [hlevels]
  exact (congrArg String.ofList (replicate_append_afterSpaces line.toList)).trans
    String.ofList_toList

theorem Aligned.of_chars {cs : List Char} (h : (cs.takeWhile (· == ' ')).length % 4 = 0) :
    Aligned (String.ofList cs) :=
  .of_spaces (by rwa [String.toList_ofList])

/-- What follows a character other than a space has no part in the indentation. -/
theorem Aligned.append {cs : List Char} (h : (cs.takeWhile (· == ' ')).length % 4 = 0)
    (hcs : (cs.takeWhile (· == ' ')).length ≠ cs.length) (text : String) :
    Aligned (String.ofList cs ++ text) := by
  refine .of_spaces ?_
  rwa [String.toList_append, String.toList_ofList, List.takeWhile_append, if_neg hcs]

theorem ofLine_fourSpaces {r : Row} (h : Flush r.text) :
    Row.ofLine fourSpaces (r.line fourSpaces) = r := by
  have hfour : fourSpaces = String.ofList (List.replicate 4 ' ') := rfl
  exact Row.ofLine_line hfour (by decide) h

theorem Aligned.of_row {r : Row} (h : Flush r.text) : Aligned (r.line fourSpaces) := by
  unfold Aligned
  rw [ofLine_fourSpaces h]

theorem rescaledLine_row {r : Row} (h : Flush r.text) (unit : String) :
    rescaledLine unit (r.line fourSpaces) = r.line unit := by
  rw [rescaledLine_eq_line, ofLine_fourSpaces h]

/-- A line at the margin is the same in every unit. -/
theorem line_ofLine_of_margin {line : String} (h : line.toList.head? ≠ some ' ') (unit : String) :
    (Row.ofLine fourSpaces line).line unit = line := by
  have hspaces : line.toList.takeWhile (· == ' ') = [] ∧ line.toList.dropWhile (· == ' ') =
      line.toList := by
    cases hline : line.toList with
    | nil => exact ⟨rfl, rfl⟩
    | cons c cs =>
        have hc : (c == ' ') = false := by simpa [hline] using h
        simp [hc]
  unfold Row.ofLine
  rw [hspaces.1, hspaces.2, String.ofList_toList, List.length_nil, Nat.zero_div, Row.line_zero]

/-- Lines in the template's unit, and the same lines in another unit. -/
structure Rescales (unit : String) (lines lines' : List String) : Prop where
  oneLine : ∀ line ∈ lines, OneLine line
  aligned : ∀ line ∈ lines, Aligned line
  same : lines' = lines.map (rescaledLine unit)

namespace Rescales

variable {unit : String} {lines lines' others others' : List String}

theorem append (h : Rescales unit lines lines') (h' : Rescales unit others others') :
    Rescales unit (lines ++ others) (lines' ++ others') where
  oneLine := List.forall_mem_append.mpr ⟨h.oneLine, h'.oneLine⟩
  aligned := List.forall_mem_append.mpr ⟨h.aligned, h'.aligned⟩
  same := by rw [h.same, h'.same, List.map_append]

theorem margin (hone : ∀ line ∈ lines, OneLine line)
    (h : ∀ line ∈ lines, line.toList.head? ≠ some ' ') (unit : String) :
    Rescales unit lines lines where
  oneLine := hone
  aligned := fun line hline => line_ofLine_of_margin (h line hline) fourSpaces
  same := by
    refine ((List.map_congr_left fun line hline => ?_).trans (List.map_id lines)).symm
    rw [rescaledLine_eq_line, line_ofLine_of_margin (h line hline), id]

theorem template (hone : ∀ line ∈ lines, OneLine line) (h : ∀ line ∈ lines, Aligned line)
    (unit : String) : Rescales unit lines (templateLines unit lines) where
  oneLine := hone
  aligned := h
  same := by
    unfold templateLines
    split_ifs with hunit
    · -- four spaces are replaced by four spaces
      refine ((List.map_congr_left fun line hline => ?_).trans (List.map_id lines)).symm
      rw [rescaledLine_eq_line, hunit]
      exact h line hline
    · rfl

/-- The text of rescaled lines is the reindented text. -/
theorem text_eq (h : Rescales unit lines lines') :
    textOfLines lines' = reindent unit (textOfLines lines) := by
  rw [reindent_textOfLines h.oneLine, (template h.oneLine h.aligned unit).same, h.same]

end Rescales

theorem rescales_blank (unit : String) : Rescales unit ["", ""] ["", ""] :=
  .margin (by simp [OneLine]) (by simp) unit

/-! ## Templates -/

theorem aligned_preamble :
    ∃ lines, preamble = textOfLines lines ∧ ∀ line ∈ lines, OneLine line ∧ Aligned line := by
  refine ⟨_, rfl, ?_⟩
  simp only [List.forall_mem_cons]
  -- one goal for each line, and one for the end of the list
  and_intros
  all_goals first | exact .of_chars (by decide) | simp

theorem aligned_epilogue (port : Nat) :
    ∃ lines, epilogue port = textOfLines lines ∧ ∀ line ∈ lines, OneLine line ∧ Aligned line := by
  refine ⟨_, rfl, ?_⟩
  simp only [List.forall_mem_cons]
  refine ⟨⟨.of_chars (by decide), .of_chars (by decide)⟩, ⟨?_, ?_⟩,
    ⟨.of_chars (by decide), .of_chars (by decide)⟩, by simp⟩
  · exact ((OneLine.of_chars (by decide)).append (oneLine_natText port)).append
      (.of_chars (by decide))
  · rw [String.append_assoc]
    exact .append (by decide) (by decide) _

/-! ## Programs -/

theorem Handler.rescales_lines {h : Handler} {actions : List Stmt} (unit : String)
    (hflush : ∀ text ∈ Outline.texts (Stmt.outlines actions), Flush text)
    (hone : ∀ line ∈ h.lines fourSpaces actions, OneLine line) :
    Rescales unit (h.lines fourSpaces actions) (h.lines unit actions) := by
  have hrows : ∀ r ∈ Outline.rows 0 (h.outlines (Stmt.outlines actions)), Flush r.text :=
    fun r hr => Handler.flush_outlines hflush _ (Outline.text_mem_texts hr)
  refine ⟨hone, ?_, ?_⟩
  · rw [Handler.lines_eq_rows hflush, List.forall_mem_map]
    exact fun r hr => .of_row (hrows r hr)
  · rw [Handler.lines_eq_rows hflush, Handler.lines_eq_rows hflush, List.map_map]
    exact List.map_congr_left fun r hr => (rescaledLine_row (hrows r hr) unit).symm

theorem rescales_sections {emitted : List (Handler × List Stmt)} (unit : String)
    (h : ∀ p ∈ emitted, Rescales unit (p.1.lines fourSpaces p.2) (p.1.lines unit p.2)) :
    Rescales unit ((emitted.map fun p => p.1.lines fourSpaces p.2).flatMap (["", ""] ++ ·))
      ((emitted.map fun p => p.1.lines unit p.2).flatMap (["", ""] ++ ·)) := by
  induction emitted with
  | nil => exact .margin (by simp) (by simp) unit
  | cons p emitted ih =>
      rw [List.forall_mem_cons] at h
      exact ((rescales_blank unit).append h.1).append (ih h.2)

theorem rescales_imports (unit : String) (imports : List Import) :
    Rescales unit (["", ""] ++ importsHeader :: Import.statements imports)
      (["", ""] ++ importsHeader :: Import.statements imports) := by
  refine (rescales_blank unit).append (.margin ?_ ?_ unit)
  · rw [List.forall_mem_cons]
    exact ⟨.of_chars (by decide), fun line hline => (inert_statements imports line hline).oneLine⟩
  · rw [List.forall_mem_cons]
    refine ⟨?_, fun line hline => ?_⟩
    · rw [show importsHeader.toList.head? = some '#' from head?_ofList _ _]
      decide
    · obtain ⟨i, -, rfl⟩ := List.mem_map.mp hline
      cases i <;>
        exact fun h => absurd (Option.some.inj ((head?_ofList _ _).symm.trans h)) (by decide)

theorem sectionsOf_eq_textOfLines (options : Options) (emitted : List (Handler × List Stmt)) :
    sectionsOf options emitted =
      (emitted.map fun p => p.1.lines options.unit p.2).map textOfLines := by
  simp only [sectionsOf, Handler.sectionText, List.map_map, Function.comp_def]

/-- The lines of a program under two options that differ in the width of indentation, one of them
being four. -/
theorem assemble_rescales (options : Options) (width : Nat) (imports : List Import)
    {emitted : List (Handler × List Stmt)}
    (h : ∀ p ∈ emitted, Rescales (options.withIndentWidth width).unit (p.1.lines fourSpaces p.2)
      (p.1.lines (options.withIndentWidth width).unit p.2)) :
    ∃ lines lines', Rescales (options.withIndentWidth width).unit lines lines' ∧
      assemble (options.withIndentWidth 4) (Import.statements imports)
        (sectionsOf (options.withIndentWidth 4) emitted) = textOfLines lines ∧
      assemble (options.withIndentWidth width) (Import.statements imports)
        (sectionsOf (options.withIndentWidth width) emitted) = textOfLines lines' := by
  obtain ⟨first, hfirst, hlines⟩ := aligned_preamble
  obtain ⟨last, hlast, hlines'⟩ := aligned_epilogue options.port
  have hone : ∀ line ∈ first, OneLine line := fun line hline => (hlines line hline).1
  have hone' : ∀ line ∈ last, OneLine line := fun line hline => (hlines' line hline).1
  have hfour : (options.withIndentWidth 4).unit = fourSpaces := rfl
  have hkept : ∀ lines, templateLines fourSpaces lines = lines := fun lines => if_pos rfl
  have hrescales := ((Rescales.template hone (fun line hline => (hlines line hline).2) _).append
    (rescales_imports _ imports)).append ((rescales_sections _ h).append
      ((rescales_blank _).append (.template hone' (fun line hline => (hlines' line hline).2) _)))
  refine ⟨_, _, hrescales, ?_, ?_⟩
  · rw [sectionsOf_eq_textOfLines,
      assemble_textOfLines (options.withIndentWidth 4) hfirst hlast hone hone', hfour, hkept, hkept]
  · rw [sectionsOf_eq_textOfLines,
      assemble_textOfLines (options.withIndentWidth width) hfirst hlast hone hone']

/-- What rescaling means for the texts of the lines. -/
theorem Rescales.texts {unit : String} {lines lines' : List String} (h : Rescales unit lines lines')
    (hunit : OneLine unit) :
    textOfLines lines' = reindent unit (textOfLines lines) ∧
      (∀ line ∈ linesIn (textOfLines lines), Aligned line) ∧
      linesIn (textOfLines lines') =
        (linesIn (textOfLines lines)).map fun line => (Row.ofLine fourSpaces line).line unit := by
  -- after the last line feed of both texts comes an empty line
  have hend : Rescales unit (lines ++ [""]) (lines' ++ [""]) :=
    h.append (.margin (by simp [OneLine]) (by simp) unit)
  have hone : ∀ line ∈ lines', OneLine line := by
    rw [h.same, List.forall_mem_map]
    intro line hline
    rw [rescaledLine_eq_line]
    refine Row.oneLine_line hunit (.of_chars fun hmem => ?_)
    exact h.oneLine line hline ((List.dropWhile_sublist _).mem hmem)
  rw [linesIn_textOfLines h.oneLine, linesIn_textOfLines hone]
  refine ⟨h.text_eq, hend.aligned, hend.same.trans ?_⟩
  exact List.map_congr_left fun line _ => rescaledLine_eq_line unit line

/-- The width of indentation decides nothing but the indentation. Compilations fail alike under all
widths. If all conditions of branches are single lines, the program of any width is the reindented
program of width four: each line of that begins with a multiple of four spaces, and for each four of
them the other program has one unit. -/
theorem compile_withIndentWidth (options : Options) (width : Nat) (bs : List Block) :
    (∀ e, compile (options.withIndentWidth width) bs = .error e ↔
      compile (options.withIndentWidth 4) bs = .error e) ∧
    ((∀ handler ∈ (route bs (.new options)).1, OneLineConditions handler.actions) →
      ∀ program, compile (options.withIndentWidth 4) bs = .ok program →
        ∃ program', compile (options.withIndentWidth width) bs = .ok program' ∧
          program' = reindent (String.ofList (List.replicate (max width 1) ' ')) program ∧
          (∀ line ∈ linesIn program, (Row.ofLine "    " line).line "    " = line) ∧
          linesIn program' = (linesIn program).map fun line =>
            (Row.ofLine "    " line).line (String.ofList (List.replicate (max width 1) ' '))) := by
  have hroute : ∀ w, (route bs (.new (options.withIndentWidth w))).1 =
      (route bs (.new options)).1 :=
    fun w => route_new options (options.withIndentWidth w) rfl bs
  constructor
  · have hsame : programOpeners (options.withIndentWidth width) bs =
        programOpeners (options.withIndentWidth 4) bs := by
      unfold programOpeners
      rw [hroute, hroute]
    have hwidth := compile_guarded (options.withIndentWidth width) bs
    rw [hsame] at hwidth
    exact hwidth.error_iff (compile_guarded (options.withIndentWidth 4) bs)
  · intro hconditions program hprogram
    obtain ⟨emitted, s, hrun, rfl⟩ := compile_eq_ok.mp hprogram
    have hallows : (options.withIndentWidth 4).Allows (options.withIndentWidth width) :=
      ⟨rfl, rfl, Nat.le_refl _⟩
    have hcompile := compile_under hallows rfl hrun
    obtain ⟨hhandlers, hactions⟩ := emitHandlers_emits hrun
    have hhandlers : emitted.map Prod.fst = (route bs (.new options)).1 :=
      hhandlers.trans (hroute 4)
    have hsections : ∀ p ∈ emitted, Rescales (options.withIndentWidth width).unit
        (p.1.lines fourSpaces p.2) (p.1.lines (options.withIndentWidth width).unit p.2) := by
      intro p hp
      obtain ⟨u, v, -, hemits⟩ := hactions p hp
      have hmem : p.1 ∈ (route bs (.new options)).1 := hhandlers ▸ List.mem_map_of_mem hp
      obtain ⟨data, hguard⟩ := route_guard hmem
      have hindented : p.1.Indented (options.withIndentWidth 4) p.2 :=
        hemits.indented (hconditions p.1 hmem) fun condition hcondition =>
          oneLine_guardOf (hguard ▸ hcondition)
      exact Handler.rescales_lines _ hemits.flush hindented.oneLine
    obtain ⟨lines, lines', hrescales, hfour, hwidth⟩ :=
      assemble_rescales options width s.imports hsections
    have hunit : OneLine (options.withIndentWidth width).unit :=
      .of_chars fun hmem => absurd (List.eq_of_mem_replicate hmem) (by decide)
    have htexts := hrescales.texts hunit
    rw [← hfour, ← hwidth] at htexts
    exact ⟨_, hcompile, htexts⟩

theorem compile_withIndentWidth_guarded :
    (∀ handler ∈ (route guardedBlocks (.new {})).1, OneLineConditions handler.actions) ∧
      ∃ program, compile { indentWidth := 4 } guardedBlocks = .ok program ∧
        ∃ program', compile { indentWidth := 3 } guardedBlocks = .ok program' ∧
          program' = reindent "   " program ∧
          (∀ line ∈ linesIn program, (Row.ofLine "    " line).line "    " = line) ∧
          linesIn program' = (linesIn program).map fun line =>
            (Row.ofLine "    " line).line "   " := by
  have hconditions : ∀ handler ∈ (route guardedBlocks (.new {})).1,
      OneLineConditions handler.actions := by
    unfold OneLineConditions OneLine
    decide
  exact ⟨hconditions, _, rfl, (compile_withIndentWidth {} 3 guardedBlocks).2 hconditions _ rfl⟩

end BlockBot
