import BlockBot.Proofs.OneLine

/-!
# Texts made of lines

A text that was put together from lines is cut into the same lines again, as long as none of them
has a line feed of its own. The same holds for templates, which are rescaled line by line.
-/

namespace BlockBot

open BlockBot.Code BlockBot.Text

/-- The lines of a text, which is cut at each line feed. -/
def linesIn (text : String) : List String :=
  (text.toList.splitOn '\n').map String.ofList

theorem toList_textOfLines (lines : List String) :
    (textOfLines lines).toList = lines.flatMap fun line => line.toList ++ ['\n'] := by
  unfold textOfLines
  rw [String.toList_join, List.flatMap_map]
  simp only [String.toList_append]
  rfl

theorem textOfLines_append (lines lines' : List String) :
    textOfLines (lines ++ lines') = textOfLines lines ++ textOfLines lines' := by
  rw [← String.toList_inj, String.toList_append, toList_textOfLines, toList_textOfLines,
    toList_textOfLines, List.flatMap_append]

/-- Texts of lines with the same lines above each of them. -/
theorem join_textOfLines (above : List String) (sections : List (List String)) :
    String.join ((sections.map textOfLines).map (textOfLines above ++ ·)) =
      textOfLines (sections.flatMap (above ++ ·)) := by
  rw [← String.toList_inj, String.toList_join, List.flatMap_map, List.flatMap_map,
    toList_textOfLines, List.flatMap_assoc]
  simp only [← textOfLines_append, toList_textOfLines]

/-- Whole lines at the front of a text are found again, whatever follows them. -/
theorem linesIn_textOfLines_append {lines : List String} (h : ∀ line ∈ lines, OneLine line)
    (text : String) : linesIn (textOfLines lines ++ text) = lines ++ linesIn text := by
  unfold linesIn
  rw [String.toList_append, toList_textOfLines]
  induction lines with
  | nil => rfl
  | cons line lines ih =>
      rw [List.forall_mem_cons] at h
      rw [List.flatMap_cons, List.append_assoc, List.append_assoc, List.singleton_append,
        List.splitOn_append_cons_self_of_not_mem h.1, List.map_cons, ih h.2, String.ofList_toList,
        List.cons_append]

/-- After the last line feed of a text comes an empty line. -/
theorem linesIn_textOfLines {lines : List String} (h : ∀ line ∈ lines, OneLine line) :
    linesIn (textOfLines lines) = lines ++ [""] := by
  have hlines := linesIn_textOfLines_append h ""
  rwa [String.append_empty] at hlines

/-! ## Templates -/

/-- The number of spaces at the start of a line. -/
def leadingSpaces (line : List Char) : Nat :=
  (line.takeWhile (· == ' ')).length

/-- What a line says after its leading spaces. -/
def afterSpaces (line : List Char) : List Char :=
  line.dropWhile (· == ' ')

theorem replicate_append_afterSpaces (line : List Char) :
    List.replicate (leadingSpaces line) ' ' ++ afterSpaces line = line := by
  have hspaces : line.takeWhile (· == ' ') = List.replicate (leadingSpaces line) ' ' :=
    List.eq_replicate_iff.mpr ⟨rfl,
      fun c hc => by simpa using List.all_eq_true.mp List.all_takeWhile c hc⟩
  rw [← hspaces, afterSpaces, List.takeWhile_append_dropWhile]

/-- Rescaling a line of a template changes the number of spaces in front of its text. -/
theorem rescaleLine_spaces (width : Nat) (line : List Char) :
    rescaleLine (List.replicate width ' ') line =
      List.replicate (leadingSpaces line / 4 * width) ' ' ++ afterSpaces line := by
  rw [rescaleLine, List.flatten_replicate_replicate]
  rfl

theorem newline_not_mem_rescaleLine {line : List Char} (h : '\n' ∉ line) (width : Nat) :
    '\n' ∉ rescaleLine (List.replicate width ' ') line := by
  rw [rescaleLine_spaces, List.mem_append, not_or]
  refine ⟨fun hmem => ?_, fun hmem => ?_⟩
  · exact absurd (List.eq_of_mem_replicate hmem) (by decide)
  · exact h ((List.dropWhile_sublist _).mem hmem)

/-- The line of a template in another unit. -/
def rescaledLine (unit line : String) : String :=
  String.ofList (rescaleLine unit.toList line.toList)

theorem toList_rescaledLine {unit : String} {width : Nat}
    (hunit : unit = String.ofList (List.replicate width ' ')) (line : String) :
    (rescaledLine unit line).toList =
      List.replicate ((line.toList.takeWhile (· == ' ')).length / templateWidth * width) ' ' ++
        line.toList.dropWhile (· == ' ') := by
  rw [rescaledLine, String.toList_ofList, hunit, String.toList_ofList, rescaleLine_spaces]
  rfl

theorem OneLine.rescaled {line : String} (h : OneLine line) {unit : String} {width : Nat}
    (hunit : unit = String.ofList (List.replicate width ' ')) :
    OneLine (rescaledLine unit line) := by
  unfold OneLine
  rw [rescaledLine, String.toList_ofList, hunit, String.toList_ofList]
  exact newline_not_mem_rescaleLine h width

/-- The lines of a template in a unit. -/
def templateLines (unit : String) (lines : List String) : List String :=
  if unit = "    " then lines else lines.map (rescaledLine unit)

/-- What rescaling a line keeps holds of the lines of a template in any unit. -/
theorem forall_mem_templateLines {P : String → Prop} {unit : String} {lines : List String}
    (h : ∀ line ∈ lines, P line) (hrescaled : ∀ line, P line → P (rescaledLine unit line)) :
    ∀ line ∈ templateLines unit lines, P line := by
  unfold templateLines
  split_ifs
  · exact h
  · rw [List.forall_mem_map]
    exact fun line hline => hrescaled line (h line hline)

theorem linesAux_append {line : List Char} (h : '\n' ∉ line) (start rest : List Char) :
    linesAux start (line ++ '\n' :: rest) = (start.reverse ++ (line ++ ['\n'])) ::
      linesAux [] rest := by
  induction line generalizing start with
  | nil => simp [linesAux]
  | cons c line ih =>
      rw [List.mem_cons, not_or] at h
      rw [List.cons_append, linesAux, if_neg (Ne.symm h.1), ih h.2]
      simp

theorem linesOf_textOfLines {lines : List String} (h : ∀ line ∈ lines, OneLine line) :
    linesOf (textOfLines lines).toList = lines.map fun line => line.toList ++ ['\n'] := by
  unfold linesOf
  rw [toList_textOfLines]
  induction lines with
  | nil => rfl
  | cons line lines ih =>
      rw [List.forall_mem_cons] at h
      rw [List.flatMap_cons, List.append_assoc, List.singleton_append, linesAux_append h.1, ih h.2]
      rfl

/-- The line feed at the end of a line is not part of its indentation. -/
theorem rescaleLine_newline (unit line : List Char) :
    rescaleLine unit (line ++ ['\n']) = rescaleLine unit line ++ ['\n'] := by
  have hspaces : (line ++ ['\n']).takeWhile (· == ' ') = line.takeWhile (· == ' ') ∧
      (line ++ ['\n']).dropWhile (· == ' ') = line.dropWhile (· == ' ') ++ ['\n'] := by
    induction line with
    | nil => exact ⟨rfl, rfl⟩
    | cons c line ih =>
        rw [List.cons_append, List.takeWhile_cons, List.takeWhile_cons, List.dropWhile_cons,
          List.dropWhile_cons]
        cases c == ' ' with
        | true => exact ⟨congrArg (c :: ·) ih.1, ih.2⟩
        | false => exact ⟨rfl, rfl⟩
  unfold rescaleLine
  rw [hspaces.1, hspaces.2, List.append_assoc]

/-- A template of lines is rescaled line by line. -/
theorem reindent_textOfLines {unit : String} {lines : List String}
    (h : ∀ line ∈ lines, OneLine line) :
    reindent unit (textOfLines lines) = textOfLines (templateLines unit lines) := by
  unfold reindent templateLines
  split_ifs
  · rfl
  · rw [← String.toList_inj, rescale, String.toList_ofList, linesOf_textOfLines h,
      toList_textOfLines, List.flatMap_map, List.flatMap_map]
    simp only [rescaleLine_newline, rescaledLine, String.toList_ofList]

/-- The lines of a program: those of its sections, with two blank lines above each, between its
imports and the fixed parts, of which `first` and `last` are the lines as they stand in the
templates. -/
theorem assemble_textOfLines (options : Options) {first last : List String}
    (hfirst : preamble = textOfLines first) (hlast : epilogue options.port = textOfLines last)
    (hone : ∀ line ∈ first, OneLine line) (hone' : ∀ line ∈ last, OneLine line)
    (statements : List String) (sections : List (List String)) :
    assemble options statements (sections.map textOfLines) =
      textOfLines (templateLines options.unit first ++ (["", ""] ++ importsHeader :: statements) ++
        (sections.flatMap (["", ""] ++ ·) ++ (["", ""] ++ templateLines options.unit last))) := by
  have hblank : "\n\n" = textOfLines ["", ""] := rfl
  unfold assemble
  rw [hfirst, hlast, reindent_textOfLines hone, reindent_textOfLines hone', hblank,
    join_textOfLines]
  simp only [textOfLines_append, String.append_assoc]

end BlockBot
