import BlockBot.Code.Stmt
import Mathlib.Data.List.Chain

/-!
# Outlines of indented lines

What a reader who sees only the lines can make of them. A line is cut into its level and its text
(`Row.ofLine`), and rows are grouped by their levels: every row gets the deeper rows that follow it
as its body (`Outline.group`). Writing an outline down row by row and grouping the rows again gives
the outline back, whatever its texts are. The levels of the rows grow by one after each header and
nowhere else if the headers are exactly the lines with a body (`Regular`).
-/

namespace BlockBot.Code

open BlockBot.Text

/-- A line, and the lines one level deeper that belong to it. -/
structure Outline where
  text : String
  body : List Outline

/-- A line by its level of indentation and its text. -/
structure Row where
  level : Nat
  text : String

/-! ## Rows and lines -/

/-- A text that begins with a character other than a space. -/
def Flush (text : String) : Prop :=
  ∃ c, text.toList.head? = some c ∧ c ≠ ' '

theorem head?_toList_append {a b : String} {c : Char} (h : a.toList.head? = some c) :
    (a ++ b).toList.head? = some c := by
  rw [String.toList_append, List.head?_append, h, Option.some_or]

theorem head?_ofList (c : Char) (cs : List Char) :
    (String.ofList (c :: cs)).toList.head? = some c := by
  rw [String.toList_ofList, List.head?_cons]

theorem head?_eq_of_begins {word text : String} {c : Char} (hword : word.toList.head? = some c)
    (h : word.toList <+: text.toList) : text.toList.head? = some c := by
  obtain ⟨rest, hrest⟩ := h
  rw [← hrest, List.head?_append, hword, Option.some_or]

/-- A text of three parts begins with the first of them. -/
theorem prefix_toList_append (a b c : String) : a.toList <+: (a ++ b ++ c).toList := by
  rw [String.toList_append, String.toList_append, List.append_assoc]
  exact List.prefix_append _ _

namespace Row

/-- A row as a line: the unit as often as its level says, and the text. -/
def line (unit : String) (r : Row) : String :=
  String.ofList (List.replicate r.level unit.toList).flatten ++ r.text

/-- A line as a row: the number of units in its leading spaces, and what follows them. -/
def ofLine (unit line : String) : Row :=
  ⟨(line.toList.takeWhile (· == ' ')).length / unit.length,
    String.ofList (line.toList.dropWhile (· == ' '))⟩

/-- A row one level deeper. -/
def deeper (r : Row) : Row :=
  ⟨r.level + 1, r.text⟩

theorem ofLine_line {unit : String} {width : Nat}
    (hunit : unit = String.ofList (List.replicate width ' ')) (hwidth : 0 < width) {r : Row}
    (hr : Flush r.text) : ofLine unit (r.line unit) = r := by
  obtain ⟨level, text⟩ := r
  obtain ⟨c, hhead, hc⟩ := hr
  obtain ⟨cs, htext⟩ := List.head?_eq_some_iff.mp hhead
  subst hunit
  -- the leading spaces of the line are those of its units
  have hspaces : (line (String.ofList (List.replicate width ' ')) ⟨level, text⟩).toList =
      List.replicate (level * width) ' ' ++ c :: cs := by
    simp only at htext
    simp [line, htext, List.flatten_replicate_replicate]
  have hstop : (c == ' ') = false := by simpa using hc
  unfold ofLine
  rw [hspaces]
  have htake : (List.replicate (level * width) ' ' ++ c :: cs).takeWhile (· == ' ') =
      List.replicate (level * width) ' ' := by
    simp [hstop]
  have hdrop : (List.replicate (level * width) ' ' ++ c :: cs).dropWhile (· == ' ') = c :: cs := by
    simp [hstop]
  rw [htake, hdrop, ← htext, String.ofList_toList]
  simp [Nat.mul_div_cancel _ hwidth]

@[simp] theorem line_zero (unit text : String) : line unit ⟨0, text⟩ = text := by
  simp [line]

theorem line_deeper {unit : String} {r : Row} (hr : Flush r.text) :
    (if (r.line unit).isEmpty then r.line unit else unit ++ r.line unit) = r.deeper.line unit := by
  obtain ⟨c, hhead, -⟩ := hr
  obtain ⟨cs, htext⟩ := List.head?_eq_some_iff.mp hhead
  have hne : (r.line unit).isEmpty = false := by
    rw [← Bool.not_eq_true, String.isEmpty_iff, ← String.toList_inj]
    simp [line, htext]
  rw [hne]
  simp [line, deeper, List.replicate_succ, ← String.toList_inj]

/-- Indenting lines moves their rows one level deeper. -/
theorem indent_map_line {unit : String} {rows : List Row} (h : ∀ r ∈ rows, Flush r.text) :
    indent unit (rows.map (line unit)) = (rows.map deeper).map (line unit) := by
  unfold indent
  rw [List.map_map, List.map_map]
  exact List.map_congr_left fun r hr => line_deeper (h r hr)

end Row

namespace Outline

/-! ## Writing an outline down -/

/-- The rows of several outlines at a level, each with the rows of its body below it. -/
def rows (level : Nat) : List Outline → List Row
  | [] => []
  | ⟨text, body⟩ :: os => ⟨level, text⟩ :: (rows (level + 1) body ++ rows level os)

@[simp] theorem rows_nil (level : Nat) : rows level [] = [] := by
  rw [rows]

theorem rows_cons (level : Nat) (o : Outline) (os : List Outline) :
    rows level (o :: os) = ⟨level, o.text⟩ :: (rows (level + 1) o.body ++ rows level os) := by
  obtain ⟨text, body⟩ := o
  rw [rows]

@[simp] theorem rows_eq_nil {level : Nat} {os : List Outline} : rows level os = [] ↔ os = [] := by
  cases os with
  | nil => simp
  | cons o os => simp [rows_cons]

/-- Induction over several outlines at once: first the body of the first one, then the others. -/
@[elab_as_elim]
theorem forest_induction {motive : List Outline → Prop} (nil : motive [])
    (cons : ∀ text body os, motive body → motive os → motive (⟨text, body⟩ :: os)) :
    ∀ os, motive os
  | [] => nil
  | ⟨text, body⟩ :: os =>
      cons text body os (forest_induction nil cons body) (forest_induction nil cons os)

theorem rows_succ (level : Nat) (os : List Outline) :
    rows (level + 1) os = (rows level os).map Row.deeper := by
  induction os using forest_induction generalizing level with
  | nil => simp
  | cons text body os ihBody ih =>
      rw [rows_cons, rows_cons, ihBody (level + 1), ih level, List.map_cons, List.map_append]
      rfl

theorem head?_rows (level : Nat) (os : List Outline) :
    (rows level os).head? = os.head?.map fun o => ⟨level, o.text⟩ := by
  cases os with
  | nil => simp
  | cons o os => simp [rows_cons]

theorem level_le_of_mem_rows {level : Nat} {os : List Outline} {r : Row} (h : r ∈ rows level os) :
    level ≤ r.level := by
  induction os using forest_induction generalizing level with
  | nil => simp at h
  | cons text body os ihBody ih =>
      rw [rows_cons, List.mem_cons, List.mem_append] at h
      rcases h with rfl | h | h
      · exact Nat.le_refl _
      · exact Nat.le_of_succ_le (ihBody h)
      · exact ih h

/-- All texts of several outlines. -/
def texts : List Outline → List String
  | [] => []
  | ⟨text, body⟩ :: os => text :: (texts body ++ texts os)

@[simp] theorem texts_nil : texts [] = [] := by
  rw [texts]

@[simp] theorem texts_cons (o : Outline) (os : List Outline) :
    texts (o :: os) = o.text :: (texts o.body ++ texts os) := by
  obtain ⟨text, body⟩ := o
  rw [texts]

@[simp] theorem texts_append (os os' : List Outline) :
    texts (os ++ os') = texts os ++ texts os' := by
  induction os with
  | nil => simp
  | cons o os ih => simp [ih]

theorem text_mem_texts {level : Nat} {os : List Outline} {r : Row} (h : r ∈ rows level os) :
    r.text ∈ texts os := by
  induction os using forest_induction generalizing level with
  | nil => simp at h
  | cons text body os ihBody ih =>
      rw [rows_cons, List.mem_cons, List.mem_append] at h
      rw [texts_cons, List.mem_cons, List.mem_append]
      rcases h with rfl | h | h
      · exact .inl rfl
      · exact .inr (.inl (ihBody h))
      · exact .inr (.inr (ih h))

/-! ## Grouping rows -/

/-- A row on top of what was grouped below it: the deeper outlines at the front become its body. -/
def put (r : Row) (os : List (Nat × Outline)) : List (Nat × Outline) :=
  (r.level, ⟨r.text, (os.takeWhile fun o => r.level < o.1).map Prod.snd⟩) ::
    os.dropWhile fun o => r.level < o.1

/-- Groups rows by their levels; the outlines that nothing stands above come with their level. -/
def group (rows : List Row) : List (Nat × Outline) :=
  rows.foldr put []

/-- What was written down at a level is found again, in front of rows that are not deeper. -/
theorem group_rows_append (level : Nat) (os : List Outline) (rest : List Row)
    (hrest : ∀ o ∈ (group rest).head?, o.1 ≤ level) :
    group (rows level os ++ rest) = os.map (fun o => (level, o)) ++ group rest := by
  induction os using forest_induction generalizing level rest with
  | nil => simp
  | cons text body os ihBody ih =>
      have hos : group (rows level os ++ rest) = os.map (fun o => (level, o)) ++ group rest :=
        ih level rest hrest
      have hnext : ∀ o ∈ (group (rows level os ++ rest)).head?, o.1 ≤ level := by
        rw [hos]
        cases os with
        | nil => simpa using hrest
        | cons o os => simp
      have hbody : group (rows (level + 1) body ++ (rows level os ++ rest)) =
          body.map (fun o => (level + 1, o)) ++ group (rows level os ++ rest) :=
        ihBody (level + 1) _ fun o ho => Nat.le_succ_of_le (hnext o ho)
      -- the body is deeper than the row, and what follows is not
      have hstop : (group (rows level os ++ rest)).takeWhile (fun o => level < o.1) = [] ∧
          (group (rows level os ++ rest)).dropWhile (fun o => level < o.1) =
            group (rows level os ++ rest) := by
        cases hgroup : group (rows level os ++ rest) with
        | nil => simp
        | cons o rest' =>
            have ho : o.1 ≤ level := hnext o (by simp [hgroup])
            simp [Nat.not_lt.mpr ho]
      have hdeep : ∀ p ∈ body.map (fun o => (level + 1, o)), decide (level < p.1) = true := by
        simp
      rw [rows_cons, List.cons_append, List.append_assoc]
      change put ⟨level, text⟩ (group (rows (level + 1) body ++ (rows level os ++ rest))) = _
      unfold put
      rw [hbody, List.takeWhile_append_of_pos hdeep, List.dropWhile_append_of_pos hdeep, hstop.1,
        hstop.2, hos]
      simp [Function.comp_def]

/-- Grouping the rows of outlines gives the outlines back. -/
theorem group_rows (os : List Outline) : group (rows 0 os) = os.map fun o => (0, o) := by
  have h := group_rows_append 0 os [] (by simp [group])
  simpa [group] using h

/-! ## Headers -/

/-- How a line begins that opens a body. -/
def headerWords : List String :=
  ["def ", "if ", "else:", "for "]

/-- Whether a line opens a body. -/
def isHeader (text : String) : Bool :=
  headerWords.any fun word => word.toList.isPrefixOf text.toList

theorem isHeader_of_begins {word text : String} (hword : word ∈ headerWords)
    (h : word.toList <+: text.toList) : isHeader text = true :=
  List.any_eq_true.mpr ⟨word, hword, List.isPrefixOf_iff_prefix.mpr h⟩

/-- A text is no header if no header word begins with its first letter. -/
theorem not_isHeader_of_head {text : String} {c : Char} (htext : text.toList.head? = some c)
    (hc : c ∉ ['d', 'i', 'e', 'f']) : isHeader text = false := by
  have hwords : ∀ word ∈ headerWords, ∃ d ∈ ['d', 'i', 'e', 'f'], word.toList.head? = some d := by
    simp only [headerWords, List.forall_mem_cons]
    exact ⟨⟨'d', by decide, head?_ofList _ _⟩, ⟨'i', by decide, head?_ofList _ _⟩,
      ⟨'e', by decide, head?_ofList _ _⟩, ⟨'f', by decide, head?_ofList _ _⟩, by simp⟩
  refine List.any_eq_false.mpr fun word hword hbegins => ?_
  obtain ⟨d, hd, hhead⟩ := hwords word hword
  have hsame := head?_eq_of_begins hhead (List.isPrefixOf_iff_prefix.mp hbegins)
  rw [htext, Option.some.injEq] at hsame
  exact hc (hsame ▸ hd)

/-- From one line to the next the level grows by one if the first one is a header, and else it does
not grow. -/
def Step (r r' : Row) : Prop :=
  if isHeader r.text then r'.level = r.level + 1 else r'.level ≤ r.level

/-- The level grows after headers only, by one, and after each of them. -/
structure Stepwise (rows : List Row) : Prop where
  steps : rows.IsChain Step
  last : ∀ r ∈ rows.getLast?, isHeader r.text = false

/-- The headers are exactly the lines with a body. -/
inductive Regular : List Outline → Prop
  | nil : Regular []
  | cons {text body os} : (isHeader text = true ↔ body ≠ []) → Regular body → Regular os →
      Regular (⟨text, body⟩ :: os)

theorem Regular.append {os os' : List Outline} (h : Regular os) (h' : Regular os') :
    Regular (os ++ os') := by
  induction h with
  | nil => exact h'
  | cons htext hbody _ _ ih => exact .cons htext hbody ih

/-- The last row of outlines is not a header, for a header would have a body below it. -/
theorem Regular.last {os : List Outline} (h : Regular os) (level : Nat) :
    ∀ r ∈ (rows level os).getLast?, isHeader r.text = false := by
  induction h generalizing level with
  | nil => simp
  | @cons text body os htext hbody _ ihBody ih =>
      intro r hr
      rw [rows_cons] at hr
      by_cases hos : os = []
      · subst hos
        rw [rows_nil, List.append_nil] at hr
        by_cases hempty : body = []
        · subst hempty
          rw [rows_nil, List.getLast?_singleton, Option.mem_some_iff] at hr
          subst hr
          simpa using htext
        · rw [List.getLast?_cons_of_ne_nil (by simpa using hempty)] at hr
          exact ihBody (level + 1) r hr
      · rw [List.getLast?_cons_of_ne_nil (by simp [hos]),
          List.getLast?_append_of_ne_nil _ (by simpa using hos)] at hr
        exact ih level r hr

theorem Regular.steps {os : List Outline} (h : Regular os) (level : Nat) :
    (rows level os).IsChain Step := by
  induction h generalizing level with
  | nil => simp
  | @cons text body os htext hbody hos ihBody ih =>
      rw [rows_cons, List.isChain_cons, List.isChain_append]
      refine ⟨?_, ihBody (level + 1), ih level, ?_⟩
      · -- below the row comes its body, or the next row of its own level
        intro r hr
        rw [List.head?_append, head?_rows, head?_rows] at hr
        unfold Step
        cases body with
        | nil =>
            have hplain : ¬ isHeader text = true := fun h => htext.mp h rfl
            rw [if_neg hplain]
            cases os with
            | nil => simp at hr
            | cons o os =>
                simp only [List.head?_nil, Option.map_none, List.head?_cons, Option.map_some,
                  Option.none_or, Option.mem_some_iff] at hr
                subst hr
                exact Nat.le_refl _
        | cons o body =>
            rw [if_pos (htext.mpr (by simp))]
            simp only [List.head?_cons, Option.map_some, Option.some_or, Option.mem_some_iff] at hr
            subst hr
            rfl
      · -- the end of the body is deeper than the row after it
        intro r hr r' hr'
        have hplain : isHeader r.text = false := hbody.last (level + 1) r hr
        have hdeep : level + 1 ≤ r.level := level_le_of_mem_rows (List.mem_of_getLast? hr)
        have hlevel : r'.level = level := by
          rw [head?_rows] at hr'
          obtain ⟨o, -, rfl⟩ := Option.map_eq_some_iff.mp hr'
          rfl
        unfold Step
        rw [hplain, hlevel]
        simp only [Bool.false_eq_true, if_false]
        omega

theorem Regular.stepwise {os : List Outline} (h : Regular os) (level : Nat) :
    Stepwise (rows level os) :=
  ⟨h.steps level, h.last level⟩

/-! ## Outlines of statements -/

/-- What stands below a header: a statement that does nothing if there is nothing else. -/
def orPass (os : List Outline) : List Outline :=
  if os.isEmpty then [⟨"pass", []⟩] else os

theorem orPass_ne_nil (os : List Outline) : orPass os ≠ [] := by
  unfold orPass
  cases os with
  | nil => simp
  | cons o os => simp

theorem Regular.line {text : String} {os : List Outline} (htext : isHeader text = false)
    (hos : Regular os) : Regular (⟨text, []⟩ :: os) :=
  .cons (by simp [htext]) .nil hos

theorem Regular.orPass {os : List Outline} (h : Regular os) : Regular (orPass os) := by
  cases os with
  | nil => exact .line (not_isHeader_of_head (head?_ofList 'p' _) (by decide)) .nil
  | cons o os => exact h

theorem Regular.header {text : String} {body os : List Outline} (htext : isHeader text = true)
    (hbody : Regular body) (hos : Regular os) : Regular (⟨text, Outline.orPass body⟩ :: os) :=
  .cons (iff_of_true htext (orPass_ne_nil body)) hbody.orPass hos

theorem forall_texts_orPass {os : List Outline} {P : String → Prop} (hpass : P "pass") :
    (∀ text ∈ texts (orPass os), P text) ↔ ∀ text ∈ texts os, P text := by
  unfold orPass
  cases os with
  | nil => simpa using hpass
  | cons o os => simp

theorem flush_pass : Flush "pass" :=
  ⟨'p', rfl, by decide⟩

theorem indent_rows {unit : String} {level : Nat} {os : List Outline}
    (h : ∀ text ∈ texts os, Flush text) :
    indent unit ((rows level os).map (Row.line unit)) =
      (rows (level + 1) os).map (Row.line unit) := by
  rw [rows_succ]
  exact Row.indent_map_line fun r hr => h r.text (text_mem_texts hr)

/-- The lines below a header are the rows of an outline that is never empty. -/
theorem body_rows {unit : String} {os : List Outline} (h : ∀ text ∈ texts os, Flush text) :
    Text.body unit ((rows 0 os).map (Row.line unit)) =
      (rows 1 (orPass os)).map (Row.line unit) := by
  unfold Text.body orPass
  cases os with
  | nil =>
      have hpass : ∀ text ∈ texts [⟨"pass", []⟩], Flush text := by simpa using flush_pass
      simpa [rows_cons, placeholder] using @indent_rows unit 0 _ hpass
  | cons o os =>
      rw [if_neg (by simp [rows_cons]), if_neg (by simp)]
      exact indent_rows h

end Outline

open Outline in
/-- The outline of statements. A branch shows as two lines with a body each, the second of which
does nothing. -/
def Stmt.outlines : List Stmt → List Outline
  | [] => []
  | .line text :: ss => ⟨text, []⟩ :: outlines ss
  | .guard condition stmts :: ss =>
      ⟨"if " ++ condition ++ ":", orPass (outlines stmts)⟩ :: outlines ss
  | .branch condition stmts :: ss =>
      ⟨"if " ++ condition ++ ":", orPass (outlines stmts)⟩ :: ⟨"else:", [⟨"pass", []⟩]⟩ ::
        outlines ss
  | .loop count stmts :: ss =>
      ⟨"for _ in range(" ++ toString count ++ "):", orPass (outlines stmts)⟩ :: outlines ss

open Outline in
/-- Statements are written as the rows of their outline. -/
theorem Stmt.linesOfAll_eq_rows {unit : String} {ss : List Stmt}
    (h : ∀ text ∈ texts (outlines ss), Flush text) :
    linesOfAll unit ss = (rows 0 (outlines ss)).map (Row.line unit) := by
  induction ss using outlines.induct with
  | case1 => simp [outlines, linesOfAll]
  | case2 text ss ih =>
      simp only [outlines, texts_cons, List.forall_mem_cons, texts_nil, List.nil_append] at h
      rw [linesOfAll, lines, ih h.2, outlines, rows_cons]
      simp
  | case3 condition stmts ss ihBody ih =>
      simp only [outlines, texts_cons, List.forall_mem_cons, List.forall_mem_append,
        forall_texts_orPass flush_pass] at h
      obtain ⟨-, hbody, hothers⟩ := h
      rw [linesOfAll, lines, ihBody hbody, body_rows hbody, ih hothers, outlines, rows_cons]
      simp [ifHeader]
  | case4 condition stmts ss ihBody ih =>
      simp only [outlines, texts_cons, List.forall_mem_cons, List.forall_mem_append,
        forall_texts_orPass flush_pass] at h
      obtain ⟨-, hbody, -, -, hothers⟩ := h
      have helse : Text.body unit [placeholder] = (rows 1 [⟨"pass", []⟩]).map (Row.line unit) := by
        simpa [orPass, rows_cons, placeholder] using
          @body_rows unit [⟨"pass", []⟩] (by simpa using flush_pass)
      rw [linesOfAll, lines, ihBody hbody, body_rows hbody, helse, ih hothers, outlines]
      simp [rows_cons, ifHeader, elseHeader]
  | case5 count stmts ss ihBody ih =>
      simp only [outlines, texts_cons, List.forall_mem_cons, List.forall_mem_append,
        forall_texts_orPass flush_pass] at h
      obtain ⟨-, hbody, hothers⟩ := h
      have hheader : loopHeader count = "for _ in range(" ++ toString count ++ "):" := rfl
      rw [linesOfAll, lines, ihBody hbody, body_rows hbody, ih hothers, outlines,
        rows_cons, hheader]
      simp

end BlockBot.Code
