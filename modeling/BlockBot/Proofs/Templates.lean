import BlockBot.Proofs.TextLines

/-!
# Templates in another unit

A template is cut after each line feed, its lines are rescaled one by one, and the results are put
together again. That the new text has as many lines as the template, and which ones, is not plain
from this: a line of spaces only, without a line feed, would be lost if nothing were left of it. In
a template whose lines all begin with whole levels that does not happen, and the lines of the new
text are the rescaled lines (`linesOf_rescale`). With four spaces for a level they are the lines of
the template itself, so the short way of `reindent` gives what the long way gives.
-/

namespace BlockBot

open BlockBot.Code BlockBot.Text

/-! ## Cutting a text into lines -/

/-- The lines of a text: each one ends with its only line feed, except that the last one may have
none if it is not empty. -/
inductive AreLines : List (List Char) → Prop
  | nil : AreLines []
  | unended {line} : line ≠ [] → '\n' ∉ line → AreLines [line]
  | cons {line lines} : '\n' ∉ line → AreLines lines → AreLines ((line ++ ['\n']) :: lines)

theorem linesAux_of_not_mem {line start : List Char} (h : '\n' ∉ line)
    (hne : start.reverse ++ line ≠ []) : linesAux start line = [start.reverse ++ line] := by
  induction line generalizing start with
  | nil =>
      have hstart : start.isEmpty = false := by simpa using hne
      rw [linesAux, hstart]
      simp
  | cons c line ih =>
      rw [List.mem_cons, not_or] at h
      rw [linesAux, if_neg (Ne.symm h.1), ih h.2 (by simp), List.reverse_cons, List.append_assoc,
        List.singleton_append]

/-- Lines that are put together are cut apart again at the same places. -/
theorem AreLines.linesOf_flatten {lines : List (List Char)} (h : AreLines lines) :
    linesOf lines.flatten = lines := by
  induction h with
  | nil => rfl
  | unended hne hline =>
      rw [List.flatten_singleton]
      exact linesAux_of_not_mem hline hne
  | @cons line lines hline _ ih =>
      rw [List.flatten_cons, List.append_assoc, List.singleton_append, linesOf,
        linesAux_append hline]
      exact congrArg ((line ++ ['\n']) :: ·) ih

theorem areLines_linesAux {start : List Char} (h : '\n' ∉ start) (cs : List Char) :
    AreLines (linesAux start cs) ∧ (linesAux start cs).flatten = start.reverse ++ cs := by
  induction cs generalizing start with
  | nil =>
      rw [linesAux]
      cases start with
      | nil => exact ⟨.nil, rfl⟩
      | cons c start =>
          refine ⟨.unended (by simp) ?_, by simp⟩
          rwa [List.mem_reverse]
  | cons c cs ih =>
      rw [linesAux]
      by_cases hc : c = '\n'
      · obtain ⟨hlines, hflatten⟩ := @ih [] List.not_mem_nil
        subst hc
        rw [if_pos rfl, List.reverse_cons]
        refine ⟨.cons (by rwa [List.mem_reverse]) hlines, ?_⟩
        rw [List.flatten_cons, hflatten, List.append_assoc]
        rfl
      · rw [if_neg hc]
        obtain ⟨hlines, hflatten⟩ := @ih (c :: start) (by simp [h, Ne.symm hc])
        exact ⟨hlines, by rw [hflatten, List.reverse_cons, List.append_assoc,
          List.singleton_append]⟩

theorem areLines_linesOf (cs : List Char) : AreLines (linesOf cs) :=
  (areLines_linesAux List.not_mem_nil cs).1

theorem flatten_linesOf (cs : List Char) : (linesOf cs).flatten = cs :=
  (areLines_linesAux List.not_mem_nil cs).2

/-! ## Rescaling a line -/

/-- Spaces before what a line says are its leading spaces. -/
theorem spaces_append_afterSpaces (n : Nat) (line : List Char) :
    leadingSpaces (List.replicate n ' ' ++ afterSpaces line) = n ∧
      afterSpaces (List.replicate n ' ' ++ afterSpaces line) = afterSpaces line := by
  have hspaces : ∀ c ∈ List.replicate n ' ', (c == ' ') = true := by
    intro c hc
    rw [List.eq_of_mem_replicate hc]
    rfl
  have hends := List.head?_dropWhile_not (· == ' ') line
  have hstop : (afterSpaces line).takeWhile (· == ' ') = [] ∧
      (afterSpaces line).dropWhile (· == ' ') = afterSpaces line := by
    unfold afterSpaces
    cases hrest : line.dropWhile (· == ' ') with
    | nil => exact ⟨rfl, rfl⟩
    | cons c cs =>
        have hc : (c == ' ') = false := by simpa [hrest] using hends
        simp [hc]
  constructor
  · rw [leadingSpaces, List.takeWhile_append_of_pos hspaces, hstop.1, List.append_nil,
      List.length_replicate]
  · rw [afterSpaces, List.dropWhile_append_of_pos hspaces]
    exact hstop.2

/-- A line of a template is the same in the template's own unit. -/
theorem rescaleLine_four {line : List Char} (h : 4 ∣ leadingSpaces line) :
    rescaleLine (List.replicate 4 ' ') line = line := by
  rw [rescaleLine_spaces, Nat.div_mul_cancel h, replicate_append_afterSpaces]

/-- Something is left of a line, also if it has only spaces. -/
theorem rescaleLine_ne_nil {line : List Char} (h : line ≠ []) (haligned : 4 ∣ leadingSpaces line)
    {width : Nat} (hwidth : 0 < width) : rescaleLine (List.replicate width ' ') line ≠ [] := by
  intro hnil
  rw [rescaleLine_spaces, List.append_eq_nil_iff, List.replicate_eq_nil_iff] at hnil
  obtain ⟨hspaces, hrest⟩ := hnil
  have hzero : leadingSpaces line = 0 := by
    rcases Nat.mul_eq_zero.mp hspaces with hlevels | hnone
    · omega
    · omega
  apply h
  rw [← replicate_append_afterSpaces line, hzero, hrest]
  rfl

/-! ## Rescaling a template -/

/-- The rescaled lines of a template are the lines of a text. -/
theorem AreLines.rescaled {lines : List (List Char)} (h : AreLines lines)
    (haligned : ∀ line ∈ lines, 4 ∣ leadingSpaces line) {width : Nat} (hwidth : 0 < width) :
    AreLines (lines.map (rescaleLine (List.replicate width ' '))) := by
  induction h with
  | nil => exact .nil
  | unended hne hline =>
      have hspaces := haligned _ List.mem_cons_self
      exact .unended (rescaleLine_ne_nil hne hspaces hwidth)
        (newline_not_mem_rescaleLine hline width)
  | cons hline _ ih =>
      rw [List.forall_mem_cons] at haligned
      rw [List.map_cons, rescaleLine_newline]
      exact .cons (newline_not_mem_rescaleLine hline width) (ih haligned.2)

theorem linesOf_rescale {template : String}
    (h : ∀ line ∈ linesOf template.toList, 4 ∣ leadingSpaces line) {width : Nat}
    (hwidth : 0 < width) :
    linesOf (rescale (String.ofList (List.replicate width ' ')) template).toList =
      (linesOf template.toList).map (rescaleLine (List.replicate width ' ')) := by
  rw [rescale, String.toList_ofList, String.toList_ofList, List.flatMap_def]
  exact ((areLines_linesOf template.toList).rescaled h hwidth).linesOf_flatten

theorem rescale_four {template : String}
    (h : ∀ line ∈ linesOf template.toList, 4 ∣ leadingSpaces line) :
    rescale (String.ofList (List.replicate 4 ' ')) template = template := by
  have hlines : (linesOf template.toList).map (rescaleLine (List.replicate 4 ' ')) =
      linesOf template.toList :=
    (List.map_congr_left fun line hline => rescaleLine_four (h line hline)).trans (List.map_id _)
  rw [rescale, String.toList_ofList, List.flatMap_def, hlines, flatten_linesOf,
    String.ofList_toList]

/-- The short way for four spaces gives what the long way gives. -/
theorem reindent_eq_rescale {template : String}
    (h : ∀ line ∈ linesOf template.toList, 4 ∣ leadingSpaces line) (unit : String) :
    reindent unit template = rescale unit template := by
  unfold reindent
  split_ifs with hunit
  · rw [hunit]
    exact (rescale_four h).symm
  · rfl

/-- A template whose lines begin with multiples of four spaces. In a unit of four spaces the long
way of rescaling it leaves it as it is, so that the short way agrees. In any unit of spaces it has
as many lines as before, and each of them says the same after as many units as it had groups of four
spaces. -/
theorem reindent_template (template : String)
    (h : ∀ line ∈ linesOf template.toList, 4 ∣ leadingSpaces line) :
    rescale "    " template = template ∧ reindent "    " template = rescale "    " template ∧
      ∀ width, 0 < width → ∀ unit, unit = String.ofList (List.replicate width ' ') →
        (linesOf (reindent unit template).toList).length = (linesOf template.toList).length ∧
        ∀ (i : Nat) (line : List Char), (linesOf template.toList)[i]? = some line →
          ∃ k line', (linesOf (reindent unit template).toList)[i]? = some line' ∧
            leadingSpaces line = 4 * k ∧
            line' = (List.replicate k unit.toList).flatten ++ afterSpaces line ∧
            leadingSpaces line' = k * width ∧ afterSpaces line' = afterSpaces line := by
  refine ⟨rescale_four h, reindent_eq_rescale h _, ?_⟩
  rintro width hwidth unit rfl
  rw [reindent_eq_rescale h, linesOf_rescale h hwidth, List.length_map, String.toList_ofList]
  refine ⟨rfl, ?_⟩
  intro i line hline
  obtain ⟨k, hk⟩ := h line (List.mem_of_getElem? hline)
  have hlevels : leadingSpaces line / 4 = k := by omega
  have hspaces := spaces_append_afterSpaces (k * width) line
  refine ⟨k, rescaleLine (List.replicate width ' ') line, ?_, hk, ?_, ?_, ?_⟩
  · rw [List.getElem?_map, hline, Option.map_some]
  · rw [rescaleLine_spaces, hlevels, List.flatten_replicate_replicate]
  · rw [rescaleLine_spaces, hlevels]
    exact hspaces.1
  · rw [rescaleLine_spaces, hlevels]
    exact hspaces.2

/-- Below a nested line stand an empty one, one of eight spaces and, without a line feed, one of
four. -/
theorem reindent_template_blank :
    let template := "a:\n    b\n\n        \n    "
    (∀ line ∈ linesOf template.toList, 4 ∣ leadingSpaces line) ∧
      rescale "    " template = template ∧
      (linesOf (reindent "  " template).toList).length = 5 ∧
        reindent "  " template = "a:\n  b\n\n    \n  " := by
  intro template
  have h : ∀ line ∈ linesOf template.toList, 4 ∣ leadingSpaces line := by decide
  have hfive : (linesOf template.toList).length = 5 := by decide
  obtain ⟨hfour, -, hother⟩ := reindent_template template h
  have htwo := (hother 2 (by decide) "  " rfl).1
  exact ⟨h, hfour, htwo.trans hfive, by decide⟩

end BlockBot
