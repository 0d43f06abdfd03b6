import BlockBot.Text.Blank
import Mathlib.Data.List.DropRight

/-!
# Words of a text

The words of a text and what is left of it without the blanks at its ends, said by where they stand
in it (`HasWords`, `TrimsTo`); a text has one list of words and one trimmed form. Cutting a text
into words undoes joining words by spaces (`words_intercalate`), and blanks at the ends of a text do
not matter to its words (`words_trim`). A text that is one word between blanks is known by its words
as well as by trimming (`trim_eq_iff`).
-/

namespace BlockBot.Text

/-- A word: it has characters, and none of them is blank. -/
structure IsWord (w : List Char) : Prop where
  ne_nil : w ≠ []
  plain : ∀ c ∈ w, isBlank c = false

theorem IsWord.of_all {w : List Char} (hne : w ≠ []) (h : (w.all fun c => !isBlank c) = true) :
    IsWord w where
  ne_nil := hne
  plain := by
    intro c hc
    simpa using List.all_eq_true.mp h c hc

/-- What does not start with a blank starts with a word, after which the text ends or a blank
follows. -/
theorem exists_isWord {c : Char} (hc : isBlank c = false) (cs : List Char) :
    ∃ w rest, IsWord w ∧ c :: cs = w ++ rest ∧ ∀ d ∈ rest.head?, isBlank d = true := by
  refine ⟨(c :: cs).takeWhile fun d => !isBlank d, (c :: cs).dropWhile fun d => !isBlank d,
    ⟨?_, ?_⟩, List.takeWhile_append_dropWhile.symm, ?_⟩
  · simp [hc]
  · exact fun d hd => by simpa using List.mem_takeWhile_imp hd
  · intro d hd
    have hstop := List.head?_dropWhile_not (fun d => !isBlank d) (c :: cs)
    rw [Option.mem_def.mp hd] at hstop
    simpa using hstop

/-! ## The loop over characters -/

/-- A blank-free piece is added to the word being read. -/
theorem wordsAux_append_plain {w : List Char} (h : ∀ c ∈ w, isBlank c = false)
    (word cs : List Char) : wordsAux word (w ++ cs) = wordsAux (w.reverse ++ word) cs := by
  induction w generalizing word with
  | nil => rfl
  | cons c w ih =>
      rw [List.forall_mem_cons] at h
      rw [List.cons_append, wordsAux, if_neg (by simp [h.1]), ih h.2, List.reverse_cons,
        List.append_assoc, List.singleton_append]

theorem wordsAux_word {w cs : List Char} (hw : IsWord w) (hcs : ∀ c ∈ cs.head?, isBlank c = true) :
    wordsAux [] (w ++ cs) = w :: wordsAux [] cs := by
  rw [wordsAux_append_plain hw.plain, List.append_nil]
  cases cs with
  | nil => simp [wordsAux, hw.ne_nil]
  | cons c cs =>
      have hc : isBlank c = true := hcs c rfl
      simp [wordsAux, hc, hw.ne_nil]

theorem wordsAux_single {w : List Char} (hw : IsWord w) : wordsAux [] w = [w] := by
  have hend : ∀ c ∈ ([] : List Char).head?, isBlank c = true := by simp
  have hself := wordsAux_word hw hend
  rwa [List.append_nil] at hself

theorem wordsAux_dropWhile (cs : List Char) :
    wordsAux [] (cs.dropWhile isBlank) = wordsAux [] cs := by
  induction cs with
  | nil => rfl
  | cons c cs ih =>
      by_cases hc : isBlank c = true
      · rw [List.dropWhile_cons_of_pos hc, ih]
        simp [wordsAux, hc]
      · rw [List.dropWhile_cons_of_neg hc]

theorem wordsAux_append_blanks {blanks : List Char} (h : ∀ c ∈ blanks, isBlank c = true)
    (word cs : List Char) : wordsAux word (cs ++ blanks) = wordsAux word cs := by
  induction cs generalizing word with
  | nil =>
      induction blanks generalizing word with
      | nil => rfl
      | cons c blanks ih =>
          rw [List.forall_mem_cons] at h
          have hblanks : wordsAux [] blanks = [] := ih h.2 []
          simp [wordsAux, h.1, hblanks]
  | cons c cs ih => rw [List.cons_append, wordsAux, wordsAux, ih, ih]

theorem wordsAux_eq_nil {cs : List Char} : wordsAux [] cs = [] ↔ ∀ c ∈ cs, isBlank c = true := by
  constructor
  · intro h
    induction cs with
    | nil => simp
    | cons c cs ih =>
        cases hc : isBlank c with
        | true =>
            have hcs : wordsAux [] cs = [] := by simpa [wordsAux, hc] using h
            exact List.forall_mem_cons.mpr ⟨hc, ih hcs⟩
        | false =>
            obtain ⟨w, rest, hw, heq, hrest⟩ := exists_isWord hc cs
            rw [heq, wordsAux_word hw hrest] at h
            cases h
  · exact fun h => wordsAux_append_blanks h [] []

/-- Every piece that is cut off is a word, if what was read before is free of blanks. -/
theorem isWord_of_mem_wordsAux {word cs w : List Char} (hword : ∀ c ∈ word, isBlank c = false)
    (h : w ∈ wordsAux word cs) : IsWord w := by
  have hdone : word.isEmpty = false → IsWord word.reverse := fun hne =>
    ⟨by simpa using hne, fun c hc => hword c (List.mem_reverse.mp hc)⟩
  induction cs generalizing word with
  | nil =>
      cases hne : word.isEmpty with
      | true => simp [wordsAux, hne] at h
      | false =>
          obtain rfl : w = word.reverse := by simpa [wordsAux, hne] using h
          exact hdone hne
  | cons c cs ih =>
      cases hc : isBlank c with
      | false =>
          have hlonger : ∀ d ∈ c :: word, isBlank d = false := List.forall_mem_cons.mpr ⟨hc, hword⟩
          rw [wordsAux, if_neg (by simp [hc])] at h
          exact ih hlonger h fun hne => ⟨by simp, fun d hd => hlonger d (List.mem_reverse.mp hd)⟩
      | true =>
          rw [wordsAux, if_pos hc] at h
          have hnext : w ∈ wordsAux [] cs → IsWord w := fun h => ih (by simp) h (by simp)
          cases hne : word.isEmpty with
          | true => exact hnext (by simpa [hne] using h)
          | false =>
              rcases List.mem_cons.mp (by simpa [hne] using h) with rfl | h
              · exact hdone hne
              · exact hnext h

/-- `AreWords cs ws`: the words `ws` stand in `cs` in this order, with blanks between them and
nothing else. -/
inductive AreWords : List Char → List (List Char) → Prop
  | done : AreWords [] []
  | blank {c cs ws} : isBlank c = true → AreWords cs ws → AreWords (c :: cs) ws
  | word {w cs ws} : IsWord w → (∀ c ∈ cs.head?, isBlank c = true) → AreWords cs ws →
      AreWords (w ++ cs) (w :: ws)

theorem AreWords.eq_wordsAux {cs : List Char} {ws : List (List Char)} (h : AreWords cs ws) :
    ws = wordsAux [] cs := by
  induction h with
  | done => rfl
  | blank hc _ ih => simp [wordsAux, hc, ih]
  | word hw hcs _ ih => rw [wordsAux_word hw hcs, ih]

theorem areWords_wordsAux (cs : List Char) : AreWords cs (wordsAux [] cs) := by
  -- on the length: a word is taken off as a whole
  induction hn : cs.length using Nat.strong_induction_on generalizing cs with
  | _ n ih =>
      cases cs with
      | nil => exact .done
      | cons c cs =>
          cases hc : isBlank c with
          | true =>
              have hrest : wordsAux [] (c :: cs) = wordsAux [] cs := by simp [wordsAux, hc]
              rw [hrest]
              exact .blank hc (ih cs.length (by simp [← hn]) cs rfl)
          | false =>
              obtain ⟨w, rest, hw, heq, hrest⟩ := exists_isWord hc cs
              have hlength : (c :: cs).length = w.length + rest.length := by
                rw [heq, List.length_append]
              have hword : 0 < w.length := List.length_pos_of_ne_nil hw.ne_nil
              rw [heq, wordsAux_word hw hrest]
              exact .word hw hrest (ih rest.length (by omega) rest rfl)

/-- The words of a text, in their order. -/
def HasWords (s : String) (ws : List String) : Prop :=
  AreWords s.toList (ws.map String.toList)

/-- A text has one list of words. -/
theorem hasWords_iff {s : String} {ws : List String} : HasWords s ws ↔ ws = words s := by
  unfold HasWords words
  constructor
  · intro h
    rw [← h.eq_wordsAux, List.map_map]
    simp
  · rintro rfl
    rw [List.map_map]
    simpa using areWords_wordsAux s.toList

/-! ## Trimming -/

/-- Blanks at the end are dropped, up to a character that is none. -/
theorem dropBlankEnd_append {cs blanks : List Char} (hlast : ∀ c ∈ cs.getLast?, isBlank c = false)
    (h : ∀ c ∈ blanks, isBlank c = true) : dropBlankEnd (cs ++ blanks) = cs := by
  have hkeep : cs.reverse.dropWhile isBlank = cs.reverse := by
    rw [← List.head?_reverse] at hlast
    cases hrev : cs.reverse with
    | nil => rfl
    | cons c rest =>
        rw [hrev] at hlast
        rw [List.dropWhile_cons_of_neg (by simp [hlast c rfl])]
  unfold dropBlankEnd
  rw [List.reverse_append, List.dropWhile_append_of_pos fun c hc => h c (List.mem_reverse.mp hc),
    hkeep, List.reverse_reverse]

/-- `TrimsTo s t`: the text `t` is what is left of `s` without the blanks at its two ends. -/
structure TrimsTo (s t : String) : Prop where
  parts : ∃ before after, s.toList = before ++ (t.toList ++ after) ∧
    (∀ c ∈ before, isBlank c = true) ∧ ∀ c ∈ after, isBlank c = true
  first : ∀ c ∈ t.toList.head?, isBlank c = false
  last : ∀ c ∈ t.toList.getLast?, isBlank c = false

theorem trimsTo_trim (s : String) : TrimsTo s (trim s) := by
  unfold trim
  refine ⟨⟨s.toList.takeWhile isBlank, (s.toList.dropWhile isBlank).rtakeWhile isBlank, ?_, ?_, ?_⟩,
    ?_, ?_⟩
  · rw [String.toList_ofList]
    change _ = _ ++ ((s.toList.dropWhile isBlank).rdropWhile isBlank ++ _)
    rw [List.rdropWhile_append_rtakeWhile, List.takeWhile_append_dropWhile]
  · exact fun c hc => List.mem_takeWhile_imp hc
  · exact fun c hc => List.mem_rtakeWhile_imp hc
  · rw [String.toList_ofList]
    intro c hc
    -- what is dropped at the end leaves the first character alone
    have hhead : (s.toList.dropWhile isBlank).head? = some c := by
      have hrest : s.toList.dropWhile isBlank = dropBlankEnd (s.toList.dropWhile isBlank) ++
          (s.toList.dropWhile isBlank).rtakeWhile isBlank :=
        (List.rdropWhile_append_rtakeWhile ..).symm
      rw [hrest, List.head?_append, Option.mem_def.mp hc, Option.some_or]
    have hstop := List.head?_dropWhile_not isBlank s.toList
    rwa [hhead] at hstop
  · rw [String.toList_ofList, dropBlankEnd, List.getLast?_reverse]
    intro c hc
    have hstop := List.head?_dropWhile_not isBlank (s.toList.dropWhile isBlank).reverse
    rwa [Option.mem_def.mp hc] at hstop

/-- There is one way to trim a text. -/
theorem trimsTo_iff {s t : String} : TrimsTo s t ↔ t = trim s := by
  constructor
  · rintro ⟨⟨before, after, hparts, hbefore, hafter⟩, hfirst, hlast⟩
    have hdrop : dropBlankEnd (s.toList.dropWhile isBlank) = t.toList := by
      rw [hparts, List.dropWhile_append_of_pos hbefore]
      cases ht : t.toList with
      | nil =>
          rw [List.nil_append, List.dropWhile_eq_nil_iff.mpr hafter]
          rfl
      | cons c cs =>
          rw [ht] at hfirst hlast
          rw [List.cons_append, List.dropWhile_cons_of_neg (by simp [hfirst c rfl]),
            ← List.cons_append, dropBlankEnd_append hlast hafter]
    rw [trim, hdrop, String.ofList_toList]
  · rintro rfl
    exact trimsTo_trim s

theorem wordsAux_dropBlankEnd (cs : List Char) :
    wordsAux [] (dropBlankEnd cs) = wordsAux [] cs := by
  have hend : ∀ c ∈ cs.rtakeWhile isBlank, isBlank c = true :=
    fun c hc => List.mem_rtakeWhile_imp hc
  calc wordsAux [] (dropBlankEnd cs)
      = wordsAux [] (cs.rdropWhile isBlank ++ cs.rtakeWhile isBlank) :=
        (wordsAux_append_blanks hend _ _).symm
    _ = wordsAux [] cs := by rw [List.rdropWhile_append_rtakeWhile]

theorem words_trim (s : String) : words (trim s) = words s := by
  unfold words trim
  rw [String.toList_ofList, wordsAux_dropBlankEnd, wordsAux_dropWhile]

/-- Around a single word there are blanks. -/
theorem AreWords.around {cs w : List Char} (h : AreWords cs [w]) :
    ∃ before after, cs = before ++ (w ++ after) ∧
      (∀ c ∈ before, isBlank c = true) ∧ ∀ c ∈ after, isBlank c = true := by
  generalize hws : [w] = ws at h
  induction h with
  | done => cases hws
  | @blank c _ _ hc _ ih =>
      obtain ⟨before, after, rfl, hbefore, hafter⟩ := ih hws
      exact ⟨c :: before, after, rfl, List.forall_mem_cons.mpr ⟨hc, hbefore⟩, hafter⟩
  | word _ _ hrest _ =>
      obtain ⟨rfl, rfl⟩ := List.cons.inj hws
      exact ⟨[], _, rfl, by simp, wordsAux_eq_nil.mp hrest.eq_wordsAux.symm⟩

/-- One word is left by trimming if and only if it is the only one. -/
theorem trim_eq_iff {s w : String} (hw : IsWord w.toList) : trim s = w ↔ words s = [w] := by
  constructor
  · rintro rfl
    rw [← words_trim]
    simp [words, wordsAux_single hw]
  · intro h
    have hparts := (hasWords_iff.mpr h.symm).around
    exact (trimsTo_iff.mp ⟨hparts, fun c hc => hw.plain c (List.mem_of_head? hc),
      fun c hc => hw.plain c (List.mem_of_getLast? hc)⟩).symm

/-! ## Joining -/

theorem wordsAux_intercalate {ws : List (List Char)} (h : ∀ w ∈ ws, IsWord w) :
    wordsAux [] ([' '].intercalate ws) = ws := by
  induction ws with
  | nil => rfl
  | cons w ws ih =>
      rw [List.forall_mem_cons] at h
      cases ws with
      | nil => rw [List.intercalate_singleton, wordsAux_single h.1]
      | cons w' ws =>
          have hspace : ∀ cs, wordsAux [] (' ' :: cs) = wordsAux [] cs := fun cs => rfl
          rw [List.intercalate_cons_cons, List.append_assoc, List.singleton_append,
            wordsAux_word h.1 (by simp [isBlank]), hspace, ih h.2]

/-- Words that are joined by spaces are found again. -/
theorem words_intercalate {ws : List String} (h : ∀ w ∈ ws, IsWord w.toList) :
    words (" ".intercalate ws) = ws := by
  have hchars : ∀ cs ∈ ws.map String.toList, IsWord cs := by simpa using h
  unfold words
  rw [String.toList_intercalate]
  change (wordsAux [] ([' '].intercalate (ws.map String.toList))).map String.ofList = ws
  rw [wordsAux_intercalate hchars]
  simp

theorem mem_intercalate_spaces {ws : List (List Char)} {c : Char} (h : c ∈ [' '].intercalate ws) :
    c = ' ' ∨ ∃ w ∈ ws, c ∈ w := by
  induction ws with
  | nil => cases h
  | cons w ws ih =>
      cases ws with
      | nil =>
          rw [List.intercalate_singleton] at h
          exact .inr ⟨w, List.mem_cons_self, h⟩
      | cons w' ws =>
          rw [List.intercalate_cons_cons, List.mem_append, List.mem_append, List.mem_singleton] at h
          rcases h with (h | h) | h
          · exact .inr ⟨w, List.mem_cons_self, h⟩
          · exact .inl h
          · exact (ih h).imp_right fun ⟨v, hv, hc⟩ => ⟨v, List.mem_cons_of_mem w hv, hc⟩

theorem isWord_of_mem_words {s w : String} (h : w ∈ words s) : IsWord w.toList := by
  obtain ⟨cs, hcs, rfl⟩ := List.mem_map.mp h
  rw [String.toList_ofList]
  exact isWord_of_mem_wordsAux (by simp) hcs

end BlockBot.Text
