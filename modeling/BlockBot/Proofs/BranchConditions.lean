import BlockBot.Handler.Condition
import BlockBot.Proofs.Tags
import BlockBot.Proofs.Words

/-!
# Where the condition of a branch comes from

A branch may say its condition in three places at once: in an object of its own, in fields of the
block, and as an expression of the author's own. `HasCondition` lists the five cases in their order
of priority, each on the fields of the block alone, and for every table of fields there is exactly
one condition in the list, the one that is written. How a comparison is written depends on the words
of its operator (`Compares`).
-/

namespace BlockBot

open BlockBot.Json BlockBot.Text

/-! ## Comparisons -/

/-- The subjects that are known. -/
def subjectNames : List String :=
  ["message", "variable", "userId"]

/-- The operators that ask for membership, by their words. -/
def membershipSpellings : List (List String) :=
  [["in"], ["not", "in"], ["notIn"], ["not_in"]]

/-- An operator from its words, with single spaces between them. -/
def operatorText (ws : List String) : String :=
  if ws = ["notIn"] ∨ ws = ["not_in"] then "not in" else " ".intercalate ws

/-- `SubjectText value name text`: this is how the subject `name` is written where it is compared
with `value`. A variable stands in the value itself; if there is none, the literal takes its
place. -/
inductive SubjectText (value : String) : String → String → Prop
  | message : SubjectText value "message" "message"
  | userId : SubjectText value "userId" "user_id"
  | variable {text} : (∃ c ∈ value.toList, isBlank c = false) → TrimsTo value text →
      SubjectText value "variable" text
  | blank : (∀ c ∈ value.toList, isBlank c = true) →
      SubjectText value "variable" (textLiteral value)

/-- `Compares name operator value text`: this is how a comparison is written; for membership the
literal is on the left. -/
inductive Compares (name operator value : String) : String → Prop
  | membership {ws subject} : HasWords operator ws → ws ∈ membershipSpellings →
      SubjectText value name subject →
      Compares name operator value (textLiteral value ++ " " ++ operatorText ws ++ " " ++ subject)
  | other {ws subject} : HasWords operator ws → ws ∉ membershipSpellings →
      SubjectText value name subject →
      Compares name operator value (subject ++ " " ++ operatorText ws ++ " " ++ textLiteral value)

/-- The expression for a subject, given the value that it is compared with. -/
def Subject.expression (subject : Subject) (value : String) : String :=
  match subject with
  | .message => "message"
  | .userId => "user_id"
  | .rawVariable => if isBlankText value then textLiteral value else trim value

/-- A comparison by its words. -/
def comparison (subject : Subject) (operator value : String) : String :=
  if words operator ∈ membershipSpellings then
    textLiteral value ++ " " ++ operatorText (words operator) ++ " " ++ subject.expression value
  else
    subject.expression value ++ " " ++ operatorText (words operator) ++ " " ++ textLiteral value

theorem mem_subjectNames {name : String} : name ∈ subjectNames ↔ ∃ s : Subject, s.tag = name :=
  @mem_tags Subject _ _ _

theorem subjectText_iff {subject : Subject} {value text : String} :
    SubjectText value subject.tag text ↔ text = subject.expression value := by
  constructor
  · intro h
    generalize hname : subject.tag = name at h
    cases h with
    | message =>
        obtain rfl : subject = .message := (tag_inj (b := Subject.message)).mp hname
        rfl
    | userId =>
        obtain rfl : subject = .userId := (tag_inj (b := Subject.userId)).mp hname
        rfl
    | «variable» hfilled htrim =>
        obtain rfl : subject = .rawVariable := (tag_inj (b := Subject.rawVariable)).mp hname
        rw [Subject.expression, Fields.isBlankText_eq_false.mpr hfilled]
        exact trimsTo_iff.mp htrim
    | blank hblank =>
        obtain rfl : subject = .rawVariable := (tag_inj (b := Subject.rawVariable)).mp hname
        exact (if_pos (List.all_eq_true.mpr hblank)).symm
  · rintro rfl
    cases subject with
    | message => exact .message
    | userId => exact .userId
    | rawVariable =>
        unfold Subject.expression
        split_ifs with hblank
        · exact .blank (List.all_eq_true.mp hblank)
        · refine .variable (Fields.isBlankText_eq_false.mp ?_) (trimsTo_trim value)
          simpa using hblank

theorem compares_iff {subject : Subject} {operator value text : String} :
    Compares subject.tag operator value text ↔ text = comparison subject operator value := by
  constructor
  · intro h
    cases h with
    | membership hwords hmember hsubject =>
        obtain rfl := hasWords_iff.mp hwords
        rw [comparison, if_pos hmember, subjectText_iff.mp hsubject]
    | other hwords hmember hsubject =>
        obtain rfl := hasWords_iff.mp hwords
        rw [comparison, if_neg hmember, subjectText_iff.mp hsubject]
  · rintro rfl
    unfold comparison
    split_ifs with hmember
    · exact .membership (hasWords_iff.mpr rfl) hmember (subjectText_iff.mpr rfl)
    · exact .other (hasWords_iff.mpr rfl) hmember (subjectText_iff.mpr rfl)

/-- A text in which spaces are the only blanks; above all there is no line break in it. -/
def OnlySpaces (text : String) : Prop :=
  ∀ c ∈ text.toList, isBlank c = true → c = ' '

theorem onlySpaces_intercalate {ws : List String} (h : ∀ w ∈ ws, IsWord w.toList) :
    OnlySpaces (" ".intercalate ws) := by
  intro c hc hblank
  rw [String.toList_intercalate] at hc
  rcases mem_intercalate_spaces hc with hspace | ⟨w, hw, hmem⟩
  · exact hspace
  · obtain ⟨word, hword, rfl⟩ := List.mem_map.mp hw
    have hplain : isBlank c = false := (h word hword).plain c hmem
    rw [hplain] at hblank
    cases hblank

theorem onlySpaces_operatorText (operator : String) :
    OnlySpaces (operatorText (words operator)) := by
  unfold operatorText
  split
  · show OnlySpaces (" ".intercalate ["not", "in"])
    refine onlySpaces_intercalate
      (List.forall_mem_cons.mpr ⟨?_, List.forall_mem_singleton.mpr ?_⟩)
    · exact .of_all (by decide) (by decide)
    · exact .of_all (by decide) (by decide)
  · exact onlySpaces_intercalate fun w hw => isWord_of_mem_words hw

theorem normalOperator_eq (operator : String) :
    Predicate.normalOperator operator = operatorText (words operator) := by
  have hnotIn : trim operator = "notIn" ↔ words operator = ["notIn"] :=
    trim_eq_iff (.of_all (by decide) (by decide))
  have hnot_in : trim operator = "not_in" ↔ words operator = ["not_in"] :=
    trim_eq_iff (.of_all (by decide) (by decide))
  simp only [Predicate.normalOperator, operatorText, Bool.or_eq_true, decide_eq_true_eq, hnotIn,
    hnot_in, words_trim]

/-- The words of an operator can be told from how it is written, but for the two that are put in
place of others. -/
theorem operatorText_membership (operator : String) :
    (operatorText (words operator) = "in" ∨ operatorText (words operator) = "not in") ↔
      words operator ∈ membershipSpellings := by
  unfold operatorText membershipSpellings
  by_cases hjoined : words operator = ["notIn"] ∨ words operator = ["not_in"]
  · rw [if_pos hjoined]
    rcases hjoined with h | h <;> simp [h]
  · rw [if_neg hjoined]
    have hback : words (" ".intercalate (words operator)) = words operator :=
      words_intercalate fun w hw => isWord_of_mem_words hw
    constructor
    · rintro (h | h)
      · rw [← hback, h]
        decide
      · rw [← hback, h]
        decide
    · intro h
      simp only [List.mem_cons, List.not_mem_nil, or_false] at h
      rcases h with h | h | h
      · rw [h]
        exact .inl rfl
      · rw [h]
        exact .inr rfl
      · exact absurd h hjoined

theorem render_ofParts (subject operator value : Option String) :
    (Predicate.ofParts subject operator value).render =
      comparison ((subject.bind ofTag?).getD .message) (operator.getD "==") (value.getD "") := by
  simp only [Predicate.render, Predicate.ofParts, normalOperator_eq, Bool.or_eq_true,
    decide_eq_true_eq, operatorText_membership]
  rfl

/-! ## The five cases -/

/-- The comparison that fields say, with a subject that is given and with a value in the first of
several fields that holds a scalar. -/
def SaysComparison (data : Fields) (name : String) (valueKeys : List String) (text : String) :
    Prop :=
  ∃ operator value, Fields.FirstOr data.HoldsText "==" ["operator"] operator ∧
    Fields.FirstOr data.HoldsScalar "" valueKeys value ∧ Compares name operator value text

/-- Whether the condition is an object of its own. -/
def HasNested (data : Fields) : Prop :=
  ∃ fields, data.value? "condition" = some (.object fields)

/-- Whether the fields of a block name a subject that is known. -/
def HasSubject (data : Fields) : Prop :=
  ∃ name ∈ subjectNames, data.HoldsText "conditionType" name

/-- `HasCondition data condition`: this is the condition of a branch with these data. Each case
stands behind those above it. In an object of its own, a subject that is missing or not known is the
message. -/
inductive HasCondition (data : Fields) : String → Prop
  | nested {fields name text} : data.value? "condition" = some (.object fields) →
      Fields.FirstOr (Fields.HoldsText fields) "message" ["type", "conditionType"] name →
      SaysComparison fields (if name ∈ subjectNames then name else "message") ["value"] text →
      HasCondition data text
  | known {name text} : ¬ HasNested data → data.HoldsText "conditionType" name →
      name ∈ subjectNames → SaysComparison data name ["conditionValue", "value"] text →
      HasCondition data text
  | raw {text} : ¬ HasNested data → ¬ HasSubject data → data.HoldsText "condition" text →
      HasCondition data text
  | unknown {name text} : ¬ HasNested data → ¬ HasSubject data →
      (∀ text, ¬ data.HoldsText "condition" text) → data.HoldsText "conditionType" name →
      SaysComparison data "message" ["conditionValue", "value"] text → HasCondition data text
  | always : ¬ HasNested data → (∀ text, ¬ data.HoldsText "condition" text) →
      (∀ name, ¬ data.HoldsText "conditionType" name) → HasCondition data "True"

section

variable {data : Fields}

/-- The comparison that fields say, as it is read. -/
def readComparison (data : Fields) (subject : Subject) (value : Option String) : String :=
  comparison subject ((data.text? "operator").getD "==") (value.getD "")

theorem saysComparison_iff {subject : Subject} {valueKeys : List String} {text : String} :
    SaysComparison data subject.tag valueKeys text ↔
      text = readComparison data subject (valueKeys.findSome? data.scalar?) := by
  unfold readComparison
  rw [← List.findSome?_singleton (f := data.text?)]
  constructor
  · rintro ⟨operator, value, hoperator, hvalue, htext⟩
    obtain rfl := (Fields.firstOr_iff Fields.text?_eq_some).mp hoperator
    obtain rfl := (Fields.firstOr_iff Fields.scalar?_eq_some).mp hvalue
    exact compares_iff.mp htext
  · rintro rfl
    exact ⟨_, _, (Fields.firstOr_iff Fields.text?_eq_some).mpr rfl,
      (Fields.firstOr_iff Fields.scalar?_eq_some).mpr rfl, compares_iff.mpr rfl⟩

theorem ofTag?_getD_message (name : Option String) :
    ((name.bind ofTag?).getD Subject.message).tag =
      if name.getD "message" ∈ subjectNames then name.getD "message" else "message" := by
  cases name with
  | none => rfl
  | some name =>
      rw [Option.bind_some, Option.getD_some]
      cases h : (ofTag? name : Option Subject) with
      | some subject =>
          have hname : subject.tag = name := ofTag?_eq_some_iff.mp h
          rw [if_pos (mem_subjectNames.mpr ⟨subject, hname⟩), Option.getD_some, hname]
      | none =>
          have hunknown : name ∉ subjectNames := fun hmem => by
            obtain ⟨subject, hname⟩ := mem_subjectNames.mp hmem
            exact ofTag?_eq_none_iff.mp h subject hname
          rw [if_neg hunknown]
          rfl

theorem hasSubject_iff :
    ((data.text? "conditionType").bind (ofTag? : String → Option Subject)).isSome = true ↔
      HasSubject data := by
  rw [ofTag?_field_isSome]
  refine exists_congr fun name => and_congr_right fun hname => ?_
  obtain ⟨subject, rfl⟩ := mem_tags.mp hname
  exact holdsText_tag.symm

/-- An expression of the author's own is looked at where no subject is known. -/
theorem branchCondition_of_subject (h : HasSubject data) :
    branchCondition data = ((Predicate.ofData? data).map Predicate.render).getD "True" := by
  simp only [branchCondition, if_pos (hasSubject_iff.mpr h)]
  cases Predicate.ofData? data <;> rfl

theorem branchCondition_of_text {text : String} (h : ¬ HasSubject data)
    (htext : data.HoldsText "condition" text) : branchCondition data = text := by
  simp only [branchCondition, if_neg (mt hasSubject_iff.mp h), Fields.text?_eq_some.mpr htext]

theorem branchCondition_of_no_text (htext : ∀ text, ¬ data.HoldsText "condition" text) :
    branchCondition data = ((Predicate.ofData? data).map Predicate.render).getD "True" := by
  simp only [branchCondition, Fields.text?_eq_none.mpr htext, ite_self]
  cases Predicate.ofData? data <;> rfl

/-- An object is no text. -/
theorem not_holdsText_of_nested {fields : Fields}
    (h : data.value? "condition" = some (.object fields)) (text : String) :
    ¬ data.HoldsText "condition" text := by
  intro htext
  have hboth := h.symm.trans htext.1
  cases hboth

theorem findSome?_pair (read : String → Option String) (key key' : String) :
    [key, key'].findSome? read = (read key).or (read key') := by
  cases h : read key <;> simp [h]

theorem branchCondition_of_nested {fields : Fields}
    (h : data.value? "condition" = some (.object fields)) :
    branchCondition data = readComparison fields
      (((["type", "conditionType"].findSome? (Fields.text? fields)).bind ofTag?).getD .message)
      (["value"].findSome? (Fields.scalar? fields)) := by
  rw [branchCondition_of_no_text (not_holdsText_of_nested h), findSome?_pair]
  simp only [Predicate.ofData?, h, Option.map_some, render_ofParts]
  simp [readComparison]

/-- Without an object of its own, a condition is a comparison if the fields name any subject. -/
theorem ofData?_of_flat (h : ¬ HasNested data) :
    (Predicate.ofData? data).map Predicate.render =
      (data.text? "conditionType").map fun name =>
        readComparison data ((ofTag? name).getD .message)
          (["conditionValue", "value"].findSome? data.scalar?) := by
  unfold Predicate.ofData?
  split
  · next fields hfields => exact absurd ⟨fields, hfields⟩ h
  · simp only [Option.map_map, Function.comp_def, render_ofParts, Option.bind_some,
      findSome?_pair, readComparison]

theorem branchCondition_of_known {subject : Subject} (hnested : ¬ HasNested data)
    (h : data.HoldsText "conditionType" subject.tag) :
    branchCondition data =
      readComparison data subject (["conditionValue", "value"].findSome? data.scalar?) := by
  have htag : (ofTag? subject.tag : Option Subject) = some subject := ofTag?_eq_some_iff.mpr rfl
  have hsubject : HasSubject data := ⟨_, mem_subjectNames.mpr ⟨subject, rfl⟩, h⟩
  rw [branchCondition_of_subject hsubject, ofData?_of_flat hnested, Fields.text?_eq_some.mpr h,
    Option.map_some, htag]
  rfl

theorem branchCondition_of_unknown {name : String} (hnested : ¬ HasNested data)
    (hsubject : ¬ HasSubject data) (htext : ∀ text, ¬ data.HoldsText "condition" text)
    (h : data.HoldsText "conditionType" name) :
    branchCondition data =
      readComparison data .message (["conditionValue", "value"].findSome? data.scalar?) := by
  have htag : (ofTag? name : Option Subject) = none := by
    rw [ofTag?_eq_none_iff]
    intro subject hname
    exact hsubject ⟨name, mem_subjectNames.mpr ⟨subject, hname⟩, h⟩
  rw [branchCondition_of_no_text htext, ofData?_of_flat hnested, Fields.text?_eq_some.mpr h,
    Option.map_some, htag]
  rfl

theorem HasCondition.eq_branchCondition {condition : String} (h : HasCondition data condition) :
    condition = branchCondition data := by
  cases h with
  | nested hfields hname hsaid =>
      rw [(Fields.firstOr_iff Fields.text?_eq_some).mp hname, ← ofTag?_getD_message] at hsaid
      rw [branchCondition_of_nested hfields]
      exact saysComparison_iff.mp hsaid
  | known hnested hholds hname hsaid =>
      obtain ⟨subject, rfl⟩ := mem_subjectNames.mp hname
      rw [branchCondition_of_known hnested hholds]
      exact saysComparison_iff.mp hsaid
  | raw _ hsubject htext => exact (branchCondition_of_text hsubject htext).symm
  | unknown hnested hsubject htext hname hsaid =>
      rw [branchCondition_of_unknown hnested hsubject htext hname]
      exact saysComparison_iff.mp hsaid
  | always hnested htext hname =>
      rw [branchCondition_of_no_text htext, ofData?_of_flat hnested, Fields.text?_eq_none.mpr hname]
      rfl

/-- One of the five cases always applies. -/
theorem exists_hasCondition (data : Fields) : ∃ condition, HasCondition data condition := by
  by_cases hnested : HasNested data
  · obtain ⟨fields, hfields⟩ := hnested
    have hsaid := @saysComparison_iff fields
      (((["type", "conditionType"].findSome? (Fields.text? fields)).bind ofTag?).getD .message)
      ["value"] _ |>.mpr rfl
    rw [ofTag?_getD_message] at hsaid
    exact ⟨_, .nested hfields ((Fields.firstOr_iff Fields.text?_eq_some).mpr rfl) hsaid⟩
  by_cases hsubject : HasSubject data
  · obtain ⟨name, hname, hholds⟩ := hsubject
    obtain ⟨subject, rfl⟩ := mem_subjectNames.mp hname
    exact ⟨_, .known hnested hholds hname (saysComparison_iff.mpr rfl)⟩
  by_cases htext : ∃ text, data.HoldsText "condition" text
  · obtain ⟨text, hholds⟩ := htext
    exact ⟨_, .raw hnested hsubject hholds⟩
  rw [not_exists] at htext
  by_cases hname : ∃ name, data.HoldsText "conditionType" name
  · obtain ⟨name, hholds⟩ := hname
    have hsaid := (@saysComparison_iff data .message ["conditionValue", "value"] _).mpr rfl
    exact ⟨_, .unknown hnested hsubject htext hholds hsaid⟩
  · rw [not_exists] at hname
    exact ⟨_, .always hnested htext hname⟩

end

/-- Every branch has exactly one condition by the order of priority, and it is the one that is
written. The operator of a comparison never breaks the line. -/
theorem branchCondition_priority (data : Fields) :
    (∀ condition, HasCondition data condition ↔ condition = branchCondition data) ∧
      ∀ operator ws, HasWords operator ws → OnlySpaces (operatorText ws) := by
  refine ⟨fun condition => ⟨HasCondition.eq_branchCondition, ?_⟩, fun operator ws hwords => ?_⟩
  · rintro rfl
    obtain ⟨condition, hcondition⟩ := exists_hasCondition data
    rw [← hcondition.eq_branchCondition]
    exact hcondition
  · obtain rfl := hasWords_iff.mp hwords
    exact onlySpaces_operatorText operator

end BlockBot
