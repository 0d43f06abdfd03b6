import BlockBot.Proofs.Steps
import BlockBot.Proofs.TextLines

/-!
# Texts of authors in lines, fields and guards

Seven fields of a block hold texts that authors write for their users. A family over all such texts
is confined if nothing in it varies but one place, where the literal of the text stands (`Hole`,
`Confined`), and a list is if nothing varies but one of its elements (`OneVaries`). Lines stay
confined when they are indented, set in a body or joined; what a single block says, and the guard of
a handler, are confined in the text of each of its fields.
-/

namespace BlockBot

open BlockBot.Json BlockBot.Code BlockBot.Text

/-- A text that an author wrote; a blank one counts as missing. -/
structure UserText where
  text : String
  filled : isBlankText text = false

/-- The fields in which such texts stand: of a text reply, an image reply, a flexible reply, a text
event, a postback event and a setting that saves data. -/
def userTextKeys : List String :=
  ["content", "originalContentUrl", "previewImageUrl", "altText", "pattern",
    "postbackData", "dataKey"]

/-! ## Families over all texts -/

/-- The literal of the text stands in a fixed place of a fixed text. -/
def Hole (f : UserText → String) : Prop :=
  ∃ before after, f = fun s => before ++ quote s.text ++ after

/-- A text in which nothing varies but one literal, if anything does. -/
def Confined (f : UserText → String) : Prop :=
  (∃ fixed, f = fun _ => fixed) ∨ Hole f

/-- A list in which nothing varies but one element, if anything does; how that element varies is
said by `P`. -/
def OneVaries {α : Type} (P : (UserText → α) → Prop) (f : UserText → List α) : Prop :=
  (∃ fixed, f = fun _ => fixed) ∨ ∃ before a after, P a ∧ f = fun s => before ++ a s :: after

namespace Hole

variable {f : UserText → String}

theorem quote : Hole fun s => Text.quote s.text :=
  ⟨"", "", funext fun s => by rw [String.empty_append, String.append_empty]⟩

theorem append_left (h : Hole f) (text : String) : Hole fun s => text ++ f s := by
  obtain ⟨before, after, rfl⟩ := h
  exact ⟨text ++ before, after, funext fun s => by simp only [String.append_assoc]⟩

theorem append_right (h : Hole f) (text : String) : Hole fun s => f s ++ text := by
  obtain ⟨before, after, rfl⟩ := h
  exact ⟨before, after ++ text, funext fun s => by simp only [String.append_assoc]⟩

theorem ne_empty (h : Hole f) (s : UserText) : (f s).isEmpty = false := by
  obtain ⟨before, after, rfl⟩ := h
  rw [← Bool.not_eq_true, String.isEmpty_iff, ← String.toList_inj]
  simp only [String.toList_append, Text.quote, String.toList_ofList]
  simp

end Hole

namespace Confined

variable {f : UserText → String}

theorem fixed (text : String) : Confined fun _ => text :=
  .inl ⟨text, rfl⟩

theorem append_left (h : Confined f) (text : String) : Confined fun s => text ++ f s := by
  rcases h with ⟨c, rfl⟩ | h
  · exact .fixed _
  · exact .inr (h.append_left text)

theorem append_right (h : Confined f) (text : String) : Confined fun s => f s ++ text := by
  rcases h with ⟨c, rfl⟩ | h
  · exact .fixed _
  · exact .inr (h.append_right text)

end Confined

namespace OneVaries

variable {α β : Type} {P : (UserText → α) → Prop} {Q : (UserText → β) → Prop}
    {f : UserText → List α}

theorem fixed (l : List α) : OneVaries P fun _ => l :=
  .inl ⟨l, rfl⟩

theorem single {a : UserText → α} (h : P a) : OneVaries P fun s => [a s] :=
  .inr ⟨[], a, [], h, rfl⟩

theorem append_left (h : OneVaries P f) (l : List α) : OneVaries P fun s => l ++ f s := by
  rcases h with ⟨c, rfl⟩ | ⟨before, a, after, ha, rfl⟩
  · exact .fixed _
  · exact .inr ⟨l ++ before, a, after, ha, funext fun s => by rw [List.append_assoc]⟩

theorem append_right (h : OneVaries P f) (l : List α) : OneVaries P fun s => f s ++ l := by
  rcases h with ⟨c, rfl⟩ | ⟨before, a, after, ha, rfl⟩
  · exact .fixed _
  · exact .inr ⟨before, a, after ++ l, ha,
      funext fun s => by rw [List.append_assoc, List.cons_append]⟩

theorem map (h : OneVaries P f) {g : α → β} (hg : ∀ a, P a → Q fun s => g (a s)) :
    OneVaries Q fun s => (f s).map g := by
  rcases h with ⟨c, rfl⟩ | ⟨before, a, after, ha, rfl⟩
  · exact .fixed _
  · exact .inr ⟨before.map g, fun s => g (a s), after.map g, hg a ha,
      funext fun s => by rw [List.map_append, List.map_cons]⟩

theorem reverse (h : OneVaries P f) : OneVaries P fun s => (f s).reverse := by
  rcases h with ⟨c, rfl⟩ | ⟨before, a, after, ha, rfl⟩
  · exact .fixed _
  · exact .inr ⟨after.reverse, a, before.reverse, ha, funext fun s => by simp⟩

theorem length (h : OneVaries P f) : ∃ n, ∀ s, (f s).length = n := by
  rcases h with ⟨c, rfl⟩ | ⟨before, a, after, -, rfl⟩
  · exact ⟨c.length, fun _ => rfl⟩
  · exact ⟨before.length + (after.length + 1),
      fun s => by rw [List.length_append, List.length_cons]⟩

end OneVaries

/-! ## Lines and statements -/

/-- Lines of which one has the literal of the text in it, if any has. -/
abbrev ConfinedLines (f : UserText → List String) : Prop :=
  OneVaries Hole f

namespace ConfinedLines

variable {f : UserText → List String}

theorem of_line {line : UserText → String} (h : Confined line) :
    ConfinedLines fun s => [line s] := by
  rcases h with ⟨c, rfl⟩ | h
  · exact .fixed _
  · exact .single h

theorem indent (h : ConfinedLines f) (unit : String) :
    ConfinedLines fun s => indent unit (f s) := by
  refine OneVaries.map h fun line hline => ?_
  -- a line with a literal in it is not empty, so it is indented
  simp only [hline.ne_empty, Bool.false_eq_true, if_false]
  exact hline.append_left unit

theorem body (h : ConfinedLines f) (unit : String) : ConfinedLines fun s => body unit (f s) := by
  have hindent := h.indent unit
  rcases h with ⟨c, rfl⟩ | ⟨before, line, after, hline, rfl⟩
  · exact .fixed _
  · have hbody : ∀ s, Text.body unit (before ++ line s :: after) =
        Text.indent unit (before ++ line s :: after) :=
      fun s => if_neg (by simp)
    simpa only [hbody] using hindent

theorem textOfLines (h : ConfinedLines f) : Confined fun s => textOfLines (f s) := by
  have hone : ∀ line lines, Code.textOfLines (line :: lines) = line ++ "\n" ++
      Code.textOfLines lines := by
    intro line lines
    simp [Code.textOfLines, String.append_assoc]
  rcases h with ⟨c, rfl⟩ | ⟨before, line, after, hline, rfl⟩
  · exact .fixed _
  · simp only [textOfLines_append, hone]
    exact .inr (((hline.append_right "\n").append_right _).append_left _)

end ConfinedLines

/-- Statements that are written in confined lines, whatever the unit is. -/
def ConfinedStmts (f : UserText → List Stmt) : Prop :=
  ∀ unit, ConfinedLines fun s => Stmt.linesOfAll unit (f s)

theorem Stmt.linesOfAll_append (unit : String) (ss ss' : List Stmt) :
    Stmt.linesOfAll unit (ss ++ ss') = Stmt.linesOfAll unit ss ++ Stmt.linesOfAll unit ss' := by
  induction ss with
  | nil => rfl
  | cons s ss ih => rw [List.cons_append, Stmt.linesOfAll, ih, Stmt.linesOfAll, List.append_assoc]

namespace ConfinedStmts

variable {f : UserText → List Stmt}

theorem fixed (stmts : List Stmt) : ConfinedStmts fun _ => stmts :=
  fun _ => .fixed _

theorem line {text : UserText → String} (h : Confined text) :
    ConfinedStmts fun s => [.line (text s)] :=
  fun _ => .of_line h

theorem append_left (h : ConfinedStmts f) (stmts : List Stmt) :
    ConfinedStmts fun s => stmts ++ f s := by
  intro unit
  simp only [Stmt.linesOfAll_append]
  exact (h unit).append_left _

theorem append_right (h : ConfinedStmts f) (stmts : List Stmt) :
    ConfinedStmts fun s => f s ++ stmts := by
  intro unit
  simp only [Stmt.linesOfAll_append]
  exact (h unit).append_right _

theorem guard (h : ConfinedStmts f) (condition : String) :
    ConfinedStmts fun s => [.guard condition (f s)] := by
  intro unit
  simp only [Stmt.linesOfAll, Stmt.lines, List.append_nil]
  exact ((h unit).body unit).append_left [ifHeader condition]

theorem guardCondition {condition : UserText → String} (h : Hole condition) (stmts : List Stmt) :
    ConfinedStmts fun s => [.guard (condition s) stmts] := by
  intro unit
  simp only [Stmt.linesOfAll, Stmt.lines, List.append_nil]
  exact OneVaries.append_right (.single ((h.append_left "if ").append_right ":")) _

theorem wrapBody (h : ConfinedStmts f) (data : Fields) :
    ConfinedStmts fun s => wrapBody data (f s) := by
  intro unit
  unfold BlockBot.wrapBody
  split
  · simp only [Stmt.linesOfAll, Stmt.lines, List.append_nil]
    exact ((h unit).body unit).append_left [loopHeader _]
  · simp only [Stmt.linesOfAll, Stmt.lines, List.append_nil]
    exact (((h unit).body unit).append_left [ifHeader _]).append_right _

end ConfinedStmts

/-! ## Fields -/

/-- Data with a text in one field. -/
def putField (key : String) (data : Fields) (s : UserText) : Fields :=
  Entries.insert key (.string s.text) data

theorem text?_putField_self (key : String) (data : Fields) (s : UserText) :
    (putField key data s).text? key = some s.text := by
  rw [Fields.text?, Fields.value?, putField, Entries.get?_insert_self]
  simp [s.filled]

section

variable {key other : String} (data : Fields) (s : UserText)

/-- What is read under another key stays as it is. -/
theorem sameAt_putField (h : key ≠ other) : Fields.SameAt other (putField key data s) data :=
  Entries.get?_insert_of_ne h _ data

theorem sameAt_userText (h : key ∈ userTextKeys) (hother : other ∉ userTextKeys) :
    Fields.SameAt other (putField key data s) data :=
  sameAt_putField data s fun heq => hother (heq ▸ h)

end

/-- The literal of a field, or of a default if the field is missing. -/
theorem confined_field (key other : String) (data : Fields) (default : String) :
    Confined fun s => textLiteral (((putField key data s).text? other).getD default) := by
  by_cases h : key = other
  · subst h
    simp only [text?_putField_self, Option.getD_some]
    exact .inr .quote
  · simp only [(sameAt_putField data _ h).text?]
    exact .fixed _

section Blocks

variable {key : String} (hkey : key ∈ userTextKeys) (data : Fields)
include hkey

theorem controlKind?_putField (s : UserText) :
    controlKind? (putField key data s) = controlKind? data := by
  rw [controlKind?, (sameAt_userText data s hkey (by decide)).text?, controlKind?]

theorem variableName_putField (s : UserText) :
    variableName (putField key data s) = variableName data := by
  rw [variableName, (sameAt_userText data s hkey (by decide)).text?, variableName]

theorem confined_saveLine : Confined fun s => saveLine (putField key data s) := by
  unfold saveLine
  simp only [variableName_putField hkey]
  exact ((confined_field key "dataKey" data (variableName data)).append_left _).append_right _

theorem branchCondition_putField (s : UserText) :
    branchCondition (putField key data s) = branchCondition data := by
  have hsame : ∀ other ∉ userTextKeys, Fields.SameAt other (putField key data s) data :=
    fun other => sameAt_userText data s hkey
  unfold branchCondition Predicate.ofData?
  rw [(hsame "conditionType" (by decide)).text?, (hsame "condition" (by decide)).text?,
    (hsame "condition" (by decide)).value?, (hsame "operator" (by decide)).text?,
    (hsame "conditionValue" (by decide)).scalar?, (hsame "value" (by decide)).scalar?]

theorem confined_replyMessage (kind : ReplyKind) (options : Options) :
    Confined fun s => replyMessage kind (putField key data s) options := by
  have hsame : ∀ other ∉ userTextKeys, ∀ s, Fields.SameAt other (putField key data s) data :=
    fun other hother s => sameAt_userText data s hkey hother
  cases kind with
  | text => exact ((confined_field key "content" data _).append_left _).append_right _
  | image =>
      unfold replyMessage
      by_cases h : key = "originalContentUrl"
      · -- the other address is fixed
        have hother : key ≠ "previewImageUrl" := by
          rw [h]
          decide
        simp only [(sameAt_putField data _ hother).text?]
        exact ((((confined_field key "originalContentUrl" data _).append_left _).append_right
          _).append_right _).append_right _
      · simp only [(sameAt_putField data _ h).text?]
        exact ((confined_field key "previewImageUrl" data _).append_left _).append_right _
  | flex =>
      unfold replyMessage
      simp only [(hsame "flexContent" (by decide) _).value?]
      exact ((((confined_field key "altText" data _).append_left _).append_right _).append_right
        _).append_right _
  | sticker =>
      unfold replyMessage
      simp only [(hsame "packageId" (by decide) _).scalar?,
        (hsame "stickerId" (by decide) _).scalar?]
      exact .fixed _

/-- A block without a body says what it says around the literal, and the session does not depend on
the text. -/
theorem confined_emitPlain (label : String) (kind : Kind) (t : Session) :
    ∃ f u, ConfinedStmts f ∧ ∀ s, emitPlain label kind (putField key data s) t = (f s, u) := by
  have hsame : ∀ other ∉ userTextKeys, ∀ s, Fields.SameAt other (putField key data s) data :=
    fun other hother s => sameAt_userText data s hkey hother
  cases kind with
  | reply =>
      simp only [emitPlain, emitReply, replyKind?, (hsame "replyType" (by decide) _).text?]
      cases (data.text? "replyType").bind (ofTag? : String → Option ReplyKind) with
      | none => exact ⟨_, _, .fixed [], fun _ => rfl⟩
      | some kind =>
          let u := kind.import?.elim t t.register
          have hmessage := confined_replyMessage hkey data kind u.options
          refine ⟨_, u, .line ((hmessage.append_left "reply_messages.append(").append_right ")"),
            fun s => ?_⟩
          cases kind <;> rfl
  | setting =>
      simp only [emitPlain, emitSetting, settingKind?, (hsame "settingType" (by decide) _).text?]
      cases (data.text? "settingType").bind (ofTag? : String → Option SettingKind) with
      | none => exact ⟨_, _, .fixed [], fun _ => rfl⟩
      | some kind =>
          cases kind with
          | setVariable =>
              simp only [setLine, takesMessage, assignedValue, variableName_putField hkey,
                (hsame "valueSource" (by decide) _).text?, (hsame "value" (by decide) _).value?]
              exact ⟨_, _, .fixed _, fun _ => rfl⟩
          | getVariable =>
              simp only [getLine, fallback?, variableName_putField hkey,
                (hsame "defaultValue" (by decide) _).value?]
              exact ⟨_, _, .fixed _, fun _ => rfl⟩
          | saveUserData => exact ⟨_, t, .line (confined_saveLine hkey data), fun _ => rfl⟩
  | event => exact ⟨_, _, .fixed [], fun _ => rfl⟩
  | unknown name => exact ⟨_, _, .fixed [], fun _ => rfl⟩
  | control =>
      simp only [emitPlain, controlKind?_putField hkey, waitLine,
        (hsame "waitTime" (by decide) _).count?]
      split
      · exact ⟨_, _, .fixed _, fun _ => rfl⟩
      · exact ⟨_, _, .fixed _, fun _ => rfl⟩

end Blocks

/-! ## Guards -/

/-- A guard in which nothing varies but one literal, if anything does. -/
def ConfinedGuard (f : UserText → Option String) : Prop :=
  (∃ fixed, f = fun _ => fixed) ∨ ∃ condition, Hole condition ∧ f = fun s => some (condition s)

theorem hole_patternGuard (mode : MatchMode) (caseSensitive : Bool) :
    Hole fun s => patternGuard s.text mode caseSensitive := by
  cases mode with
  | contains => cases caseSensitive <;> exact Hole.quote.append_right _
  | exact =>
      cases caseSensitive with
      | true => exact Hole.quote.append_left _
      | false => exact (Hole.quote.append_left _).append_right _
  | _ => cases caseSensitive <;> exact (Hole.quote.append_left _).append_right _

/-- The guard of a handler has the literal of the text in it, and the session does not depend on the
text. -/
theorem confined_guardOf {key : String} (hkey : key ∈ userTextKeys) (trigger : Trigger)
    (data : Fields) (t : Session) :
    ∃ f u, ConfinedGuard f ∧ ∀ s, Handler.guardOf trigger (putField key data s) t = (f s, u) := by
  have hsame : ∀ other ∉ userTextKeys, ∀ s, Fields.SameAt other (putField key data s) data :=
    fun other hother s => sameAt_userText data s hkey hother
  cases trigger with
  | messageText =>
      simp only [Handler.guardOf, Handler.pattern?, (hsame "matchMode" (by decide) _).text?,
        (hsame "caseSensitive" (by decide) _).flag?]
      by_cases h : key = "pattern"
      · subst h
        simp only [text?_putField_self, Option.map_some]
        exact ⟨_, _, .inr ⟨_, hole_patternGuard _ _, rfl⟩, fun _ => rfl⟩
      · simp only [(sameAt_putField data _ h).text?]
        exact ⟨_, _, .inl ⟨_, rfl⟩, fun _ => rfl⟩
  | postback =>
      simp only [Handler.guardOf, Handler.payload?, (hsame "data" (by decide) _).text?]
      by_cases h : key = "postbackData"
      · subst h
        simp only [text?_putField_self, Option.some_or, Option.map_some]
        exact ⟨_, _, .inr ⟨_, Hole.quote.append_left _, rfl⟩, fun _ => rfl⟩
      · simp only [(sameAt_putField data _ h).text?]
        exact ⟨_, _, .inl ⟨_, rfl⟩, fun _ => rfl⟩
  | _ => exact ⟨_, _, .inl ⟨none, rfl⟩, fun _ => rfl⟩

end BlockBot
