import BlockBot.Handler.Actions
import BlockBot.Proofs.Tags

/-!
# Blocks that are recognised

Which blocks become code depends on their kind and on the text of one field. They are listed here by
these texts: replies, settings and waits are simple, branches and loops have a body, and all other
blocks are skipped (`isIdle_eq_false`). An emission comes to the blocks of a list and, below a
branch or a loop, to those of its body (`Block.reached`).
-/

namespace BlockBot

open BlockBot.Json

namespace Block

/-- A reply, a setting or a wait of a known sub-type. -/
def IsSimple (b : Block) : Prop :=
  (b.kind = .reply ∧ ∃ type ∈ ["text", "image", "flex", "sticker"],
    b.data.Stores "replyType" type) ∨
  (b.kind = .setting ∧ ∃ type ∈ ["setVariable", "getVariable", "saveUserData"],
    b.data.Stores "settingType" type) ∨
  (b.kind = .control ∧ b.data.Stores "controlType" "wait")

def IsBranch (b : Block) : Prop :=
  b.kind = .control ∧ b.data.Stores "controlType" "if"

def IsLoop (b : Block) : Prop :=
  b.kind = .control ∧ b.data.Stores "controlType" "loop"

/-- A block that becomes code wherever an emission comes to it. -/
def Recognised (b : Block) : Prop :=
  b.IsSimple ∨ b.IsBranch ∨ b.IsLoop

instance (b : Block) : Decidable b.IsSimple := inferInstanceAs (Decidable (_ ∨ _ ∨ _))

instance (b : Block) : Decidable b.IsBranch := inferInstanceAs (Decidable (_ ∧ _))

instance (b : Block) : Decidable b.IsLoop := inferInstanceAs (Decidable (_ ∧ _))

instance (b : Block) : Decidable b.Recognised := inferInstanceAs (Decidable (_ ∨ _ ∨ _))

end Block

/-! ## Sub-types -/

section

variable {data : Fields}

theorem settingKind?_eq_some {kind : SettingKind} :
    settingKind? data = some kind ↔ data.Stores "settingType" kind.tag :=
  ofTag?_field

theorem controlKind?_eq_some {kind : ControlKind} :
    controlKind? data = some kind ↔ data.Stores "controlType" kind.tag :=
  ofTag?_field

theorem replyKind?_isSome : (replyKind? data).isSome = true ↔
    ∃ type ∈ ["text", "image", "flex", "sticker"], data.Stores "replyType" type :=
  ofTag?_field_isSome

theorem settingKind?_isSome : (settingKind? data).isSome = true ↔
    ∃ type ∈ ["setVariable", "getVariable", "saveUserData"], data.Stores "settingType" type :=
  ofTag?_field_isSome

end

/-! ## Skipped blocks -/

/-- A kind that has no place in a body, or a sub-type that is missing or not known. -/
def isIdle (kind : Kind) (data : Fields) : Bool :=
  match kind with
  | .reply => (replyKind? data).isNone
  | .setting => (settingKind? data).isNone
  | .control => (controlKind? data).isNone
  | .event => true
  | .unknown _ => true

/-- What is not skipped is recognised. -/
theorem isIdle_eq_false {b : Block} : isIdle b.kind b.data = false ↔ b.Recognised := by
  unfold isIdle Block.Recognised Block.IsSimple Block.IsBranch Block.IsLoop
  cases b.kind with
  | reply => simp [replyKind?_isSome]
  | setting => simp [settingKind?_isSome]
  | control =>
      rw [Option.isNone_eq_false_iff, Option.isSome_iff_exists]
      simp only [reduceCtorEq, false_and, false_or, true_and, controlKind?_eq_some]
      constructor
      · rintro ⟨kind, h⟩
        cases kind with
        | branch => exact .inr (.inl h)
        | loop => exact .inr (.inr h)
        | wait => exact .inl h
      · rintro (h | h | h)
        · exact ⟨.wait, h⟩
        · exact ⟨.branch, h⟩
        · exact ⟨.loop, h⟩
  | event => simp
  | unknown name => simp

/-! ## Bodies -/

/-- A recognised block with a body. -/
def opensBody (kind : Kind) (data : Fields) : Bool :=
  kind = .control && (data.Stores "controlType" "if" || data.Stores "controlType" "loop")

theorem opensBody_eq (kind : Kind) (data : Fields) : opensBody kind data =
    (kind = .control && (controlKind? data = some .branch || controlKind? data = some .loop)) := by
  unfold opensBody
  simp only [controlKind?_eq_some, ControlKind.tag]

theorem opensBody_iff {kind : Kind} {data : Fields} : opensBody kind data = true ↔
    kind = .control ∧ (controlKind? data = some .branch ∨ controlKind? data = some .loop) := by
  simp [opensBody_eq]

theorem opensBody_of_isIdle {kind : Kind} {data : Fields} (h : isIdle kind data = true) :
    opensBody kind data = false := by
  cases kind with
  | control =>
      have hnone : controlKind? data = none := by simpa [isIdle] using h
      simp [opensBody_eq, hnone]
  | _ => rfl

mutual

/-- The blocks that the emission of a block comes to: itself, and those in its body. Below other
blocks nothing is looked at. -/
def Block.reachedFrom : Block → List Block
  | ⟨id, kind, data, children⟩ =>
      ⟨id, kind, data, children⟩ :: if opensBody kind data then reached children else []

/-- The blocks that the emission of several blocks comes to. -/
def Block.reached : List Block → List Block
  | [] => []
  | b :: bs => b.reachedFrom ++ reached bs

end

namespace Block

variable {b : Block}

theorem reached_cons_of_plain (h : opensBody b.kind b.data = false) (bs : List Block) :
    reached (b :: bs) = b :: reached bs := by
  obtain ⟨id, kind, data, children⟩ := b
  rw [reached, reachedFrom, if_neg (by simpa using h)]
  rfl

theorem reached_cons_of_opens (h : opensBody b.kind b.data = true) (bs : List Block) :
    reached (b :: bs) = b :: (reached b.children ++ reached bs) := by
  obtain ⟨id, kind, data, children⟩ := b
  rw [reached, reachedFrom, if_pos h]
  rfl

theorem mem_reached_cons {a : Block} {bs : List Block} (h : b ∈ reached bs) :
    b ∈ reached (a :: bs) := by
  rw [reached]
  exact List.mem_append_right _ h

end Block

end BlockBot
