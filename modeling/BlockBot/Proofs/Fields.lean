import BlockBot.Block.Data
import BlockBot.Proofs.Entries

/-!
# What fields hold

Fields are read forgivingly, each reader with its own idea of what counts as missing. What a reader
finds is said here by what the field holds: a text with more than blanks in it (`HoldsText`), or a
text, a number or a truth value (`HoldsScalar`). A reader looks at no other field, so data that
agree on a field are read alike there (`SameAt`).
-/

namespace BlockBot.Json.Fields

open BlockBot.Decimal BlockBot.Text

variable {data data' : Fields} {key text : String}

/-! ## Texts -/

/-- The field holds this very text. -/
def Stores (data : Fields) (key text : String) : Prop :=
  data.value? key = some (.string text)

/-- The field holds this text, and there is more than blanks in it. -/
def HoldsText (data : Fields) (key text : String) : Prop :=
  data.Stores key text ∧ ∃ c ∈ text.toList, isBlank c = false

instance : Decidable (data.Stores key text) :=
  match h : data.value? key with
  | some (.string s) => decidable_of_iff (s = text) (by simp [Stores, h])
  | some .null => .isFalse (by simp [Stores, h])
  | some (.bool _) => .isFalse (by simp [Stores, h])
  | some (.number _) => .isFalse (by simp [Stores, h])
  | some (.array _) => .isFalse (by simp [Stores, h])
  | some (.object _) => .isFalse (by simp [Stores, h])
  | none => .isFalse (by simp [Stores, h])

theorem isBlankText_eq_false : isBlankText text = false ↔ ∃ c ∈ text.toList, isBlank c = false := by
  unfold isBlankText
  rw [List.all_eq_false]
  simp only [Bool.not_eq_true]

theorem text?_eq_some : data.text? key = some text ↔ data.HoldsText key text := by
  unfold text? HoldsText Stores
  rw [← isBlankText_eq_false]
  split
  · next s hs =>
      rw [hs]
      by_cases hblank : isBlankText s = true
      · rw [if_pos hblank]
        simp only [reduceCtorEq, false_iff, Option.some.injEq, Value.string.injEq, not_and]
        rintro rfl
        simp [hblank]
      · rw [if_neg hblank]
        simp only [Option.some.injEq, Value.string.injEq]
        constructor
        · rintro rfl
          exact ⟨rfl, by simpa using hblank⟩
        · exact And.left
  · next hother =>
      simp only [reduceCtorEq, false_iff, not_and]
      exact fun h => absurd h (hother text)

theorem text?_eq_none : data.text? key = none ↔ ∀ text, ¬ data.HoldsText key text := by
  rw [Option.eq_none_iff_forall_ne_some]
  exact forall_congr' fun text => not_congr text?_eq_some

/-! ## Values -/

/-- The field holds this value, and it is not `null`. -/
def HoldsValue (data : Fields) (key : String) (v : Value) : Prop :=
  data.value? key = some v ∧ v ≠ .null

/-! ## Scalars -/

/-- How a field is written as a text, if it holds a text, a number or a truth value. -/
inductive HoldsScalar (data : Fields) (key : String) : String → Prop
  | text {s} : data.value? key = some (.string s) → HoldsScalar data key s
  | whole {n} : data.value? key = some (.number (.whole n)) → HoldsScalar data key (toString n.val)
  | real {x} : data.value? key = some (.number (.real x)) →
      HoldsScalar data key (Format.document.text x)
  | isTrue : data.value? key = some (.bool true) → HoldsScalar data key "true"
  | isFalse : data.value? key = some (.bool false) → HoldsScalar data key "false"

theorem ofList_intChars (n : Int) : String.ofList (intChars n) = toString n := by
  cases n with
  | ofNat n => rfl
  | negSucc n =>
      rw [intChars, if_pos (Int.negSucc_lt_zero n), String.ofList_cons]
      rfl

theorem HoldsScalar.scalar?_eq (h : data.HoldsScalar key text) : data.scalar? key = some text := by
  unfold scalar?
  cases h with
  | text h => rw [h]
  | @whole n h =>
      rw [h]
      exact congrArg some (ofList_intChars n.val)
  | real h =>
      rw [h]
      rfl
  | isTrue h => rw [h]; rfl
  | isFalse h => rw [h]; rfl

theorem scalar?_eq_some : data.scalar? key = some text ↔ data.HoldsScalar key text := by
  refine ⟨fun h => ?_, HoldsScalar.scalar?_eq⟩
  have hscalar : ∃ text, data.HoldsScalar key text := by
    unfold scalar? at h
    split at h
    · next s hs => exact ⟨s, .text hs⟩
    · next n hn =>
        cases n with
        | whole n => exact ⟨_, .whole hn⟩
        | real x => exact ⟨_, .real hn⟩
    · next b hb =>
        cases b with
        | true => exact ⟨_, .isTrue hb⟩
        | false => exact ⟨_, .isFalse hb⟩
    · cases h
  obtain ⟨held, hheld⟩ := hscalar
  obtain rfl := Option.some.inj (h.symm.trans hheld.scalar?_eq)
  exact hheld

/-! ## The first of several fields -/

/-- What the first of several fields holds that holds anything of the kind, or a default. -/
inductive FirstOr (holds : String → String → Prop) (default : String) : List String → String → Prop
  | here {key keys text} : holds key text → FirstOr holds default (key :: keys) text
  | later {key keys text} : (∀ t, ¬ holds key t) → FirstOr holds default keys text →
      FirstOr holds default (key :: keys) text
  | missing : FirstOr holds default [] default

theorem firstOr_iff {read : String → Option String} {holds : String → String → Prop}
    (hread : ∀ {key text}, read key = some text ↔ holds key text) {default text : String}
    {keys : List String} :
    FirstOr holds default keys text ↔ text = (keys.findSome? read).getD default := by
  have hnone : ∀ {key}, read key = none ↔ ∀ t, ¬ holds key t := by
    intro key
    rw [Option.eq_none_iff_forall_ne_some]
    exact forall_congr' fun text => not_congr hread
  constructor
  · intro h
    induction h with
    | here hheld => simp [hread.mpr hheld]
    | later hmissing _ ih => simpa [hnone.mpr hmissing] using ih
    | missing => rfl
  · rintro rfl
    induction keys with
    | nil => exact .missing
    | cons key keys ih =>
        cases hkey : read key with
        | some text =>
            simp only [List.findSome?_cons, hkey, Option.getD_some]
            exact .here (hread.mp hkey)
        | none =>
            simp only [List.findSome?_cons, hkey]
            exact .later (hnone.mp hkey) ih

/-! ## One field of two tables -/

/-- Two tables agree on a field. -/
def SameAt (key : String) (data data' : Fields) : Prop :=
  data.value? key = data'.value? key

namespace SameAt

variable (h : SameAt key data data')
include h

theorem value? : data.value? key = data'.value? key := h

theorem text? : data.text? key = data'.text? key := by
  rw [Fields.text?, h, Fields.text?]

theorem scalar? : data.scalar? key = data'.scalar? key := by
  rw [Fields.scalar?, h, Fields.scalar?]

theorem count? : data.count? key = data'.count? key := by
  rw [Fields.count?, h, Fields.count?]

theorem flag? : data.flag? key = data'.flag? key := by
  rw [Fields.flag?, h, Fields.flag?]

end SameAt

end BlockBot.Json.Fields
