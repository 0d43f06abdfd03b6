import BlockBot.Block.Basic
import BlockBot.Block.Tag
import BlockBot.Proofs.Fields

/-!
# Tags name their members

In each closed set a member is found by its tag and by no other text, and no tag is blank. So a
field names a member exactly if it stores its tag (`ofTag?_field`), and a block that was given a tag
in its data is of that sub-type, whatever other fields it is given.
-/

namespace BlockBot

open BlockBot.Json BlockBot.Text

/-- A closed set in which every member is found by its tag, also where a blank text counts as
missing. -/
class LawfulTagged (α : Type) [Tagged α] : Prop where
  ofTag?_tag (a : α) : ofTag? (Tagged.tag a) = some a
  tag_not_blank (a : α) : isBlankText (Tagged.tag a) = false

instance : LawfulTagged Trigger := ⟨fun a => by cases a <;> rfl, fun a => by cases a <;> decide⟩

instance : LawfulTagged ReplyKind := ⟨fun a => by cases a <;> rfl, fun a => by cases a <;> decide⟩

instance : LawfulTagged ControlKind := ⟨fun a => by cases a <;> rfl, fun a => by cases a <;> decide⟩

instance : LawfulTagged SettingKind := ⟨fun a => by cases a <;> rfl, fun a => by cases a <;> decide⟩

instance : LawfulTagged Subject := ⟨fun a => by cases a <;> rfl, fun a => by cases a <;> decide⟩

section

variable {α : Type} [Tagged α] [LawfulTagged α] {data : Fields} {key name : String} {a : α}

theorem ofTag?_eq_some_iff : ofTag? name = some a ↔ Tagged.tag a = name := by
  constructor
  · intro h
    simpa using List.find?_some h
  · rintro rfl
    exact LawfulTagged.ofTag?_tag a

theorem ofTag?_eq_none_iff : (ofTag? name : Option α) = none ↔ ∀ a : α, Tagged.tag a ≠ name := by
  rw [Option.eq_none_iff_forall_ne_some]
  exact forall_congr' fun a => not_congr ofTag?_eq_some_iff

theorem tag_inj {a b : α} : Tagged.tag a = Tagged.tag b ↔ a = b := by
  refine ⟨fun h => ?_, congrArg Tagged.tag⟩
  have hfound : some a = some b := by
    rw [← LawfulTagged.ofTag?_tag a, h, LawfulTagged.ofTag?_tag b]
  exact Option.some.inj hfound

theorem mem_all (a : α) : a ∈ (Tagged.all : List α) :=
  List.mem_of_find?_eq_some (LawfulTagged.ofTag?_tag a)

theorem mem_tags : name ∈ (Tagged.all : List α).map Tagged.tag ↔ ∃ a : α, Tagged.tag a = name := by
  rw [List.mem_map]
  exact exists_congr fun a => and_iff_right (mem_all a)

theorem holdsText_tag : data.HoldsText key (Tagged.tag a) ↔ data.Stores key (Tagged.tag a) :=
  and_iff_left (Fields.isBlankText_eq_false.mp (LawfulTagged.tag_not_blank a))

/-- A field names a member of a closed set if it stores its tag. -/
theorem ofTag?_field : (data.text? key).bind ofTag? = some a ↔ data.Stores key (Tagged.tag a) := by
  rw [Option.bind_eq_some_iff, ← holdsText_tag]
  constructor
  · rintro ⟨name, hname, htag⟩
    obtain rfl := ofTag?_eq_some_iff.mp htag
    exact Fields.text?_eq_some.mp hname
  · intro h
    exact ⟨_, Fields.text?_eq_some.mpr h, ofTag?_eq_some_iff.mpr rfl⟩

theorem ofTag?_field_isSome :
    ((data.text? key).bind (ofTag? : String → Option α)).isSome = true ↔
      ∃ name ∈ (Tagged.all : List α).map Tagged.tag, data.Stores key name := by
  simp only [Option.isSome_iff_exists, ofTag?_field, mem_tags]
  constructor
  · rintro ⟨a, h⟩
    exact ⟨_, ⟨a, rfl⟩, h⟩
  · rintro ⟨_, ⟨a, rfl⟩, h⟩
    exact ⟨a, h⟩

end

/-! ## Fields of a block -/

namespace Block

variable {b : Block} {key other : String}

theorem data_withChildren (b : Block) (children : List Block) :
    (b.withChildren children).data = b.data := rfl

theorem sameAt_withData (h : key ≠ other) (v : Value) :
    Fields.SameAt other (b.withData key v).data b.data :=
  Entries.get?_insert_of_ne h v b.data

theorem value?_withText (h : key ≠ other) (t : String) :
    (b.withText key t).data.value? other = b.data.value? other :=
  sameAt_withData h _

theorem text?_withData (h : key ≠ other) (v : Value) :
    (b.withData key v).data.text? other = b.data.text? other :=
  (sameAt_withData h v).text?

theorem text?_withText (h : key ≠ other) (t : String) :
    (b.withText key t).data.text? other = b.data.text? other :=
  text?_withData h _

/-- A tag that was put into a field is the text of that field. -/
theorem text?_withTag {α : Type} [Tagged α] [LawfulTagged α] (b : Block) (key : String) (a : α) :
    (b.withText key (Tagged.tag a)).data.text? key = some (Tagged.tag a) :=
  Fields.text?_eq_some.mpr (holdsText_tag.mpr (Entries.get?_insert_self key _ b.data))

theorem ofTag?_withTag {α : Type} [Tagged α] [LawfulTagged α] (b : Block) (key : String) (a : α) :
    ((b.withText key (Tagged.tag a)).data.text? key).bind ofTag? = some a :=
  ofTag?_field.mpr (Entries.get?_insert_self key _ b.data)

end Block

end BlockBot
