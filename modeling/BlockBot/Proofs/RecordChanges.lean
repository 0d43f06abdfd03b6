import BlockBot.Proofs.Entries
import BlockBot.Proofs.RecordFields

/-!
# Changes that a record does not notice

A record is not told apart from another one if their fields decode to the same. So the members of an
object can be put in another order, members without a meaning can be left out, a value can be
replaced by one with the same canonical form, and `null` can stand for an optional field that is
missing. Rows have no names, but their items can be replaced in the same way, and the last fields
can be `null`.
-/

namespace BlockBot

open BlockBot.Json

/-! ## Canonical forms -/

namespace Json.Value

/-- Where no key is repeated, the canonical form does not depend on the order of the members. -/
theorem canonicalMembers_perm {ms ms' : List (String × Value)} (hperm : ms.Perm ms')
    (hnodup : (ms.map Prod.fst).Nodup) : canonicalMembers ms = canonicalMembers ms' := by
  induction hperm with
  | nil => rfl
  | cons m _ ih => rw [canonicalMembers, canonicalMembers, ih (List.nodup_cons.mp hnodup).2]
  | swap m m' ms =>
      have hne : m'.1 ≠ m.1 := fun heq => (List.nodup_cons.mp hnodup).1 (heq ▸ List.mem_cons_self)
      simp only [canonicalMembers]
      exact Entries.insertNew_comm hne _ _ _
  | trans hfirst _ ih ih' =>
      exact (ih hnodup).trans (ih' ((hfirst.map Prod.fst).nodup_iff.mp hnodup))

theorem canonicalMembers_replace {v w : Value} (h : v.canonical = w.canonical) (key : String)
    (before after : List (String × Value)) :
    canonicalMembers (before ++ (key, v) :: after) =
      canonicalMembers (before ++ (key, w) :: after) := by
  induction before with
  | nil => simp only [List.nil_append, canonicalMembers, h]
  | cons m ms ih => simp only [List.cons_append, canonicalMembers, ih]

theorem canonicalItems_replace {v w : Value} (h : v.canonical = w.canonical)
    (before after : List Value) :
    canonicalItems (before ++ v :: after) = canonicalItems (before ++ w :: after) := by
  induction before with
  | nil => simp only [List.nil_append, canonicalItems, h]
  | cons u vs ih => simp only [List.cons_append, canonicalItems, ih]

/-- Two values that nothing in a record tells apart: they have one canonical form, and they are the
same kind if they are a kind at all. -/
structure Alike (v w : Value) : Prop where
  canonical : v.canonical = w.canonical
  kind : Kind.ofValue? v = Kind.ofValue? w

theorem requiredText?_canonical (v : Value) : requiredText? v.canonical = requiredText? v := by
  cases v <;> simp only [canonical, requiredText?]

theorem optionalText?_canonical (v : Value) : optionalText? v.canonical = optionalText? v := by
  cases v <;> simp only [canonical, optionalText?]

theorem texts?_canonical (v : Value) : texts? v.canonical = texts? v := by
  cases v with
  | array items =>
      simp only [canonical, texts?]
      induction items with
      | nil => rfl
      | cons v vs ih => simp only [canonicalItems, List.mapM_cons, requiredText?_canonical, ih]
  | _ => simp only [canonical, texts?]

namespace Alike

variable {v w : Value}

theorem requiredText (h : v.Alike w) : requiredText? v = requiredText? w := by
  rw [← requiredText?_canonical v, h.canonical, requiredText?_canonical]

theorem optionalText (h : v.Alike w) : optionalText? v = optionalText? w := by
  rw [← optionalText?_canonical v, h.canonical, optionalText?_canonical]

theorem texts (h : v.Alike w) : texts? v = texts? w := by
  rw [← texts?_canonical v, h.canonical, texts?_canonical]

theorem fields (h : v.Alike w) : fields? v = fields? w := by
  have heq := h.canonical
  cases v <;> cases w <;> simp_all [Value.canonical, fields?]

end Alike

end Json.Value

/-! ## Values that are alike -/

/-- Whether a value is a list or an object. -/
def Json.Value.isStructured : Value → Bool
  | .array _ => true
  | .object _ => true
  | _ => false

theorem Kind.ofValue?_two (m m' : String × Value) (ms : List (String × Value)) :
    Kind.ofValue? (.object (m :: m' :: ms)) = none := by
  obtain ⟨name, v⟩ := m
  cases v <;> rfl

/-- The value beside the name of a kind is `null`. -/
theorem Kind.ofValue?_of_structured {v : Value} (h : v.isStructured = true) (key : String)
    (before after : List (String × Value)) :
    Kind.ofValue? (.object (before ++ (key, v) :: after)) = none := by
  rcases before with _ | ⟨m, _ | ⟨m', ms⟩⟩
  · cases v with
    | array items => cases after <;> rfl
    | object members => cases after <;> rfl
    | _ => cases h
  · exact Kind.ofValue?_two m _ _
  · exact Kind.ofValue?_two m m' _

theorem alike_order {ms ms' : List (String × Value)} (hperm : ms.Perm ms')
    (hnodup : (ms.map Prod.fst).Nodup) : Value.Alike (.object ms) (.object ms') where
  canonical := by simp only [Value.canonical, Value.canonicalMembers_perm hperm hnodup]
  kind := by
    rcases ms with _ | ⟨m, _ | ⟨m', ms⟩⟩
    · rw [List.nil_perm.mp hperm]
    · rw [List.singleton_perm.mp hperm]
    · rcases ms' with _ | ⟨n, _ | ⟨n', ns⟩⟩
      · cases hperm.length_eq
      · cases hperm.length_eq
      · rw [Kind.ofValue?_two, Kind.ofValue?_two]

theorem alike_member {v w : Value} (h : v.Alike w) (hv : v.isStructured = true)
    (hw : w.isStructured = true) (key : String) (before after : List (String × Value)) :
    Value.Alike (.object (before ++ (key, v) :: after))
      (.object (before ++ (key, w) :: after)) where
  canonical := by simp only [Value.canonical, Value.canonicalMembers_replace h.canonical]
  kind := by rw [Kind.ofValue?_of_structured hv, Kind.ofValue?_of_structured hw]

theorem alike_item {v w : Value} (h : v.Alike w) (before after : List Value) :
    Value.Alike (.array (before ++ v :: after)) (.array (before ++ w :: after)) where
  canonical := by simp only [Value.canonical, Value.canonicalItems_replace h.canonical]
  kind := rfl

/-! ## Single fields -/

/-- A field is read from its values, in any order, and each of them matters only as far as it is
decoded. -/
structure ReadsField {α : Type} (decode : Value → Option α)
    (read : List Value → Option α) : Prop where
  perm : ∀ {vs ws : List Value}, vs.Perm ws → read vs = read ws
  replace : ∀ {v w : Value}, decode v = decode w → ∀ before after : List Value,
    read (before ++ v :: after) = read (before ++ w :: after)

section

variable {α : Type}

theorem fill_perm (decode : Value → Option α) {vs ws : List Value} (h : vs.Perm ws) :
    fill decode none vs = fill decode none ws := by
  rcases vs with _ | ⟨v, _ | ⟨v', vs⟩⟩
  · rw [List.nil_perm.mp h]
  · rw [List.singleton_perm.mp h]
  · rcases ws with _ | ⟨w, _ | ⟨w', ws⟩⟩
    · cases h.length_eq
    · cases h.length_eq
    · rw [fill_two, fill_two]

theorem fill_replace {decode : Value → Option α} {v w : Value} (h : decode v = decode w)
    (before after : List Value) :
    fill decode none (before ++ v :: after) = fill decode none (before ++ w :: after) := by
  rcases before with _ | ⟨u, _ | ⟨u', us⟩⟩
  · simp only [List.nil_append, fill, h]
  · simp only [List.cons_append, List.nil_append, fill_two]
  · simp only [List.cons_append, fill_two]

theorem readsField_required (decode : Value → Option α) : ReadsField decode (required? decode) where
  perm h := by rw [required?_eq_fill, required?_eq_fill, fill_perm decode h]
  replace h before after := by rw [required?_eq_fill, required?_eq_fill, fill_replace h]

theorem readsField_optional (decode : Value → Option α) (default : α) :
    ReadsField decode (optional? decode default) where
  perm h := by rw [optional?_eq_fill, optional?_eq_fill, fill_perm decode h]
  replace h before after := by rw [optional?_eq_fill, optional?_eq_fill, fill_replace h]

variable {p : String → Bool} {key : String} {before after : List (String × Value)}

theorem valuesOf_insert (h : p key = false) (v : Value) :
    valuesOf p (before ++ (key, v) :: after) = valuesOf p (before ++ after) := by
  rw [valuesOf_append, valuesOf_cons_of_neg h, valuesOf_append]

theorem valuesOf_rename {key' : String} (h : p key = p key') (v : Value) :
    valuesOf p (before ++ (key, v) :: after) = valuesOf p (before ++ (key', v) :: after) := by
  rw [valuesOf_append, valuesOf_append]
  cases hkey : p key with
  | false => rw [valuesOf_cons_of_neg hkey, valuesOf_cons_of_neg (h ▸ hkey)]
  | true => rw [valuesOf_cons_of_pos hkey, valuesOf_cons_of_pos (h ▸ hkey)]

/-- The order of the members does not matter to a field. -/
theorem ReadsField.order {decode : Value → Option α} {read : List Value → Option α}
    (hread : ReadsField decode read) {ms ms' : List (String × Value)} (hperm : ms.Perm ms') :
    read (valuesOf p ms) = read (valuesOf p ms') :=
  hread.perm ((hperm.filter _).map _)

/-- A value may be replaced by one that is decoded to the same, if it is decoded at all. -/
theorem ReadsField.member {decode : Value → Option α} {read : List Value → Option α}
    (hread : ReadsField decode read) {v w : Value} (h : p key = true → decode v = decode w) :
    read (valuesOf p (before ++ (key, v) :: after)) =
      read (valuesOf p (before ++ (key, w) :: after)) := by
  cases hkey : p key with
  | false => rw [valuesOf_insert hkey, valuesOf_insert hkey]
  | true =>
      rw [valuesOf_append, valuesOf_append, valuesOf_cons_of_pos hkey, valuesOf_cons_of_pos hkey]
      exact hread.replace (h hkey) _ _

/-- An optional field that is missing may be `null`. -/
theorem optional?_null {decode : Value → Option α} {default : α}
    (hnull : decode .null = some default) (habsent : key ∉ (before ++ after).map Prod.fst) :
    optional? decode default (valuesOf (· == key) (before ++ (key, .null) :: after)) =
      optional? decode default (valuesOf (· == key) (before ++ after)) := by
  have hnone : valuesOf (· == key) (before ++ after) = [] := by
    rw [valuesOf, List.map_eq_nil_iff, List.filter_eq_nil_iff]
    intro m hm heq
    exact habsent (List.mem_map.mpr ⟨m, hm, beq_iff_eq.mp heq⟩)
  obtain ⟨hbefore, hafter⟩ :=
    List.append_eq_nil_iff.mp ((valuesOf_append before after).symm.trans hnone)
  rw [hnone, valuesOf_append, valuesOf_cons_of_pos (p := (· == key)) (beq_self_eq_true key),
    hbefore, hafter]
  exact hnull

end

/-! ## Blocks and nodes -/

namespace BlockField

/-- The name of a field; the kind has another one. -/
def name : BlockField → String
  | .id => "id"
  | .kind => "kind"
  | .data => "data"
  | .children => "children"

theorem isNamed_eq {field : BlockField} (h : field ≠ .kind) :
    field.isNamed = (· == field.name) := by
  funext key
  rw [Bool.eq_iff_iff, isNamed, beq_iff_eq, beq_iff_eq]
  constructor
  · intro hkey
    unfold ofKey? at hkey
    split_ifs at hkey <;> cases hkey <;> simp_all [name]
  · rintro rfl
    cases field with
    | kind => exact absurd rfl h
    | _ => rfl

theorem isNamed_of_unknown {key : String} (h : key ∉ ["id", "kind", "type", "data", "children"])
    (field : BlockField) : field.isNamed key = false := by
  simp only [List.mem_cons, List.not_mem_nil, or_false, not_or] at h
  simp [isNamed, ofKey?, h]

theorem isNamed_of_ne {field other : BlockField} {key : String} (hkey : ofKey? key = some field)
    (hne : other ≠ field) : other.isNamed key = false := by
  rw [isNamed, hkey]
  exact beq_eq_false_iff_ne.mpr fun heq => hne (Option.some.inj heq).symm

end BlockField

namespace Draft

variable {α β ι : Type} {id? : Value → Option ι} {readId : List Value → Option ι}
  {children? : Value → Option (List β)} {make : ι → Kind → Fields → List β → α} {key : String}
  {before after : List (String × Value)}

theorem decodeObject?_order (hid : ReadsField id? readId) {ms ms' : List (String × Value)}
    (hperm : ms.Perm ms') :
    decodeObject? readId children? make ms = decodeObject? readId children? make ms' := by
  simp only [decodeObject?, hid.order hperm, (readsField_required Kind.ofValue?).order hperm,
    (readsField_optional fields? []).order hperm, (readsField_optional children? []).order hperm]

theorem decodeObject?_extra (h : key ∉ ["id", "kind", "type", "data", "children"]) (v : Value) :
    decodeObject? readId children? make (before ++ (key, v) :: after) =
      decodeObject? readId children? make (before ++ after) := by
  simp only [decodeObject?, valuesOf_insert (BlockField.isNamed_of_unknown h _)]

theorem decodeObject?_renamed (v : Value) :
    decodeObject? readId children? make (before ++ ("kind", v) :: after) =
      decodeObject? readId children? make (before ++ ("type", v) :: after) := by
  have hnames : ∀ field : BlockField, field.isNamed "kind" = field.isNamed "type" := by
    intro field
    cases field <;> rfl
  simp only [decodeObject?, valuesOf_rename (hnames _)]

theorem decodeObject?_null (hnull : children? .null = some [])
    (hkey : key = "data" ∨ key = "children") (habsent : key ∉ (before ++ after).map Prod.fst) :
    decodeObject? readId children? make (before ++ (key, .null) :: after) =
      decodeObject? readId children? make (before ++ after) := by
  have hdata : BlockField.data.isNamed = (· == "data") := BlockField.isNamed_eq (by decide)
  have hchildren : BlockField.children.isNamed = (· == "children") :=
    BlockField.isNamed_eq (by decide)
  rcases hkey with rfl | rfl
  · have hother : ∀ field ≠ BlockField.data, field.isNamed "data" = false :=
      fun _ => BlockField.isNamed_of_ne rfl
    simp only [decodeObject?, valuesOf_insert (hother .id (by decide)),
      valuesOf_insert (hother .kind (by decide)), valuesOf_insert (hother .children (by decide)),
      hdata, optional?_null (show fields? .null = some [] from rfl) habsent]
  · have hother : ∀ field ≠ BlockField.children, field.isNamed "children" = false :=
      fun _ => BlockField.isNamed_of_ne rfl
    simp only [decodeObject?, valuesOf_insert (hother .id (by decide)),
      valuesOf_insert (hother .kind (by decide)), valuesOf_insert (hother .data (by decide)),
      hchildren, optional?_null hnull habsent]

theorem decodeObject?_nullId {default : ι} (hnull : id? .null = some default)
    (habsent : "id" ∉ (before ++ after).map Prod.fst) :
    decodeObject? (optional? id? default) children? make (before ++ ("id", .null) :: after) =
      decodeObject? (optional? id? default) children? make (before ++ after) := by
  have hid : BlockField.id.isNamed = (· == "id") := BlockField.isNamed_eq (by decide)
  have hother : ∀ field ≠ BlockField.id, field.isNamed "id" = false :=
    fun _ => BlockField.isNamed_of_ne rfl
  simp only [decodeObject?, valuesOf_insert (hother .kind (by decide)),
    valuesOf_insert (hother .data (by decide)), valuesOf_insert (hother .children (by decide)), hid,
    optional?_null hnull habsent]

theorem decodeObject?_member (hid : ReadsField id? readId) {v w : Value}
    (htext : v.Alike w → id? v = id? w) (hplain : key ≠ "children" → v.Alike w)
    (hbody : key = "children" → children? v = children? w) :
    decodeObject? readId children? make (before ++ (key, v) :: after) =
      decodeObject? readId children? make (before ++ (key, w) :: after) := by
  have halike : ∀ field : BlockField, field ≠ .children → field.isNamed key = true → v.Alike w := by
    intro field hne hnamed
    apply hplain
    rintro rfl
    exact hne (Option.some.inj (beq_iff_eq.mp hnamed)).symm
  have hbody' : BlockField.children.isNamed key = true → children? v = children? w := by
    intro hnamed
    rw [BlockField.isNamed_eq (by decide)] at hnamed
    exact hbody (beq_iff_eq.mp hnamed)
  simp only [decodeObject?, hid.member fun h => htext (halike .id (by decide) h),
    (readsField_required Kind.ofValue?).member fun h => (halike .kind (by decide) h).kind,
    (readsField_optional fields? []).member fun h => (halike .data (by decide) h).fields,
    (readsField_optional children? []).member hbody']

theorem decodeRow?_item {before after : List Value} {v w : Value}
    (htext : v.Alike w → id? v = id? w) (hplain : before.length ≠ 3 → v.Alike w)
    (hbody : before.length = 3 → children? v = children? w) :
    decodeRow? id? children? make (before ++ v :: after) =
      decodeRow? id? children? make (before ++ w :: after) := by
  rcases before with _ | ⟨b₀, _ | ⟨b₁, _ | ⟨b₂, _ | ⟨b₃, bs⟩⟩⟩⟩
  · have halike := hplain (by simp)
    rcases after with _ | ⟨a₁, _ | ⟨a₂, _ | ⟨a₃, _ | ⟨a₄, as⟩⟩⟩⟩ <;> simp [decodeRow?, htext halike]
  · have halike := hplain (by simp)
    rcases after with _ | ⟨a₁, _ | ⟨a₂, _ | ⟨a₃, as⟩⟩⟩ <;> simp [decodeRow?, halike.kind]
  · have halike := hplain (by simp)
    rcases after with _ | ⟨a₁, _ | ⟨a₂, as⟩⟩ <;> simp [decodeRow?, halike.fields]
  · rcases after with _ | ⟨a₁, as⟩ <;> simp [decodeRow?, hbody rfl]
  · rcases bs with _ | ⟨b, bs⟩ <;> rfl

theorem decodeRow?_null (hnull : children? .null = some []) {items : List Value}
    (hlength : items.length = 2 ∨ items.length = 3) :
    decodeRow? id? children? make (items ++ [.null]) = decodeRow? id? children? make items := by
  rcases hlength with hlength | hlength
  · obtain ⟨id, kind, rfl⟩ := List.length_eq_two.mp hlength
    simp [decodeRow?, fields?]
  · obtain ⟨id, kind, data, rfl⟩ := List.length_eq_three.mp hlength
    simp [decodeRow?, hnull]

end Draft

/-! ## Graphs -/

namespace Graph

variable {key : String} {before after : List (String × Value)}

theorem decodeObject?_order {ms ms' : List (String × Value)} (hperm : ms.Perm ms') :
    decodeObject? ms = decodeObject? ms' := by
  simp only [decodeObject?, (readsField_optional texts? []).order hperm,
    (readsField_required Node.listOfValue?).order hperm]

theorem decodeObject?_extra (h : key ∉ ["roots", "blocks"]) (v : Value) :
    decodeObject? (before ++ (key, v) :: after) = decodeObject? (before ++ after) := by
  simp only [List.mem_cons, List.not_mem_nil, or_false, not_or] at h
  simp only [decodeObject?, valuesOf_insert (p := (· == "roots")) (beq_eq_false_iff_ne.mpr h.1),
    valuesOf_insert (p := (· == "blocks")) (beq_eq_false_iff_ne.mpr h.2)]

theorem decodeObject?_null (habsent : "roots" ∉ (before ++ after).map Prod.fst) :
    decodeObject? (before ++ ("roots", .null) :: after) = decodeObject? (before ++ after) := by
  have hother : (("roots" : String) == "blocks") = false := rfl
  simp only [decodeObject?, valuesOf_insert (p := (· == "blocks")) hother,
    optional?_null (show texts? .null = some [] from rfl) habsent]

theorem decodeObject?_member {v w : Value} (hplain : key ≠ "blocks" → v.Alike w)
    (hnodes : key = "blocks" → Node.listOfValue? v = Node.listOfValue? w) :
    decodeObject? (before ++ (key, v) :: after) = decodeObject? (before ++ (key, w) :: after) := by
  have hroots : (key == "roots") = true → texts? v = texts? w := by
    intro hkey
    have hne : key ≠ "blocks" := by
      rw [beq_iff_eq.mp hkey]
      decide
    exact (hplain hne).texts
  simp only [decodeObject?, (readsField_optional texts? []).member (p := (· == "roots")) hroots,
    (readsField_required Node.listOfValue?).member (p := (· == "blocks")) fun h =>
      hnodes (beq_iff_eq.mp h)]

theorem ofValue?_item {before after : List Value} {v w : Value}
    (hplain : before.length ≠ 1 → v.Alike w)
    (hnodes : before.length = 1 → Node.listOfValue? v = Node.listOfValue? w) :
    ofValue? (.array (before ++ v :: after)) = ofValue? (.array (before ++ w :: after)) := by
  rcases before with _ | ⟨b₀, _ | ⟨b₁, bs⟩⟩
  · have halike := hplain (by simp)
    rcases after with _ | ⟨a₁, _ | ⟨a₂, as⟩⟩ <;> simp [ofValue?, halike.texts]
  · rcases after with _ | ⟨a₁, as⟩ <;> simp [ofValue?, hnodes rfl]
  · rcases bs with _ | ⟨b, bs⟩ <;> rfl

end Graph

end BlockBot
