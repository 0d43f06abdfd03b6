import BlockBot.Block.Draft
import BlockBot.Proofs.Skipping

/-!
# Reading a type and decoding a value

A thing can be read from a text directly, or be decoded from the value that the text is read as. A
typed reader mirrors a decoder if it gives the same wherever both a value was read and the value
describes something, and stops at the same place (`Mirrors`). The readers of texts, lists and tables
mirror their decoders; so do the readers of members and of rows, and from these the reader of any
record, in either form, whose decoder adds member by member (`Draft.Decodes`).
-/

namespace BlockBot

open BlockBot.Json

variable {α β σ : Type} {size levels : Nat} {s rest : List Char}

/-- A reader gives what the value that can be read instead describes, and stops where that value
ends. -/
def Mirrors (size levels : Nat) (decode : Value → Option α) (reader : Reader α) : Prop :=
  ∀ ⦃s v rest a⦄, s.length < size → readValue size levels s = .ok (v, rest) → decode v = some a →
    reader s = .ok (a, rest)

/-! ## Texts, lists and tables -/

/-- What a value other than `null` describes. -/
def nullable? (decode : Value → Option α) : Value → Option (Option α)
  | .null => some none
  | v => (decode v).map some

/-- The list that an array describes, one element for each item. -/
def listOf? (decode : Value → Option α) : Value → Option (List α)
  | .array items => items.mapM decode
  | _ => none

/-- The table that an object describes. -/
def tableOf? : Value → Option Fields
  | .object members => some (Value.canonicalMembers members)
  | _ => none

theorem mirrors_readString (size levels : Nat) :
    Mirrors size levels requiredText? (readString size) := by
  intro s v rest a _ h hdecode
  have hform := readValue_eq_ok.mp h
  unfold readString
  generalize skipSpace s = cs at hform
  cases hform with
  | string htext =>
      cases hdecode
      exact htext
  | _ => simp [requiredText?] at hdecode

/-- Blanks in front change nothing. -/
theorem readValue_skipSpace (size levels : Nat) (s : List Char) :
    readValue size levels (skipSpace s) = readValue size levels s := by
  unfold readValue
  rw [skipSpace_idem]

theorem Mirrors.nullable {decode : Value → Option α} {reader : Reader α}
    (h : Mirrors size levels decode reader) :
    Mirrors size levels (nullable? decode) (readNullable reader) := by
  intro s v rest a hs hv hdecode
  have hform := readValue_eq_ok.mp hv
  unfold readNullable
  split
  · next r heq =>
      rw [heq] at hform
      cases hform with
      | null hword =>
          cases hdecode
          exact bind_eq_ok.mpr ⟨rest, hword, rfl⟩
      | digit hdigit _ => exact absurd rfl (ne_of_isDigit hdigit rfl)
  · next hother =>
      have hnull : v ≠ .null := by
        rintro rfl
        generalize skipSpace s = cs at hform hother
        cases hform
        exact hother _ rfl
      have hsome : (decode v).map some = some a := by
        rw [← hdecode]
        cases v with
        | null => exact absurd rfl hnull
        | _ => rfl
      obtain ⟨x, hx, rfl⟩ := Option.map_eq_some_iff.mp hsome
      have hread :=
        h (Nat.lt_of_le_of_lt (length_skipSpace_le s) hs)
          ((readValue_skipSpace size levels s).trans hv) hx
      exact bind_eq_ok.mpr ⟨_, hread, rfl⟩

/-- A decoder and a reader may both be followed by the same function. -/
theorem Mirrors.map {decode : Value → Option α} {reader : Reader α}
    (h : Mirrors size levels decode reader) (f : α → β) :
    Mirrors size levels (fun v => (decode v).map f) fun s => do
      let (x, s) ← reader s
      return (f x, s) := by
  intro s v rest b hs hv hdecode
  obtain ⟨a, ha, rfl⟩ := Option.map_eq_some_iff.mp hdecode
  exact bind_eq_ok.mpr ⟨_, h hs hv ha, rfl⟩

theorem mirrors_readKind (size levels : Nat) :
    Mirrors size levels Kind.ofValue? (readKind size levels) := by
  intro s v rest kind _ hv hdecode
  unfold readKind
  rw [hv, ok_bind]
  simp only [hdecode]
  rfl

theorem mirrors_readFields (size levels : Nat) :
    Mirrors size levels tableOf? (readFields size levels) := by
  intro s v rest data _ hv hdecode
  have hform := readValue_eq_ok.mp hv
  unfold readFields readTable
  generalize skipSpace s = cs at hform
  cases hform with
  | object hmembers =>
      cases hdecode
      exact bind_eq_ok.mpr ⟨_, hmembers, rfl⟩
  | _ => simp [tableOf?] at hdecode

theorem mirrors_readData (size levels : Nat) :
    Mirrors size levels fields? (readData size levels) := by
  have heq : fields? = fun v => (nullable? tableOf? v).map fun data => data.getD [] := by
    funext v
    cases v <;> rfl
  rw [heq]
  exact (mirrors_readFields size levels).nullable.map _

/-- Items whose decoder a reader mirrors are read by it one after the other. -/
theorem itemsForm_mirrors {decode : Value → Option α} {item : Reader α}
    (h : Mirrors size levels decode item) {n : Nat} {first : Bool} {vs : List Value} {xs : List α}
    (hform : ItemsForm (readValue size levels) n first s vs rest) (hs : s.length < size)
    (hdecode : vs.mapM decode = some xs) : ItemsForm item n first s xs rest := by
  induction hform generalizing xs with
  | nil hnext hclose =>
      cases hdecode
      exact .nil hnext hclose
  | cons hnext hv _ ih =>
      have hle := length_nextItem_le hnext
      have hle' := forward_readValue size levels hv
      simp only [List.mapM_cons, Option.bind_eq_bind, Option.bind_eq_some_iff] at hdecode
      obtain ⟨x, hx, xs, hxs, hdecode⟩ := hdecode
      cases hdecode
      exact .cons hnext (h (by omega) hv hx) (ih (by omega) hxs)

/-- A list of things is read with one level less. -/
theorem mirrors_readList {decode : Value → Option α} {item : Nat → Reader α}
    (h : ∀ inner, levels = inner + 1 → Mirrors size inner decode (item inner)) :
    Mirrors size levels (listOf? decode) (Json.readList size levels item) := by
  intro s v rest xs hs hv hdecode
  have hform := readValue_eq_ok.mp hv
  have hle := length_skipSpace_le s
  unfold Json.readList
  generalize skipSpace s = cs at hform hle
  cases hform with
  | array hitems =>
      have hitems := readItemsLoop_eq_ok.mp hitems
      rw [List.length_cons] at hle
      exact readItemsLoop_eq_ok.mpr (itemsForm_mirrors (h _ rfl) hitems (by omega) hdecode)
  | _ => simp [listOf?] at hdecode

/-- A list that may be `null`. -/
theorem Mirrors.optionalList {decode : Value → Option (List α)} {reader : Reader (List α)}
    (h : Mirrors size levels decode reader) :
    Mirrors size levels
      (fun v => (nullable? decode v).map fun xs => xs.getD []) (readOptionalList reader) :=
  h.nullable.map _

theorem mirrors_readTexts (size levels : Nat) :
    Mirrors size levels texts? (readOptionalList (readTexts size levels)) := by
  have heq : texts? = fun v => (nullable? (listOf? requiredText?) v).map fun texts =>
      texts.getD [] := by
    funext v
    cases v with
    | array items => simp [texts?, nullable?, listOf?, Function.comp_def]
    | _ => rfl
  rw [heq]
  exact (mirrors_readList fun inner _ => mirrors_readString size inner).optionalList

/-! ## Members -/

/-- A loop over members mirrors a fold, if one member mirrors one step. -/
theorem pairsForm_mirrors (member : σ → String → Reader σ) (step : σ → String → Value → Option σ)
    (h : ∀ {d key s s₁ v s₂ d'}, s.length < size → readColon s = .ok s₁ →
      readValue size levels s₁ = .ok (v, s₂) →
      step d key v = some d' → member d key s = .ok (d', s₂))
    {n : Nat} {first : Bool} {ms : List (String × Value)} {d d' : σ}
    (hform : PairsForm size (readValue size levels) n first s ms rest) (hs : s.length < size)
    (hfold : ms.foldlM (fun d m => step d m.1 m.2) d = some d') :
    readMembersLoop size member n first d s = .ok (d', rest) := by
  induction hform generalizing d with
  | nil hnext hclose =>
      cases hfold
      simp only [readMembersLoop, hnext, ok_bind, hclose]
      rfl
  | cons hnext hkey hcolon hv _ ih =>
      have hle := length_nextKey_le hnext
      have hle' := forward_readText size hkey
      have hlt := length_readColon_lt hkey hcolon
      have hle'' := forward_readValue size levels hv
      rw [List.foldlM_cons] at hfold
      obtain ⟨d₁, hstep, hfold⟩ := Option.bind_eq_some_iff.mp hfold
      simp only [readMembersLoop, hnext, ok_bind, hkey, h (by omega) hcolon hv hstep]
      exact ih (by omega) hfold

/-- A member without a meaning is skipped. -/
theorem skipUnknown_of_readValue {s₁ : List Char} {v : Value} (hs : s.length < size)
    (hcolon : readColon s = .ok s₁) (hv : readValue size levels s₁ = .ok (v, rest)) :
    skipUnknown size s = .ok rest := by
  have hlt := length_of_skipSpace_eq (readColon_eq_ok.mp hcolon)
  rw [skipUnknown, hcolon, ok_bind]
  exact skipValue_of_readValue hv (by omega) (by omega)

/-- Reading a field where there was none mirrors decoding it. -/
theorem readOnce_mirrors {decode : Value → Option α} {reader : Reader α}
    (h : Mirrors size levels decode reader) (name : String) {earlier : Option α}
    (hearlier : earlier = none) {put : α → σ} {d : σ} {s₁ : List Char} {v : Value}
    (hs : s.length < size) (hcolon : readColon s = .ok s₁)
    (hv : readValue size levels s₁ = .ok (v, rest)) (hput : (decode v).map put = some d) :
    (do
      let (a, s) ← readOnce name earlier reader s
      return (put a, s)) = .ok (d, rest) := by
  subst hearlier
  obtain ⟨a, ha, rfl⟩ := Option.map_eq_some_iff.mp hput
  have hlt := length_of_skipSpace_eq (readColon_eq_ok.mp hcolon)
  have honce : readOnce name none reader s = .ok (a, rest) :=
    bind_eq_ok.mpr ⟨s₁, hcolon, h (by omega) hv ha⟩
  exact bind_eq_ok.mpr ⟨_, honce, rfl⟩

/-! ## Rows -/

/-- The field that an item of a row describes, or none after the end of the row. -/
def rowField? (decode : Value → Option α) : Option Value → Option (Option α)
  | none => some none
  | some v => (decode v).map some

/-- Reading the next field of a row mirrors decoding its first item. -/
theorem readNext_mirrors {decode : Value → Option α} {reader : Reader α}
    (h : Mirrors size levels decode reader) {n : Nat} {first : Bool} {vs : List Value}
    {o : Option α} (hs : s.length < size)
    (hform : ItemsForm (readValue size levels) n first s vs rest)
    (ho : rowField? decode vs.head? = some o) :
    ∃ m s', readNext first reader s = .ok (o, s') ∧ s'.length < size ∧
      ItemsForm (readValue size levels) m false s' vs.tail rest := by
  cases hform with
  | @nil n _ _ _ hnext hclose =>
      cases ho
      refine ⟨n + 1, s, ?_, hs, .nil (nextItem_eq_none.mpr (nextItem_eq_none.mp hnext)) hclose⟩
      rw [readNext, hnext, ok_bind]
      rfl
  | cons hnext hv hform =>
      have hle := length_nextItem_le hnext
      have hle' := forward_readValue size levels hv
      obtain ⟨a, ha, rfl⟩ := Option.map_eq_some_iff.mp ho
      refine ⟨_, _, ?_, by omega, hform⟩
      rw [readNext, hnext, ok_bind]
      exact bind_eq_ok.mpr ⟨_, h (by omega) hv ha, rfl⟩

theorem closeList_of_form {n : Nat} {first : Bool}
    (hform : ItemsForm (readValue size levels) n first s [] rest) : closeList s = .ok rest := by
  cases hform with
  | nil _ hclose => exact hclose

namespace Draft

variable {ι κ : Type} {id? : Value → Option ι} {children? : Value → Option κ} {readId : Reader ι}
  {readChildren : Reader κ} (hid : Mirrors size levels id? readId)
  (hchildren : Mirrors size levels children? readChildren)

theorem setOnce_eq_some {earlier new : Option α} {put : α → Draft ι κ} {d : Draft ι κ}
    (h : setOnce earlier new put = some d) : earlier = none ∧ new.map put = some d := by
  cases earlier with
  | none => exact ⟨rfl, h⟩
  | some a => simp [setOnce] at h

/-- The fields that the items of a row describe. -/
def ofRow? (id? : Value → Option ι) (children? : Value → Option κ) (vs : List Value) :
    Option (Draft ι κ) := do
  let id ← rowField? id? vs.head?
  let kind ← rowField? Kind.ofValue? vs.tail.head?
  let data ← rowField? fields? vs.tail.tail.head?
  let children ← rowField? children? vs.tail.tail.tail.head?
  return ⟨id, kind, data, children⟩

/-- What a row of two to four items describes. -/
def decodeRow? {β : Type} (id? : Value → Option ι) (children? : Value → Option (List β))
    (make : ι → Kind → Fields → List β → α) : List Value → Option α
  | [id, kind] => do
    return make (← id? id) (← Kind.ofValue? kind) [] []
  | [id, kind, data] => do
    return make (← id? id) (← Kind.ofValue? kind) (← fields? data) []
  | [id, kind, data, children] => do
    return make (← id? id) (← Kind.ofValue? kind) (← fields? data) (← children? children)
  | _ => none

theorem ofRow?_of_decodeRow? {β : Type} {id? : Value → Option ι}
    {children? : Value → Option (List β)} {make : ι → Kind → Fields → List β → α}
    {items : List Value} {a : α} (h : decodeRow? id? children? make items = some a) :
    items.length ≤ 4 ∧ ∃ id kind data children, ofRow? id? children? items = some ⟨some id,
      some kind, data, children⟩ ∧ make id kind (data.getD []) (children.getD []) = a := by
  rcases items with _ | ⟨id, _ | ⟨kind, _ | ⟨data, _ | ⟨children, _ | ⟨_, _⟩⟩⟩⟩⟩
  · simp [decodeRow?] at h
  · simp [decodeRow?] at h
  · simp only [decodeRow?, Option.bind_eq_bind, Option.bind_eq_some_iff] at h
    obtain ⟨id, hid, kind, hkind, heq⟩ := h
    cases heq
    exact ⟨by simp, id, kind, none, none, by simp [ofRow?, rowField?, hid, hkind], rfl⟩
  · simp only [decodeRow?, Option.bind_eq_bind, Option.bind_eq_some_iff] at h
    obtain ⟨id, hid, kind, hkind, data, hdata, heq⟩ := h
    cases heq
    exact ⟨by simp, id, kind, some data, none, by simp [ofRow?, rowField?, hid, hkind, hdata], rfl⟩
  · simp only [decodeRow?, Option.bind_eq_bind, Option.bind_eq_some_iff] at h
    obtain ⟨id, hid, kind, hkind, data, hdata, children, hchildren, heq⟩ := h
    cases heq
    exact ⟨by simp, id, kind, some data,
      some children, by simp [ofRow?, rowField?, hid, hkind, hdata, hchildren], rfl⟩
  · simp [decodeRow?] at h

include hid hchildren

/-- Reading one member mirrors adding it. -/
theorem readMember_mirrors {d d' : Draft ι κ} {key : String} {s₁ : List Char} {v : Value}
    (hs : s.length < size) (hcolon : readColon s = .ok s₁)
    (hv : readValue size levels s₁ = .ok (v, rest))
    (hadd : d.addMember id? key v (fun _ => children? v) = some d') :
    d.readMember size levels readId readChildren key s = .ok (d', rest) := by
  unfold addMember at hadd
  unfold readMember
  cases hkey : BlockField.ofKey? key with
  | none =>
      simp only [hkey] at hadd
      cases hadd
      exact bind_eq_ok.mpr ⟨rest, skipUnknown_of_readValue hs hcolon hv, rfl⟩
  | some field =>
      simp only [hkey] at hadd
      cases field with
      | id =>
          obtain ⟨hnone, hput⟩ := setOnce_eq_some hadd
          exact readOnce_mirrors hid "id" hnone hs hcolon hv hput
      | kind =>
          obtain ⟨hnone, hput⟩ := setOnce_eq_some hadd
          exact readOnce_mirrors (mirrors_readKind size levels) "kind" hnone hs hcolon hv hput
      | data =>
          obtain ⟨hnone, hput⟩ := setOnce_eq_some hadd
          exact readOnce_mirrors (mirrors_readData size levels) "data" hnone hs hcolon hv hput
      | children =>
          obtain ⟨hnone, hput⟩ := setOnce_eq_some hadd
          exact readOnce_mirrors hchildren "children" hnone hs hcolon hv hput

/-- Reading a row of at most four items mirrors decoding them. -/
theorem readRow_mirrors {d : Draft ι κ} {n : Nat} {vs : List Value} (hs : s.length < size)
    (hform : ItemsForm (readValue size levels) n true s vs rest)
    (hrow : ofRow? id? children? vs = some d) (hlength : vs.length ≤ 4) :
    readRow size levels readId readChildren s = .ok (d, rest) := by
  simp only [ofRow?, Option.bind_eq_bind, Option.bind_eq_some_iff] at hrow
  obtain ⟨id, hid', kind, hkind', data, hdata', children, hchildren', heq⟩ := hrow
  cases heq
  obtain ⟨_, s₁, hread₁, hs, hform⟩ := readNext_mirrors hid hs hform hid'
  obtain ⟨_, s₂, hread₂, hs, hform⟩ :=
    readNext_mirrors (mirrors_readKind size levels) hs hform hkind'
  obtain ⟨_, s₃, hread₃, hs, hform⟩ :=
    readNext_mirrors (mirrors_readData size levels) hs hform hdata'
  obtain ⟨_, s₄, hread₄, hs, hform⟩ := readNext_mirrors hchildren hs hform hchildren'
  have hend : vs.tail.tail.tail.tail = [] := by
    rw [← List.length_eq_zero_iff]
    simp only [List.length_tail]
    omega
  rw [hend] at hform
  simp only [readRow, hread₁, hread₂, hread₃, hread₄, closeList_of_form hform, ok_bind]
  rfl

end Draft

/-! ## Records -/

/-- Nothing but arrays and objects describes anything. -/
def Structured (decode : Value → Option α) : Prop :=
  ∀ ⦃v a⦄, decode v = some a → (∃ items, v = .array items) ∨ ∃ members, v = .object members

/-- Where no level is left, no array and no object can be read. -/
theorem Structured.mirrors {decode : Value → Option α} (h : Structured decode) (reader : Reader α) :
    Mirrors size 0 decode reader := by
  intro s v rest a _ hv hdecode
  have hform := readValue_eq_ok.mp hv
  generalize skipSpace s = cs at hform
  rcases h hdecode with ⟨items, rfl⟩ | ⟨members, rfl⟩
  · cases hform
  · cases hform

/-- A reader opens a record, reads its fields in either form and builds a thing from them. -/
def ReadsRecord (size levels : Nat) (expected : String) (read : RecordForm → Reader σ)
    (build : RecordForm → σ → Except Fault α) (reader : Reader α) : Prop :=
  ∀ ⦃s form s₁ d rest a⦄, openRecord size expected levels s = .ok (form, s₁) →
    read form s₁ = .ok (d, rest) → build form d = .ok a → reader s = .ok (a, rest)

/-- The fields of an array or of an object, read in its form, build what the value describes. -/
theorem Structured.mirrors_record {decode : Value → Option α} (h : Structured decode)
    {expected : String} {read : RecordForm → Reader σ} {build : RecordForm → σ → Except Fault α}
    {reader : Reader α} (hreader : ReadsRecord size (levels + 1) expected read build reader)
    (hlist : ∀ {s items rest a}, s.length < size →
      ItemsForm (readValue size levels) size true s items rest →
      decode (.array items) = some a → ∃ d, read .list s = .ok (d, rest) ∧ build .list d = .ok a)
    (hobject : ∀ {s members rest a}, s.length < size →
      PairsForm size (readValue size levels) size true s members rest →
      decode (.object members) = some a → ∃ d, read .object s = .ok (d, rest) ∧
        build .object d = .ok a) : Mirrors size (levels + 1) decode reader := by
  intro s v rest a hs hv hdecode
  have hform := readValue_eq_ok.mp hv
  generalize hcs : skipSpace s = cs at hform
  rcases h hdecode with ⟨items, rfl⟩ | ⟨members, rfl⟩
  · cases hform with
    | array hitems =>
        have hlt := length_of_skipSpace_eq hcs
        obtain ⟨d, hread, hbuild⟩ := hlist (hlt.trans hs) (readItemsLoop_eq_ok.mp hitems) hdecode
        refine hreader ?_ hread hbuild
        simp only [openRecord, hcs, Nat.add_one_ne_zero, if_false]
  · cases hform with
    | object hmembers =>
        have hlt := length_of_skipSpace_eq hcs
        obtain ⟨d, hread, hbuild⟩ :=
          hobject (hlt.trans hs) (readPairsLoop_eq_ok.mp hmembers) hdecode
        refine hreader ?_ hread hbuild
        simp only [openRecord, hcs, Nat.add_one_ne_zero, if_false]

namespace Draft

variable {ι κ : Type}

/-- A decoder of records with the four fields: a row has at most four items, and members are added
one by one. -/
structure Decodes (id? : Value → Option ι) (children? : Value → Option κ)
    (build : RecordForm → Draft ι κ → Except Fault α) (decode : Value → Option α) : Prop where
  structured : Structured decode
  row {items a} : decode (.array items) = some a →
    items.length ≤ 4 ∧ ∃ d, ofRow? id? children? items = some d ∧ build .list d = .ok a
  members {members a} : decode (.object members) = some a →
    ∃ d, members.foldlM (fun d m => addMember id? d m.1 m.2 fun _ => children? m.2) {} = some d ∧
      build .object d = .ok a

theorem Decodes.mirrors {id? : Value → Option ι} {children? : Value → Option κ}
    {build : RecordForm → Draft ι κ → Except Fault α} {decode : Value → Option α}
    (h : Decodes id? children? build decode) {readId : Reader ι} {readChildren : Reader κ}
    (hid : Mirrors size levels id? readId) (hchildren : Mirrors size levels children? readChildren)
    {expected : String} {reader : Reader α}
    (hreader : ReadsRecord size (levels + 1) expected (Draft.read size levels readId readChildren)
      build reader) : Mirrors size (levels + 1) decode reader := by
  refine h.structured.mirrors_record hreader ?_ ?_
  · intro s items rest a hs hitems hdecode
    obtain ⟨hlength, d, hrow, hbuild⟩ := h.row hdecode
    exact ⟨d, readRow_mirrors hid hchildren hs hitems hrow hlength, hbuild⟩
  · intro s members rest a hs hmembers hdecode
    obtain ⟨d, hfold, hbuild⟩ := h.members hdecode
    have hread := pairsForm_mirrors (readMember size levels readId readChildren)
      (fun d key v => d.addMember id? key v fun _ => children? v) (readMember_mirrors hid hchildren)
        hmembers hs hfold
    exact ⟨d, hread, hbuild⟩

end Draft

theorem toOption_eq_some {ε : Type} {x : Except ε α} {a : α} (h : x.toOption = some a) :
    x = .ok a := by
  cases x with
  | error e => simp [Except.toOption] at h
  | ok b => simpa [Except.toOption] using h

end BlockBot
