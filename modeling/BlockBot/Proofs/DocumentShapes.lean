import BlockBot.Proofs.Spellings
import BlockBot.Proofs.DirectReading

/-!
# The two shapes of a document

A document is a list of blocks or a graph, and every record in it may also be written as the list of
its fields, so that `[[], []]` could be two blocks or a graph without roots and nodes. No document
is both, however it is read. Of a value that was read before, the shape decides. Of a text that is
read directly, the first character of each part does: what a reader can accept starts with one of a
few characters (`StartsWith`), and a text that is a graph would have, as its second block, a row
whose id starts with a bracket or a brace.

Hence it does not matter which of the two shapes is tried first.
-/

namespace BlockBot

open BlockBot.Json

/-! ## First characters -/

namespace Json

variable {α : Type} {size levels : Nat} {s rest : List Char}

@[simp]
theorem failType_ne_ok (size : Nat) (expected : String) (s : List Char) (a : α) :
    failType size expected s ≠ .ok a := by
  cases s with
  | nil => simp [failType]
  | cons c r =>
      simp only [failType]
      split_ifs <;> simp [bind_eq_ok]

/-- All that a reader accepts has one of these characters first, after blanks. -/
def StartsWith (firsts : List Char) (reader : Reader α) : Prop :=
  ∀ ⦃s a rest⦄, reader s = .ok (a, rest) → ∃ c ∈ firsts, ∃ r, skipSpace s = c :: r

/-- Readers that have no first character in common accept nothing in common. -/
theorem StartsWith.disjoint {β : Type} {firsts firsts' : List Char} {reader : Reader α}
    {reader' : Reader β} (h : StartsWith firsts reader) (h' : StartsWith firsts' reader')
    (hfirsts : ∀ c ∈ firsts, c ∉ firsts') {a : α} {b : β} {rest' : List Char}
    (ha : reader s = .ok (a, rest)) : reader' s ≠ .ok (b, rest') := by
  intro hb
  obtain ⟨c, hc, r, hs⟩ := h ha
  obtain ⟨c', hc', r', hs'⟩ := h' hb
  obtain ⟨rfl, -⟩ := List.cons.inj (hs.symm.trans hs')
  exact hfirsts c hc hc'

/-- A reader that goes on with what another one left. -/
theorem StartsWith.bind {β : Type} {firsts : List Char} {reader : Reader α}
    (h : StartsWith firsts reader) (next : α × List Char → Except Failure (β × List Char)) :
    StartsWith firsts fun s => reader s >>= next := by
  intro s b rest hread
  obtain ⟨⟨a, s'⟩, ha, -⟩ := bind_eq_ok.mp hread
  exact h ha

theorem readString_eq_ok {t : String} :
    readString size s = .ok (t, rest) ↔
      ∃ r, skipSpace s = '"' :: r ∧ readText size r = .ok (t, rest) := by
  unfold readString
  split
  · next r h => simp [h]
  · next hne =>
      simp only [failType_ne_ok, false_iff]
      rintro ⟨r, hs, -⟩
      exact hne r hs

theorem startsWith_readString (size : Nat) : StartsWith ['"'] (readString size) := by
  intro s t rest h
  obtain ⟨r, hs, -⟩ := readString_eq_ok.mp h
  exact ⟨'"', by simp, r, hs⟩

theorem readString_skipSpace (size : Nat) (s : List Char) :
    readString size (skipSpace s) = readString size s := by
  unfold readString
  rw [skipSpace_idem]

theorem readNullable_eq_ok {reader : Reader α} {o : Option α}
    (h : readNullable reader s = .ok (o, rest)) :
    (∃ r, skipSpace s = 'n' :: r) ∨ ∃ a, o = some a ∧ reader (skipSpace s) = .ok (a, rest) := by
  unfold readNullable at h
  split at h
  · next r hs => exact .inl ⟨r, hs⟩
  · obtain ⟨⟨a, s'⟩, ha, h⟩ := bind_eq_ok.mp h
    cases h
    exact .inr ⟨a, rfl, ha⟩

theorem startsWith_readNullable {firsts : List Char} {reader : Reader α}
    (h : StartsWith firsts reader) : StartsWith ('n' :: firsts) (readNullable reader) := by
  intro s o rest hread
  rcases readNullable_eq_ok hread with ⟨r, hs⟩ | ⟨a, -, ha⟩
  · exact ⟨'n', by simp, r, hs⟩
  · obtain ⟨c, hc, r, hs⟩ := h ha
    exact ⟨c, List.mem_cons_of_mem _ hc, r, by rw [← hs, skipSpace_idem]⟩

theorem readList_eq_ok {item : Nat → Reader α} {xs : List α}
    (h : Json.readList size levels item s = .ok (xs, rest)) :
    ∃ r inner, skipSpace s = '[' :: r ∧ levels = inner + 1 ∧
      ItemsForm (item inner) size true r xs rest := by
  unfold Json.readList at h
  split at h
  · next r hs =>
      cases levels with
      | zero => simp at h
      | succ inner => exact ⟨r, inner, hs, rfl, readItemsLoop_eq_ok.mp h⟩
  · simp at h

theorem startsWith_readTable (size levels : Nat) (value : Nat → Reader α) :
    StartsWith ['\x7b'] (readTable size levels value) := by
  intro s members rest h
  unfold readTable at h
  split at h
  · next r hs => exact ⟨'\x7b', by simp, r, hs⟩
  · simp at h

/-- What opens a record written as a list is its bracket. -/
theorem openRecord_eq_ok {expected : String} {form : RecordForm}
    (h : openRecord size expected levels s = .ok (form, rest)) :
    (form = .list ∧ skipSpace s = '[' :: rest) ∨ form = .object ∧ skipSpace s = '\x7b' :: rest := by
  unfold openRecord at h
  split at h
  · next r hs =>
      split_ifs at h
      · simp at h
      · cases h
        exact .inl ⟨rfl, hs⟩
  · next r hs =>
      split_ifs at h
      · simp at h
      · cases h
        exact .inr ⟨rfl, hs⟩
  · simp at h

theorem startsWith_openRecord (size : Nat) (expected : String) (levels : Nat) :
    StartsWith ['[', '\x7b'] (openRecord size expected levels) := by
  intro s form rest h
  rcases openRecord_eq_ok h with ⟨-, hs⟩ | ⟨-, hs⟩
  · exact ⟨'[', by simp, rest, hs⟩
  · exact ⟨'\x7b', by simp, rest, hs⟩

/-- A field of a row was read where an item was left. -/
theorem readNext_eq_some {first : Bool} {reader : Reader α} {a : α}
    (h : readNext first reader s = .ok (some a, rest)) :
    ∃ s', nextItem first s = .ok (some s') ∧ reader s' = .ok (a, rest) := by
  obtain ⟨next, hnext, h⟩ := bind_eq_ok.mp h
  cases next with
  | none => cases h
  | some s' =>
      obtain ⟨⟨x, s''⟩, hx, h⟩ := bind_eq_ok.mp h
      cases h
      exact ⟨s', hnext, hx⟩

/-- A field of a row is missing where the row ends. -/
theorem readNext_eq_none {first : Bool} {reader : Reader α}
    (h : readNext first reader s = .ok (none, rest)) : nextItem first s = .ok none ∧ rest = s := by
  obtain ⟨next, hnext, h⟩ := bind_eq_ok.mp h
  cases next with
  | none => cases h; exact ⟨hnext, rfl⟩
  | some s' =>
      obtain ⟨⟨x, s''⟩, -, h⟩ := bind_eq_ok.mp h
      cases h

/-- Where a row ended, no later item follows. -/
theorem nextItem_ne_some {first : Bool} {s' : List Char} (h : nextItem first s = .ok none) :
    nextItem false s ≠ .ok (some s') := by
  intro hsome
  obtain ⟨r, hr⟩ := nextItem_eq_none.mp h
  obtain ⟨t, ht, -⟩ := nextItem_later.mp hsome
  rw [hr] at ht
  simp at ht

/-- If there is one more field, the one before it was there. -/
theorem readNext_of_more {first : Bool} {reader : Reader α} {o : Option α} {s₂ s₃ : List Char}
    (h : readNext first reader s = .ok (o, s₂)) (hmore : nextItem false s₂ = .ok (some s₃)) :
    ∃ s₁ a, nextItem first s = .ok (some s₁) ∧ reader s₁ = .ok (a, s₂) := by
  cases o with
  | none =>
      obtain ⟨hend, rfl⟩ := readNext_eq_none h
      exact absurd hmore (nextItem_ne_some hend)
  | some a =>
      obtain ⟨s₁, hfirst, hread⟩ := readNext_eq_some h
      exact ⟨s₁, a, hfirst, hread⟩

/-- Where an item is left, the items that were read start with it. -/
theorem ItemsForm.of_next {item : Reader α} {n : Nat} {first : Bool} {s₁ : List Char} {xs : List α}
    (h : ItemsForm item n first s xs rest) (hnext : nextItem first s = .ok (some s₁)) :
    ∃ x s₂ m ys, item s₁ = .ok (x, s₂) ∧ ItemsForm item m false s₂ ys rest := by
  cases h with
  | nil hend => simp [hnext] at hend
  | cons hnext' hitem hitems =>
      obtain rfl : s₁ = _ := by simpa [hnext] using hnext'
      exact ⟨_, _, _, _, hitem, hitems⟩

end Json

/-! ## Rows of fields -/

section Rows

variable {ι κ : Type} {size levels : Nat} {s rest : List Char}

theorem startsWith_readData (size levels : Nat) : StartsWith ['n', '\x7b'] (readData size levels) :=
  .bind (startsWith_readNullable ((startsWith_readTable size levels (readValue size)).bind _)) _

theorem startsWith_block (size levels : Nat) :
    StartsWith ['[', '\x7b'] (Block.reader size levels) := by
  intro s b rest h
  cases levels with
  | zero =>
      rw [Block.reader] at h
      exact (startsWith_openRecord size "struct Block" 0).bind _ h
  | succ levels =>
      rw [Block.reader] at h
      exact (startsWith_openRecord size "struct Block" (levels + 1)).bind _ h

theorem startsWith_node (size levels : Nat) : StartsWith ['[', '\x7b'] (Node.reader size levels) :=
  (startsWith_openRecord size "struct BlockNode" levels).bind _

/-- A row that goes as far as the kind has an id before it. -/
theorem Draft.readRow_kind {readId : Reader ι} {readChildren : Reader κ}
    {d : Draft ι κ} {kind : Kind}
    (h : Draft.readRow size levels readId readChildren s = .ok (d, rest))
    (hkind : d.kind = some kind) :
    ∃ s₁ id s₂ s₃ s₄, nextItem true s = .ok (some s₁) ∧ readId s₁ = .ok (id, s₂) ∧
      nextItem false s₂ = .ok (some s₃) ∧ readKind size levels s₃ = .ok (kind, s₄) ∧
      ∃ data s₅ children s₆, readNext false (readData size levels) s₄ = .ok (data, s₅) ∧
        readNext false readChildren s₅ = .ok (children, s₆) ∧ closeList s₆ = .ok rest := by
  obtain ⟨⟨id, s₂⟩, hid, h⟩ := bind_eq_ok.mp h
  obtain ⟨⟨kind', s₄⟩, hkind', h⟩ := bind_eq_ok.mp h
  obtain ⟨⟨data, s₅⟩, hdata, h⟩ := bind_eq_ok.mp h
  obtain ⟨⟨children, s₆⟩, hchildren, h⟩ := bind_eq_ok.mp h
  obtain ⟨s₇, hclose, h⟩ := bind_eq_ok.mp h
  cases h
  cases hkind
  obtain ⟨s₃, hnext, hread⟩ := readNext_eq_some hkind'
  obtain ⟨s₁, id, hfirst, hread'⟩ := readNext_of_more hid hnext
  exact ⟨s₁, id, s₂, s₃, s₄, hfirst, hread', hnext, hread, data, s₅, children, s₆, hdata,
    hchildren, hclose⟩

/-- A block after a bracket is a row with an id and a kind. -/
theorem Block.reader_row {b : Block} {r : List Char}
    (h : Block.reader size levels s = .ok (b, rest)) (hs : skipSpace s = '[' :: r) :
    ∃ inner d kind, d.kind = some kind ∧
      Draft.readRow size inner (readNullable (readString size))
        (readOptionalList (Block.listReader size inner)) r =
        .ok (d, rest) := by
  cases levels with
  | zero =>
      rw [Block.reader] at h
      obtain ⟨⟨form, s'⟩, -, h⟩ := bind_eq_ok.mp h
      simp at h
  | succ inner =>
      rw [Block.reader] at h
      obtain ⟨⟨form, s'⟩, hopen, hrest⟩ := bind_eq_ok.mp h
      obtain ⟨⟨d, s''⟩, hread, hmake⟩ := bind_eq_ok.mp hrest
      rcases openRecord_eq_ok hopen with ⟨rfl, hs'⟩ | ⟨rfl, hs'⟩
      · obtain rfl : r = s' := by simpa [hs] using hs'
        refine ⟨inner, d, ?_⟩
        cases hkind : d.kind with
        | none => simp [Block.ofDraft, hkind] at hmake
        | some kind =>
            simp only [Block.ofDraft, hkind] at hmake
            cases hmake
            exact ⟨kind, rfl, hread⟩
      · simp [hs] at hs'

/-- A graph after a bracket is a row with roots and nodes. -/
theorem Graph.reader_row {g : Graph} {r : List Char}
    (h : Graph.reader size levels s = .ok (g, rest)) (hs : skipSpace s = '[' :: r) :
    ∃ s₁ roots s₂ s₃ nodes s₄, nextItem true r = .ok (some s₁) ∧
      readOptionalList (readTexts size (levels - 1)) s₁ = .ok (roots, s₂) ∧
        nextItem false s₂ = .ok (some s₃) ∧
      Graph.nodesReader size (levels - 1) s₃ = .ok (nodes, s₄) := by
  obtain ⟨⟨form, s'⟩, hopen, hrest⟩ := bind_eq_ok.mp h
  obtain ⟨⟨d, s''⟩, hread, hmake⟩ := bind_eq_ok.mp hrest
  rcases openRecord_eq_ok hopen with ⟨rfl, hs'⟩ | ⟨rfl, hs'⟩
  · obtain rfl : r = s' := by simpa [hs] using hs'
    obtain ⟨⟨roots, s₂⟩, hroots, hread⟩ := bind_eq_ok.mp hread
    obtain ⟨⟨nodes, s₄⟩, hnodes, hread⟩ := bind_eq_ok.mp hread
    obtain ⟨s₅, -, hread⟩ := bind_eq_ok.mp hread
    cases hread
    cases nodes with
    | none => simp [Graph.ofDraft] at hmake
    | some nodes =>
        obtain ⟨s₃, hnext, hnodes⟩ := readNext_eq_some hnodes
        obtain ⟨s₁, roots, hfirst, hroots⟩ := readNext_of_more hroots hnext
        exact ⟨s₁, roots, s₂, s₃, nodes, s₄, hfirst, hroots, hnext, hnodes⟩
  · simp [hs] at hs'

/-! ## A text is not both -/

/-- An optional text that starts as a text ends with it. -/
theorem readNullable_rest {t : String} {o : Option String} {rest' : List Char}
    (ht : readString size s = .ok (t, rest))
    (ho : readNullable (readString size) s = .ok (o, rest')) : rest' = rest := by
  obtain ⟨r, hs, -⟩ := readString_eq_ok.mp ht
  rcases readNullable_eq_ok ho with ⟨r', hs'⟩ | ⟨t', -, ht'⟩
  · simp [hs] at hs'
  · rw [readString_skipSpace, ht] at ht'
    cases ht'
    rfl

/-- A kind that starts as a text ends with it. -/
theorem readKind_rest {t : String} {kind : Kind} {rest' : List Char}
    (ht : readString size s = .ok (t, rest)) (hkind : readKind size levels s = .ok (kind, rest')) :
    rest' = rest := by
  obtain ⟨r, hs, htext⟩ := readString_eq_ok.mp ht
  have hv : readValue size levels s = .ok (.string t, rest) :=
    readValue_eq_ok.mpr (hs ▸ .string htext)
  unfold readKind at hkind
  rw [hv, ok_bind] at hkind
  cases hkind
  rfl

/-- Texts leave nothing for the data of a row that was read along with them: the row ends where they
end. -/
theorem Draft.row_rest {n : Nat} {readChildren : Reader κ} {texts : List String}
    {data : Option Fields} {children : Option κ} {s₁ s₂ rest' : List Char}
    (htexts : ItemsForm (readString size) n false s texts rest)
    (hdata : readNext false (readData size levels) s = .ok (data, s₁))
    (hchildren : readNext false readChildren s₁ = .ok (children, s₂))
    (hclose : closeList s₂ = .ok rest') : rest' = rest := by
  cases htexts with
  | nil hend hclose' =>
      have hstay : ∀ {α : Type} {reader : Reader α} {o : Option α} {s' : List Char},
          readNext false reader s = .ok (o, s') → s' = s := by
        intro α reader o s' h
        cases o with
        | none => exact (readNext_eq_none h).2
        | some a =>
            obtain ⟨s'', hnext, -⟩ := readNext_eq_some h
            exact absurd hnext (nextItem_ne_some hend)
      obtain rfl := hstay hdata
      obtain rfl := hstay hchildren
      rw [hclose'] at hclose
      cases hclose
      rfl
  | cons hnext ht =>
      cases data with
      | none => simp [(readNext_eq_none hdata).1] at hnext
      | some data =>
          obtain ⟨s', hnext', hread⟩ := readNext_eq_some hdata
          obtain rfl : s' = _ := by simpa [hnext'] using hnext
          exact absurd hread
            ((startsWith_readString size).disjoint (startsWith_readData size levels) (by simp) ht)

/-- A list of texts that is also a block holds an id and a kind, and both readings end at the same
place. -/
theorem Block.reader_of_texts {texts : List String} {b : Block} {inner : Nat} {rest' : List Char}
    (htexts : readOptionalList (readTexts size inner) s = .ok (texts, rest))
    (hblock : Block.reader size levels s = .ok (b, rest')) : rest' = rest := by
  obtain ⟨⟨o, s'⟩, hnull, heq⟩ := bind_eq_ok.mp htexts
  cases heq
  rcases readNullable_eq_ok hnull with ⟨r, hs⟩ | ⟨ts, -, hlist⟩
  · obtain ⟨c, hc, r', hs'⟩ := startsWith_block size levels hblock
    rw [hs] at hs'
    cases hs'
    simp at hc
  · obtain ⟨r, m, hs, -, hitems⟩ := readList_eq_ok hlist
    rw [skipSpace_idem] at hs
    obtain ⟨n, d, kind, hkind, hrow⟩ := Block.reader_row hblock hs
    obtain ⟨s₁, id, s₂, s₃, s₄, hfirst, hid, hsecond, hkind, data, s₅, children, s₆, hdata,
        hchildren, hclose⟩ :=
      Draft.readRow_kind hrow hkind
    -- the two readings go along item by item: the first text is the id, the second one the kind
    obtain ⟨text, t₂, _, _, htext, hitems⟩ := hitems.of_next hfirst
    obtain rfl := readNullable_rest htext hid
    obtain ⟨text', t₄, _, _, htext', hitems⟩ := hitems.of_next hsecond
    obtain rfl := readKind_rest htext' hkind
    exact Draft.row_rest hitems hdata hchildren hclose

/-- Nodes are no block: the id of a block is no record. -/
theorem Block.reader_ne_ok_of_nodes {nodes : List Node} {b : Block} {inner : Nat}
    {rest' : List Char} (hnodes : Graph.nodesReader size inner s = .ok (nodes, rest)) :
    Block.reader size levels s ≠ .ok (b, rest') := by
  intro hblock
  obtain ⟨r, m, hs, -, hitems⟩ := readList_eq_ok hnodes
  obtain ⟨n, d, kind, hkind, hrow⟩ := Block.reader_row hblock hs
  obtain ⟨s₁, id, s₂, -, -, hnext, hid, -⟩ := Draft.readRow_kind hrow hkind
  obtain ⟨node, _, _, _, hnode, -⟩ := hitems.of_next hnext
  refine (startsWith_node size m).disjoint
    (startsWith_readNullable (startsWith_readString size)) ?_ hnode hid
  simp

/-- No text is read both as a list of blocks and as a graph. -/
theorem listReader_ne_ok_of_graph {levels' : Nat} {g : Graph} {bs : List Block} {rest' : List Char}
    (hgraph : Graph.reader size levels' s = .ok (g, rest)) :
    Block.listReader size (levels + 1) s ≠ .ok (bs, rest') := by
  intro hblocks
  rw [Block.listReader_succ] at hblocks
  obtain ⟨r, inner, hs, hlevels, hitems⟩ := readList_eq_ok hblocks
  obtain ⟨s₁, roots, s₂, s₃, nodes, s₄, hfirst, hroots, hnext, hnodes⟩ := Graph.reader_row hgraph hs
  -- the roots would be the first block, and the nodes the second one
  obtain ⟨b, t₂, _, _, hblock, hitems⟩ := hitems.of_next hfirst
  obtain rfl := Block.reader_of_texts hroots hblock
  obtain ⟨b', t₄, _, _, hblock', -⟩ := hitems.of_next hnext
  exact Block.reader_ne_ok_of_nodes hnodes hblock'

end Rows

/-! ## Either order -/

namespace Document

/-- The bot that a value describes, where a graph is looked for first. -/
def graphFirst? (v : Value) : Option Document :=
  match Graph.ofValue? v with
  | some g => some (.graph g)
  | none => (Block.listOfValue? v).map .tree

/-- Reads a whole text as a bot, where `decode` tells the bot from its value. -/
def readBy (decode : Value → Option Document) (text : String) : Except ReadError Document :=
  let cs := text.toList
  match readValue (sizeOfText cs) maxNesting cs with
  | .error e => .error (e.locate cs)
  | .ok (v, rest) =>
    match decode v with
    | none => .error ⟨.noAlternative "BlockDocument", none⟩
    | some d =>
      match expectEnd rest with
      | .error e => .error (e.locate cs)
      | .ok _ => .ok d

end Document

/-- Compiles the text of a stored bot, where `decode` tells the bot from its value. -/
def compileTextBy (decode : Value → Option Document) (options : Options) (text : String) :
    Except CompileError String × List Notice :=
  match Document.readBy decode text with
  | .error e => (.error (.unreadable e), [])
  | .ok d => d.compileNoting options

theorem compileTextBy_ofValue? : compileTextBy Document.ofValue? = compileTextNoting := rfl

/-- A value is not both. -/
theorem listOfValue?_eq_none_or (v : Value) :
    Block.listOfValue? v = none ∨ Graph.ofValue? v = none :=
  (seemsGraph_eq_false_or v).symm.imp Block.listOfValue?_of_shape Graph.ofValue?_of_shape

theorem Document.graphFirst?_eq : Document.graphFirst? = Document.ofValue? := by
  funext v
  rw [Document.graphFirst?, Document.ofValue?]
  rcases listOfValue?_eq_none_or v with h | h
  · rw [h]
    cases Graph.ofValue? v <;> rfl
  · rw [h]
    cases Block.listOfValue? v <;> rfl

/-- A reading of a whole text is one of its beginning, after which only blanks are left. -/
theorem readAll_eq_ok {α : Type} {reader : Nat → Reader α} {text : String} {a : α}
    (h : readAll reader text = .ok a) :
    ∃ rest, reader (sizeOfText text.toList) text.toList = .ok (a, rest) := by
  have hresult : ∀ {x : Except Failure α} {f : Failure → ReadError},
      x.mapError f = .ok a → x = .ok a := by
    intro x f hx
    cases x with
    | error e => cases hx
    | ok b => cases hx; rfl
  obtain ⟨⟨x, rest⟩, hread, hend⟩ := bind_eq_ok.mp (hresult h)
  obtain ⟨-, -, hx⟩ := bind_eq_ok.mp hend
  cases hx
  exact ⟨rest, hread⟩

theorem readList_error_or (text : String) :
    (∃ e, Block.readList text = .error e) ∨ ∃ e, Graph.read text = .error e := by
  rcases hblocks : Block.readList text with e | bs
  · exact .inl ⟨e, rfl⟩
  · rcases hgraph : Graph.read text with e | g
    · exact .inr ⟨e, rfl⟩
    · obtain ⟨rest, hblocks⟩ := readAll_eq_ok hblocks
      obtain ⟨rest', hgraph⟩ := readAll_eq_ok hgraph
      exact absurd hblocks (listReader_ne_ok_of_graph hgraph)

/-- No document is both a list of blocks and a graph, as a value or as a text that is read directly,
and every text compiles to the same if a graph is looked for before a list of blocks. -/
theorem document_shapes_disjoint :
    (∀ v, Block.listOfValue? v = none ∨ Graph.ofValue? v = none) ∧
      (∀ text, (∃ e, Block.readList text = .error e) ∨ ∃ e, Graph.read text = .error e) ∧
      ∀ options text, compileTextBy Document.graphFirst? options text =
        compileTextNoting options text := by
  refine ⟨listOfValue?_eq_none_or, readList_error_or, ?_⟩
  intro options text
  rw [Document.graphFirst?_eq, compileTextBy_ofValue?]

-- The first item of both lists would do as a block and as roots; the second one decides.
example :
    let row : Value := .array [.string "a", .string "reply"]
    Document.ofValue? (.array [row, row]) =
      some (.tree [⟨some "a", .reply, [], []⟩, ⟨some "a", .reply, [], []⟩]) ∧
      Document.ofValue? (.array [row, .array [row]]) =
        some (.graph ⟨["a", "reply"], [⟨"a", .reply, [], []⟩]⟩) :=
  ⟨rfl, rfl⟩

end BlockBot
