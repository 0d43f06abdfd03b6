import BlockBot.Document
import BlockBot.Proofs.TypedReading

/-!
# Reading at once and reading through a value

A document is read as a value first, and the value is then tried as a list of blocks and as a graph.
Blocks and graphs can also be read from the text directly. Each of the direct readers mirrors the
decoder of its type, so where a text was read as nested blocks or as a graph, the direct reader
gives the same.
-/

namespace BlockBot

open BlockBot.Json

variable {α : Type} {size levels : Nat} {s rest : List Char}

/-! ## Blocks -/

namespace Block

theorem ofItems?_eq_mapM (items : List Value) : ofItems? items = items.mapM ofValue? := by
  induction items with
  | nil => simp [ofItems?]
  | cons v vs ih => simp only [ofItems?, ih, List.mapM_cons]

theorem draftOfMembers?_eq_foldlM (members : List (String × Value))
    (d : Draft (Option String) (List Block)) :
    draftOfMembers? members d =
      members.foldlM
        (fun d m => d.addMember optionalText? m.1 m.2 fun _ => bodyOfValue? m.2) d := by
  induction members generalizing d with
  | nil => simp [draftOfMembers?]
  | cons m ms ih => simp only [draftOfMembers?, ih, List.foldlM_cons]

theorem ofValue?_array (items : List Value) :
    ofValue? (.array items) = Draft.decodeRow? optionalText? bodyOfValue? Block.mk items := by
  rcases items with _ | ⟨id, _ | ⟨kind, _ | ⟨data, _ | ⟨children, _ | ⟨_, _⟩⟩⟩⟩⟩ <;>
    simp only [ofValue?, Draft.decodeRow?]

theorem decodes_ofValue? : Draft.Decodes optionalText? bodyOfValue? ofDraft ofValue? where
  structured := by
    intro v b h
    cases v with
    | array items => exact .inl ⟨items, rfl⟩
    | object members => exact .inr ⟨members, rfl⟩
    | _ => simp [ofValue?] at h
  row := by
    intro items b h
    rw [ofValue?_array] at h
    obtain ⟨hlength, id, kind, data, children, hrow, rfl⟩ := Draft.ofRow?_of_decodeRow? h
    exact ⟨hlength, _, hrow, rfl⟩
  members := by
    intro members b h
    rw [ofValue?, draftOfMembers?_eq_foldlM] at h
    obtain ⟨d, hfold, hbuild⟩ := Option.bind_eq_some_iff.mp h
    exact ⟨d, hfold, toOption_eq_some hbuild⟩

theorem listOfValue?_eq : listOfValue? = listOf? ofValue? := by
  funext v
  cases v with
  | array items => exact ofItems?_eq_mapM items
  | _ => rfl

theorem bodyOfValue?_eq :
    bodyOfValue? = fun v => (nullable? listOfValue? v).map fun bs => bs.getD [] := by
  funext v
  cases v with
  | array items => simp [bodyOfValue?, nullable?, listOfValue?, Function.comp_def]
  | _ => simp [bodyOfValue?, nullable?, listOfValue?]

theorem readsRecord_reader (size levels : Nat) :
    ReadsRecord size (levels + 1) "struct Block"
      (Draft.read size levels (readNullable (readString size))
        (readOptionalList (listReader size levels))) ofDraft
      (reader size (levels + 1)) := by
  intro s form s₁ d rest b hopen hread hbuild
  simp only [reader, hopen, ok_bind, hread, hbuild]
  rfl

theorem listReader_succ (size levels : Nat) :
    listReader size (levels + 1) = Json.readList size (levels + 1) fun _ => reader size levels := by
  funext s
  rw [listReader]

/-- Reading blocks directly mirrors decoding them, at every number of levels. -/
theorem mirrors_reader (size levels : Nat) :
    Mirrors size levels ofValue? (reader size levels) ∧
      Mirrors size levels listOfValue? (listReader size levels) := by
  rw [listOfValue?_eq]
  induction levels with
  | zero =>
      have hlist : Structured (listOf? ofValue?) := by
        intro v bs h
        cases v with
        | array items => exact .inl ⟨items, rfl⟩
        | _ => simp [listOf?] at h
      exact ⟨decodes_ofValue?.structured.mirrors _, hlist.mirrors _⟩
  | succ levels ih =>
      obtain ⟨hblock, hlist⟩ := ih
      have hbody :
          Mirrors size levels bodyOfValue? (readOptionalList (listReader size levels)) := by
        rw [bodyOfValue?_eq, listOfValue?_eq]
        exact hlist.optionalList
      have hid : Mirrors size levels optionalText? (readNullable (readString size)) := by
        have heq : optionalText? = nullable? requiredText? := by
          funext v
          cases v <;> rfl
        rw [heq]
        exact (mirrors_readString size levels).nullable
      refine ⟨decodes_ofValue?.mirrors hid hbody (readsRecord_reader size levels), ?_⟩
      rw [listReader_succ]
      refine mirrors_readList fun inner hinner => ?_
      rw [← Nat.succ.inj hinner]
      exact hblock

end Block

/-! ## Graphs -/

namespace Node

theorem draftOfMembers?_eq_foldlM (members : List (String × Value))
    (d : Draft String (List String)) :
    draftOfMembers? members d =
      members.foldlM (fun d m => d.addMember requiredText? m.1 m.2 fun _ => texts? m.2) d := by
  induction members generalizing d with
  | nil => rfl
  | cons m ms ih => simp only [draftOfMembers?, ih, List.foldlM_cons]

theorem ofValue?_array (items : List Value) :
    ofValue? (.array items) = Draft.decodeRow? requiredText? texts? Node.mk items := by
  rcases items with _ | ⟨id, _ | ⟨kind, _ | ⟨data, _ | ⟨children, _ | ⟨_, _⟩⟩⟩⟩⟩ <;>
    simp only [ofValue?, Draft.decodeRow?]

theorem decodes_ofValue? : Draft.Decodes requiredText? texts? ofDraft ofValue? where
  structured := by
    intro v n h
    cases v with
    | array items => exact .inl ⟨items, rfl⟩
    | object members => exact .inr ⟨members, rfl⟩
    | _ => simp [ofValue?] at h
  row := by
    intro items n h
    rw [ofValue?_array] at h
    obtain ⟨hlength, id, kind, data, children, hrow, rfl⟩ := Draft.ofRow?_of_decodeRow? h
    exact ⟨hlength, _, hrow, rfl⟩
  members := by
    intro members n h
    rw [ofValue?, draftOfMembers?_eq_foldlM] at h
    obtain ⟨d, hfold, hbuild⟩ := Option.bind_eq_some_iff.mp h
    exact ⟨d, hfold, toOption_eq_some hbuild⟩

theorem mirrors_reader (size levels : Nat) : Mirrors size levels ofValue? (reader size levels) := by
  cases levels with
  | zero => exact decodes_ofValue?.structured.mirrors _
  | succ levels =>
      have hreader : ReadsRecord size (levels + 1) "struct BlockNode"
          (Draft.read size levels (readString size) (readOptionalList (readTexts size levels)))
          ofDraft (reader size (levels + 1)) := by
        intro s form s₁ d rest n hopen hread hbuild
        simp only [reader, hopen, ok_bind, Nat.add_sub_cancel, hread, hbuild]
        rfl
      exact decodes_ofValue?.mirrors (mirrors_readString size levels)
        (mirrors_readTexts size levels) hreader

end Node

namespace Graph

theorem mirrors_nodesReader (size levels : Nat) :
    Mirrors size levels Node.listOfValue? (nodesReader size levels) := by
  have heq : Node.listOfValue? = listOf? Node.ofValue? := by
    funext v
    cases v <;> rfl
  rw [heq]
  exact mirrors_readList fun inner _ => Node.mirrors_reader size inner

theorem draftOfMembers?_eq_foldlM (members : List (String × Value)) (d : Draft) :
    draftOfMembers? members d = members.foldlM (fun d m => d.addMember m.1 m.2) d := by
  induction members generalizing d with
  | nil => rfl
  | cons m ms ih => simp only [draftOfMembers?, ih, List.foldlM_cons]

/-- Reading one member mirrors adding it. -/
theorem Draft.readMember_mirrors {d d' : Draft} {key : String} {s₁ : List Char} {v : Value}
    (hs : s.length < size) (hcolon : readColon s = .ok s₁)
    (hv : readValue size levels s₁ = .ok (v, rest)) (hadd : d.addMember key v = some d') :
    d.readMember size levels key s = .ok (d', rest) := by
  unfold Draft.addMember at hadd
  unfold Draft.readMember
  split_ifs at hadd with hroots hblocks
  · split at hadd
    · simp at hadd
    · next hnone =>
        rw [if_pos hroots]
        exact readOnce_mirrors (mirrors_readTexts size levels) "roots" hnone hs hcolon hv hadd
  · split at hadd
    · simp at hadd
    · next hnone =>
        rw [if_neg hroots, if_pos hblocks]
        exact readOnce_mirrors (mirrors_nodesReader size levels) "blocks" hnone hs hcolon hv hadd
  · cases hadd
    rw [if_neg hroots, if_neg hblocks]
    exact bind_eq_ok.mpr ⟨rest, skipUnknown_of_readValue hs hcolon hv, rfl⟩

theorem structured_ofValue? : Structured ofValue? := by
  intro v g h
  cases v with
  | array items => exact .inl ⟨items, rfl⟩
  | object members => exact .inr ⟨members, rfl⟩
  | _ => simp [ofValue?] at h

/-- Reading a graph directly mirrors decoding it. -/
theorem mirrors_reader (size levels : Nat) : Mirrors size levels ofValue? (reader size levels) := by
  cases levels with
  | zero => exact structured_ofValue?.mirrors _
  | succ levels =>
      have hreader :
          ReadsRecord size (levels + 1) "struct BlockGraph" (Draft.read size levels) ofDraft
          (reader size (levels + 1)) := by
        intro s form s₁ d rest g hopen hread hbuild
        simp only [reader, hopen, ok_bind, Nat.add_sub_cancel, hread, hbuild]
        rfl
      refine structured_ofValue?.mirrors_record hreader ?_ ?_
      · intro s items rest g hs hform hdecode
        rcases items with _ | ⟨roots, _ | ⟨nodes, _ | ⟨_, _⟩⟩⟩
        · simp [ofValue?] at hdecode
        · simp [ofValue?] at hdecode
        · simp only [ofValue?, Option.bind_eq_bind, Option.bind_eq_some_iff] at hdecode
          obtain ⟨rootIds, hroots, nodeList, hnodes, heq⟩ := hdecode
          cases heq
          obtain ⟨_, s₁, hread₁, hs, hform⟩ :=
            readNext_mirrors (o := some rootIds) (mirrors_readTexts size levels)
            hs hform (by simp [rowField?, hroots])
          obtain ⟨_, s₂, hread₂, hs, hform⟩ :=
            readNext_mirrors (o := some nodeList) (mirrors_nodesReader size levels)
            hs hform (by simp [rowField?, hnodes])
          refine ⟨⟨some rootIds, some nodeList⟩, ?_, rfl⟩
          simp only [Draft.read, Draft.readRow, hread₁, hread₂, closeList_of_form hform, ok_bind]
          rfl
        · simp [ofValue?] at hdecode
      · intro s members rest g hs hform hdecode
        rw [ofValue?, draftOfMembers?_eq_foldlM] at hdecode
        obtain ⟨d, hfold, hbuild⟩ := Option.bind_eq_some_iff.mp hdecode
        have hread :=
          pairsForm_mirrors (Draft.readMember size levels) Draft.addMember
            Draft.readMember_mirrors hform hs
          hfold
        exact ⟨d, hread, toOption_eq_some hbuild⟩

end Graph

/-! ## Documents -/

theorem Document.read_eq_ok {text : String} {d : Document} :
    Document.read text = .ok d ↔
      ∃ v rest, readValue (sizeOfText text.toList) maxNesting text.toList = .ok (v, rest) ∧
      Document.ofValue? v = some d ∧ expectEnd rest = .ok () := by
  unfold Document.read
  rcases hread : readValue (sizeOfText text.toList) maxNesting text.toList with e | ⟨v, rest⟩
  · simp [hread]
  · rcases hdecode : Document.ofValue? v with _ | d'
    · simp [hread, hdecode]
    · rcases hend : expectEnd rest with e | _
      · simp [hread, hdecode, hend]
      · simp [hread, hdecode, hend]

/-- A text in two parts, each given by its characters, is read by reading these. -/
theorem Document.read_append {cs cs' : List Char} {v : Value} {d : Document}
    (hv : readValue ((cs ++ cs').length + 1) maxNesting (cs ++ cs') = .ok (v, []))
    (hd : Document.ofValue? v = some d) :
    Document.read (String.ofList cs ++ String.ofList cs') = .ok d := by
  refine Document.read_eq_ok.mpr ⟨v, [], ?_, hd, rfl⟩
  rw [← String.ofList_append, String.toList_ofList]
  exact hv

/-- A reader of whole texts gives what the value of the text describes. -/
theorem readAll_of_mirrors {decode : Value → Option α} {reader : Nat → Reader α}
    (h : ∀ size, Mirrors size maxNesting decode (reader size)) {text : String} {v : Value} {a : α}
    (hv : readValue (sizeOfText text.toList) maxNesting text.toList = .ok (v, rest))
    (hend : expectEnd rest = .ok ()) (ha : decode v = some a) : readAll reader text = .ok a := by
  have hread := h _ (Nat.lt_succ_self text.toList.length) hv ha
  simp only [readAll, sizeOfText, hread, ok_bind, hend]
  rfl

theorem Block.readList_of_read {text : String} {bs : List Block}
    (h : Document.read text = .ok (.tree bs)) : Block.readList text = .ok bs := by
  obtain ⟨v, rest, hv, hdecode, hend⟩ := Document.read_eq_ok.mp h
  have hbs : Block.listOfValue? v = some bs := by
    unfold Document.ofValue? at hdecode
    cases hlist : Block.listOfValue? v with
    | none => simp [hlist] at hdecode
    | some bs' => simpa [hlist] using hdecode
  exact readAll_of_mirrors (fun size => (Block.mirrors_reader size maxNesting).2) hv hend hbs

theorem Graph.read_of_read {text : String} {g : Graph} (h : Document.read text = .ok (.graph g)) :
    Graph.read text = .ok g := by
  obtain ⟨v, rest, hv, hdecode, hend⟩ := Document.read_eq_ok.mp h
  have hg : Graph.ofValue? v = some g := by
    unfold Document.ofValue? at hdecode
    cases hlist : Block.listOfValue? v with
    | none => simpa [hlist] using hdecode
    | some bs => simp [hlist] at hdecode
  exact readAll_of_mirrors (fun size => Graph.mirrors_reader size maxNesting) hv hend hg

/-- Compiling a text is compiling the document that it is read as. -/
theorem compileText_of_read {text : String} {d : Document} (h : Document.read text = .ok d)
    (options : Options) : compileText options text = (d.compileNoting options).1 := by
  rw [compileText, compileTextNoting, h]

/-- A text that is read as nested blocks or as a graph can be read so directly, and compiling the
text is compiling what is read. -/
theorem Document.read_direct (text : String) :
    (∀ bs, Document.read text = .ok (.tree bs) →
      Block.readList text = .ok bs ∧ ∀ options, compileText options text = compile options bs) ∧
    ∀ g, Document.read text = .ok (.graph g) →
      Graph.read text = .ok g ∧ ∀ options, compileText options text = compileGraph options g :=
  ⟨fun _ hread => ⟨Block.readList_of_read hread, compileText_of_read hread⟩,
    fun _ hread => ⟨Graph.read_of_read hread, compileText_of_read hread⟩⟩

/-- A block written as a row, and one with an alias, a repeated key in its data, a body that is
`null` and a member without a meaning. -/
def mixedTree : String :=
  "[[null,\"reply\"],\x7b\"x\":[\"\\ud83d\\ude00\"]," ++
    "\"type\":\"event\",\"data\":\x7b\"a\":[],\"a\":true\x7d,\"children\":null\x7d]"

/-- A graph with a node written as a row, without roots. -/
def mixedGraph : String :=
  "\x7b\"blocks\":[[\"a\",\"reply\",null,[\"b\"]]," ++
    "\x7b\"kind\":\x7b\"event\":null\x7d,\"id\":\"b\"\x7d],\"roots\":null\x7d"

theorem Document.read_direct_mixed :
    (Document.read mixedTree =
        .ok (.tree [⟨none, .reply, [], []⟩, ⟨none, .event, [("a", .bool true)], []⟩]) ∧
      Block.readList mixedTree =
        .ok [⟨none, .reply, [], []⟩, ⟨none, .event, [("a", .bool true)], []⟩]) ∧
    Document.read mixedGraph =
        .ok (.graph ⟨[], [⟨"a", .reply, [], ["b"]⟩, ⟨"b", .event, [], []⟩]⟩) ∧
      Graph.read mixedGraph = .ok ⟨[], [⟨"a", .reply, [], ["b"]⟩, ⟨"b", .event, [], []⟩]⟩ := by
  let tree : Value := .array [.array [.null, .string "reply"], .object [("x", .array [.string "😀"]),
    ("type", .string "event"), ("data", .object [("a", .array []), ("a", .bool true)]),
      ("children", .null)]]
  let graph : Value := .object [("blocks", .array [.array [.string "a", .string "reply", .null,
    .array [.string "b"]], .object [("kind", .object [("event", .null)]), ("id", .string "b")]]),
      ("roots", .null)]
  have htree : Document.read mixedTree =
      .ok (.tree [⟨none, .reply, [], []⟩, ⟨none, .event, [("a", .bool true)], []⟩]) :=
    Document.read_append (v := tree) rfl rfl
  have hgraph : Document.read mixedGraph =
      .ok (.graph ⟨[], [⟨"a", .reply, [], ["b"]⟩, ⟨"b", .event, [], []⟩]⟩) :=
    Document.read_append (v := graph) rfl rfl
  exact ⟨⟨htree, ((Document.read_direct mixedTree).1 _ htree).1⟩, hgraph,
    ((Document.read_direct mixedGraph).2 _ hgraph).1⟩

end BlockBot
