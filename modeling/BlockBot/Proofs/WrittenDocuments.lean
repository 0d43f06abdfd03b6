import BlockBot.Proofs.DirectReading
import BlockBot.Proofs.Trees
import BlockBot.Proofs.WrittenValues

/-!
# Written documents are read back

The compact text of blocks or of a graph is read as exactly these blocks or this graph, in both ways
of reading, so compiling the text is compiling them. Data is a table, whose keys ascend. Besides
what a value must not have, one thing is lost in writing and excluded: a kind that is called unknown
but has a known name. Writing leaves out an id that is missing and a body that is empty; reading
puts both back.
-/

namespace BlockBot

open BlockBot.Json

/-- A kind and data that writing keeps. -/
structure Faithful (kind : Kind) (data : Fields) : Prop where
  /-- A known name is not kept as an unknown one. -/
  named : ∀ name, kind = .unknown name → Kind.known? name = none
  /-- There is no binary number in the data. -/
  whole : (Value.object data).Throughout Value.NotReal
  /-- The data is a table, and so is every object in it. -/
  ascending : (Value.object data).Throughout Value.KeysAscend

namespace Faithful

variable {kind : Kind} {data : Fields} (h : Faithful kind data)
include h

theorem ofName_name : Kind.ofName kind.name = kind := by
  cases kind with
  | unknown name => simp [Kind.ofName, Kind.name, h.named name rfl]
  | _ => rfl

theorem ofValue?_name : Kind.ofValue? (.string kind.name) = some kind := by
  rw [Kind.ofValue?, h.ofName_name]

theorem fields?_object : fields? (.object data) = some data := by
  have hsame := Value.canonical_of_keysAscend h.ascending
  rw [Value.canonical, Value.object.injEq] at hsame
  rw [fields?, hsame]

end Faithful

/-! ## Blocks -/

namespace Block

/-- The fields of a block are found among the members that are written for it. -/
theorem ofValue?_toValue (id : Option String) {kind : Kind} {data : Fields} {children : List Block}
    (h : Faithful kind data) (hchildren : ofItems? (toValues children) = some children) :
    ofValue? (toValue ⟨id, kind, data, children⟩) = some ⟨id, kind, data, children⟩ := by
  have hkind := h.ofValue?_name
  have hdata := h.fields?_object
  rw [toValue, ofValue?]
  cases id with
  | none =>
      cases children with
      | nil =>
          simp [draftOfMembers?, Draft.addMember, BlockField.ofKey?, Draft.setOnce, hkind,
            hdata, ofDraft, Except.toOption]
      | cons b bs =>
          simp [draftOfMembers?, Draft.addMember, BlockField.ofKey?, Draft.setOnce, hkind,
            hdata, ofDraft, Except.toOption, bodyOfValue?, hchildren]
  | some id =>
      cases children with
      | nil =>
          simp [draftOfMembers?, Draft.addMember, BlockField.ofKey?, Draft.setOnce,
            optionalText?, hkind, hdata, ofDraft, Except.toOption]
      | cons b bs =>
          simp [draftOfMembers?, Draft.addMember, BlockField.ofKey?, Draft.setOnce,
            optionalText?, hkind, hdata, ofDraft, Except.toOption, bodyOfValue?, hchildren]

theorem ofItems?_toValues {bs : List Block} (h : ∀ b ∈ preorderAll bs, Faithful b.kind b.data) :
    ofItems? (toValues bs) = some bs := by
  induction bs using forest_induction with
  | nil => rfl
  | cons id kind data children bs ihChildren ih =>
      have hself : Faithful kind data :=
        h ⟨id, kind, data, children⟩ (by simp [preorderAll, preorder])
      have hchildren := ihChildren fun b hb => h b (by simp [preorderAll, preorder, hb])
      have hrest := ih fun b hb => h b (by simp [preorderAll, hb])
      rw [toValues, ofItems?, ofValue?_toValue id hself hchildren, hrest]
      rfl

/-- What is written for blocks has no binary number but those of their data. -/
theorem notReal_toValues {bs : List Block} (h : ∀ b ∈ preorderAll bs, Faithful b.kind b.data) :
    ∀ v ∈ toValues bs, v.Throughout Value.NotReal := by
  induction bs using forest_induction with
  | nil => simp [toValues]
  | cons id kind data children bs ihChildren ih =>
      have hself : Faithful kind data :=
        h ⟨id, kind, data, children⟩ (by simp [preorderAll, preorder])
      have hchildren := ihChildren fun b hb => h b (by simp [preorderAll, preorder, hb])
      have hrest := ih fun b hb => h b (by simp [preorderAll, hb])
      have hid : ∀ m ∈ (id.map fun id => ("id", Value.string id)).toList,
          m.2.Throughout Value.NotReal := by
        cases id <;> simp [Value.NotReal]
      have hfields : ∀ m ∈ [("kind", Value.string kind.name), ("data", .object data)],
          m.2.Throughout Value.NotReal :=
        List.forall_mem_cons.mpr ⟨trivial, List.forall_mem_singleton.mpr hself.whole⟩
      have hbody : ∀ m ∈ if children.isEmpty then []
          else [("children", Value.array (toValues children))],
          m.2.Throughout Value.NotReal := by
        split
        · simp
        · exact List.forall_mem_singleton.mpr (Value.throughout_array.mpr ⟨trivial, hchildren⟩)
      rw [toValues, List.forall_mem_cons, toValue, Value.throughout_object]
      exact ⟨⟨trivial, List.forall_mem_append.mpr ⟨List.forall_mem_append.mpr ⟨hid, hfields⟩,
        hbody⟩⟩, hrest⟩

end Block

/-! ## Graphs -/

theorem texts?_textsValue (texts : List String) : texts? (textsValue texts) = some texts := by
  rw [textsValue, texts?]
  induction texts with
  | nil => rfl
  | cons t ts ih => simp [requiredText?, ih]

theorem Node.ofValue?_toValue {n : Node} (h : Faithful n.kind n.data) :
    Node.ofValue? n.toValue = some n := by
  simp [Node.toValue, Node.ofValue?, Node.draftOfMembers?, Draft.addMember, BlockField.ofKey?,
    Draft.setOnce, requiredText?, h.ofValue?_name, h.fields?_object, texts?_textsValue,
    Node.ofDraft, Except.toOption]

theorem Node.listOfValue?_toValue {ns : List Node} (h : ∀ n ∈ ns, Faithful n.kind n.data) :
    Node.listOfValue? (.array (ns.map Node.toValue)) = some ns := by
  rw [Node.listOfValue?]
  induction ns with
  | nil => rfl
  | cons n ns ih =>
      have hrest := ih fun m hm => h m (List.mem_cons_of_mem _ hm)
      simp [Node.ofValue?_toValue (h n List.mem_cons_self), hrest]

theorem Graph.ofValue?_toValue {g : Graph} (h : ∀ n ∈ g.nodes, Faithful n.kind n.data) :
    Graph.ofValue? g.toValue = some g := by
  simp [Graph.toValue, Graph.ofValue?, Graph.draftOfMembers?, Graph.Draft.addMember,
    texts?_textsValue, Node.listOfValue?_toValue h, Graph.ofDraft, Except.toOption]

theorem notReal_textsValue (texts : List String) : (textsValue texts).Throughout Value.NotReal := by
  simp [textsValue, Value.NotReal]

/-- What is written for a node has no binary number but those of its data. -/
theorem notReal_node {n : Node} (h : Faithful n.kind n.data) :
    n.toValue.Throughout Value.NotReal := by
  rw [Node.toValue, Value.throughout_object]
  refine ⟨trivial, ?_⟩
  simp only [List.forall_mem_cons]
  exact ⟨trivial, trivial, h.whole, notReal_textsValue n.children, by simp⟩

/-! ## Documents -/

/-- The text of a value that describes a document is read as that document. -/
theorem Document.read_compact {v : Value} {d : Document} (hwhole : v.Throughout Value.NotReal)
    (hnesting : v.nesting ≤ maxNesting) (hdecode : Document.ofValue? v = some d) :
    Document.read v.compact = .ok d :=
  Document.read_eq_ok.mpr ⟨v, [], readValue_compact hwhole hnesting, hdecode, rfl⟩

theorem Block.read_listText {bs : List Block}
    (h : ∀ b ∈ Block.preorderAll bs, Faithful b.kind b.data)
    (hnesting : (Value.array (Block.toValues bs)).nesting ≤ maxNesting) :
    Document.read (Block.listText bs) = .ok (.tree bs) := by
  have hwhole := Value.throughout_array.mpr ⟨trivial, Block.notReal_toValues h⟩
  refine Document.read_compact hwhole hnesting ?_
  rw [Document.ofValue?, Block.listOfValue?, Block.ofItems?_toValues h]

theorem Graph.read_text {g : Graph} (h : ∀ n ∈ g.nodes, Faithful n.kind n.data)
    (hnesting : g.toValue.nesting ≤ maxNesting) : Document.read g.text = .ok (.graph g) := by
  have hwhole : g.toValue.Throughout Value.NotReal := by
    have hnodes : ∀ v ∈ g.nodes.map Node.toValue, v.Throughout Value.NotReal :=
      List.forall_mem_map.mpr fun n hn => notReal_node (h n hn)
    rw [Graph.toValue, Value.throughout_object]
    refine ⟨trivial, ?_⟩
    simp only [List.forall_mem_cons]
    exact ⟨notReal_textsValue g.roots, Value.throughout_array.mpr ⟨trivial, hnodes⟩, by simp⟩
  refine Document.read_compact hwhole hnesting ?_
  rw [Document.ofValue?, Graph.ofValue?_toValue h]
  rfl

/-- The text that is written for blocks or for a graph is read back as these, in both ways of
reading, and compiling it is compiling them. -/
theorem compileText_written :
    (∀ bs : List Block, (∀ b ∈ Block.preorderAll bs, Faithful b.kind b.data) →
      (Value.array (Block.toValues bs)).nesting ≤ maxNesting →
        Document.read (Block.listText bs) = .ok (.tree bs) ∧
          Block.readList (Block.listText bs) = .ok bs ∧
          ∀ options, compileText options (Block.listText bs) = compile options bs) ∧
    ∀ g : Graph, (∀ n ∈ g.nodes, Faithful n.kind n.data) → g.toValue.nesting ≤ maxNesting →
      Document.read g.text = .ok (.graph g) ∧ Graph.read g.text = .ok g ∧
        ∀ options, compileText options g.text = compileGraph options g := by
  constructor
  · intro bs hfaithful hnesting
    have hread := Block.read_listText hfaithful hnesting
    exact ⟨hread, Block.readList_of_read hread, compileText_of_read hread⟩
  · intro g hfaithful hnesting
    have hread := Graph.read_text hfaithful hnesting
    exact ⟨hread, Graph.read_of_read hread, compileText_of_read hread⟩

/-- Blocks with an id to escape, an unknown kind, nested data and a body. -/
def writtenBlocks : List Block :=
  [⟨some "a\"\n", .event,
    [("eventType", .string "message.text"), ("pattern", .string "\x01é😀")], []⟩,
   ⟨none, .unknown "note",
    [("n", .number (.whole ⟨-5, by decide, by decide⟩)),
     ("x", .array [.null, .object [("k", .bool true), ("l", .bool false)]])],
    [⟨none, .reply, [], []⟩]⟩]

/-- A graph in which a child is named twice. -/
def writtenGraph : Graph :=
  ⟨["a"], [⟨"a", .control, [("controlType", .string "loop")], ["b", "b"]⟩,
    ⟨"b", .unknown "note", [], []⟩]⟩

theorem faithful_writtenBlocks : ∀ b ∈ Block.preorderAll writtenBlocks, Faithful b.kind b.data := by
  simp only [writtenBlocks, Block.preorderAll, Block.preorder, List.cons_append, List.nil_append,
    List.forall_mem_cons]
  refine ⟨⟨by simp, by decide, by decide⟩, ⟨?_, by decide, by decide⟩,
    ⟨by simp, by decide, by decide⟩, by simp⟩
  rintro name ⟨⟩
  decide

theorem faithful_writtenGraph : ∀ n ∈ writtenGraph.nodes, Faithful n.kind n.data := by
  simp only [writtenGraph, List.forall_mem_cons]
  refine ⟨⟨by simp, by decide, by decide⟩, ⟨?_, by decide, by decide⟩, by simp⟩
  rintro name ⟨⟩
  decide

theorem compileText_written_nested :
    (Document.read (Block.listText writtenBlocks) = .ok (.tree writtenBlocks) ∧
      ∀ options, compileText options (Block.listText writtenBlocks) =
        compile options writtenBlocks) ∧
    Document.read writtenGraph.text = .ok (.graph writtenGraph) ∧
      ∀ options, compileText options writtenGraph.text = compileGraph options writtenGraph := by
  obtain ⟨htree, -, hcompile⟩ :=
    compileText_written.1 writtenBlocks faithful_writtenBlocks (by decide)
  obtain ⟨hgraph, -, hcompile'⟩ :=
    compileText_written.2 writtenGraph faithful_writtenGraph (by decide)
  exact ⟨⟨htree, hcompile⟩, hgraph, hcompile'⟩

end BlockBot
