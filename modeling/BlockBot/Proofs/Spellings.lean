import BlockBot.Proofs.RecordChanges
import Mathlib.Logic.Relation

/-!
# Spellings of a document

A document can be written in many ways that mean the same: the members of an object stand in any
order, members without a meaning come and go, the kind of a block may be called its type, and an
optional field may be `null` instead of missing. A rewriting does one such change somewhere in a
value, and which changes are open to a part of the document depends on what it is read as. No number
of rewritings, in either direction, changes what a text compiles to.
-/

namespace BlockBot

open BlockBot.Json

/-! ## Rewritings -/

/-- What a part of a document is read as. -/
inductive Role where
  | blocks
  | block
  | graph
  | nodes
  | node
  | plain

namespace Role

/-- The role of the value under a key. -/
def member : Role → String → Role
  | .block, key => if key = "children" then .blocks else .plain
  | .graph, key => if key = "blocks" then .nodes else .plain
  | _, _ => .plain

/-- The role of an item of a list. A record may be written as the list of its fields. -/
def item : Role → Nat → Role
  | .blocks, _ => .block
  | .nodes, _ => .node
  | .block, n => if n = 3 then .blocks else .plain
  | .graph, n => if n = 1 then .nodes else .plain
  | _, _ => .plain

/-- The keys that have a meaning, if not all have. -/
def keys? : Role → Option (List String)
  | .block | .node => some ["id", "kind", "type", "data", "children"]
  | .graph => some ["roots", "blocks"]
  | _ => none

/-- The keys whose values may be `null`, which is as if they were missing. -/
def optionalKeys : Role → List String
  | .block => ["id", "data", "children"]
  | .node => ["data", "children"]
  | .graph => ["roots"]
  | _ => []

end Role

/-- The second value is the first with one change to its spelling, somewhere in it. -/
inductive Respells : Role → Value → Value → Prop
  -- The members of any object, in another order.
  | order {role : Role} {ms ms' : List (String × Value)} (hperm : ms.Perm ms')
      (hnodup : (ms.map Prod.fst).Nodup) : Respells role (.object ms) (.object ms')
  -- A member more, with a name that has no meaning.
  | extra {role : Role} {keys : List String} {before after : List (String × Value)}
      {key : String} {v : Value} (hkeys : role.keys? = some keys) (hkey : key ∉ keys) :
      Respells role (.object (before ++ after)) (.object (before ++ (key, v) :: after))
  -- The other name of the kind.
  | renamed {role : Role} {before after : List (String × Value)} {v : Value}
      (hrole : role = .block ∨ role = .node) :
      Respells role (.object (before ++ ("kind", v) :: after))
        (.object (before ++ ("type", v) :: after))
  -- An optional field that is `null` and was missing, in an object and at the end of a row.
  | null {role : Role} {before after : List (String × Value)} {key : String}
      (hkey : key ∈ role.optionalKeys) (habsent : key ∉ (before ++ after).map Prod.fst) :
      Respells role (.object (before ++ after)) (.object (before ++ (key, .null) :: after))
  | rowNull {role : Role} {items : List Value} (hrole : role = .block ∨ role = .node)
      (hlength : items.length = 2 ∨ items.length = 3) :
      Respells role (.array items) (.array (items ++ [.null]))
  -- A change inside.
  | member {role : Role} {before after : List (String × Value)} {key : String} {v w : Value}
      (h : Respells (role.member key) v w) :
      Respells role (.object (before ++ (key, v) :: after)) (.object (before ++ (key, w) :: after))
  | item {role : Role} {before after : List Value} {v w : Value}
      (h : Respells (role.item before.length) v w) :
      Respells role (.array (before ++ v :: after)) (.array (before ++ w :: after))

/-- Only lists and objects have more than one spelling. -/
theorem Respells.structured {role : Role} {v w : Value} (h : Respells role v w) :
    v.isStructured = true ∧ w.isStructured = true := by
  cases h <;> exact ⟨rfl, rfl⟩

/-! ## What a rewriting leaves alone -/

/-- Two values are read as the same in a role. -/
def Role.Same : Role → Value → Value → Prop
  | .blocks, v, w => Block.listOfValue? v = Block.listOfValue? w
  | .block, v, w => Block.ofValue? v = Block.ofValue? w
  | .graph, v, w => Graph.ofValue? v = Graph.ofValue? w
  | .nodes, v, w => Node.listOfValue? v = Node.listOfValue? w
  | .node, v, w => Node.ofValue? v = Node.ofValue? w
  | .plain, v, w => v.Alike w

/-- A body that is not `null` is a list of blocks. -/
theorem Block.bodyOfValue?_of_structured {v : Value} (h : v.isStructured = true) :
    Block.bodyOfValue? v = Block.listOfValue? v := by
  cases v with
  | array items => rw [Block.bodyOfValue?, Block.listOfValue?]
  | object members => rw [Block.bodyOfValue?, Block.listOfValue?] <;> simp
  | _ => cases h

theorem mapM_replace {α : Type} {decode : Value → Option α} {v w : Value} (h : decode v = decode w)
    (before after : List Value) :
    (before ++ v :: after).mapM decode = (before ++ w :: after).mapM decode := by
  simp only [List.mapM_append, List.mapM_cons, h]

namespace Role.Same

variable {role : Role} {key : String} {v w : Value}

theorem order {ms ms' : List (String × Value)} (hperm : ms.Perm ms')
    (hnodup : (ms.map Prod.fst).Nodup) : role.Same (.object ms) (.object ms') := by
  cases role with
  | blocks => rfl
  | nodes => rfl
  | plain => exact alike_order hperm hnodup
  | block =>
      rw [Same, Block.ofValue?_object, Block.ofValue?_object]
      exact Draft.decodeObject?_order (readsField_optional optionalText? none) hperm
  | node =>
      rw [Same, Node.ofValue?_object, Node.ofValue?_object]
      exact Draft.decodeObject?_order (readsField_required requiredText?) hperm
  | graph =>
      rw [Same, Graph.ofValue?_object, Graph.ofValue?_object]
      exact Graph.decodeObject?_order hperm

theorem extra {keys : List String} {before after : List (String × Value)}
    (hkeys : role.keys? = some keys) (hkey : key ∉ keys) :
    role.Same (.object (before ++ after)) (.object (before ++ (key, v) :: after)) := by
  cases role with
  | block =>
      cases hkeys
      rw [Same, Block.ofValue?_object, Block.ofValue?_object, Draft.decodeObject?_extra hkey]
  | node =>
      cases hkeys
      rw [Same, Node.ofValue?_object, Node.ofValue?_object, Draft.decodeObject?_extra hkey]
  | graph =>
      cases hkeys
      rw [Same, Graph.ofValue?_object, Graph.ofValue?_object, Graph.decodeObject?_extra hkey]
  | _ => cases hkeys

theorem renamed {before after : List (String × Value)} (hrole : role = .block ∨ role = .node) :
    role.Same (.object (before ++ ("kind", v) :: after))
      (.object (before ++ ("type", v) :: after)) := by
  rcases hrole with rfl | rfl
  · rw [Same, Block.ofValue?_object, Block.ofValue?_object, Draft.decodeObject?_renamed]
  · rw [Same, Node.ofValue?_object, Node.ofValue?_object, Draft.decodeObject?_renamed]

theorem null {before after : List (String × Value)} (hkey : key ∈ role.optionalKeys)
    (habsent : key ∉ (before ++ after).map Prod.fst) :
    role.Same (.object (before ++ after)) (.object (before ++ (key, .null) :: after)) := by
  cases role with
  | block =>
      rw [Same, Block.ofValue?_object, Block.ofValue?_object]
      rcases List.mem_cons.mp hkey with rfl | hkey
      · rw [Draft.decodeObject?_nullId (show optionalText? .null = some none from rfl) habsent]
      · rw [Draft.decodeObject?_null (by rw [Block.bodyOfValue?]) (by simpa using hkey) habsent]
  | node =>
      rw [Same, Node.ofValue?_object, Node.ofValue?_object]
      rw [Draft.decodeObject?_null rfl (by simpa [optionalKeys] using hkey) habsent]
  | graph =>
      rw [Same, Graph.ofValue?_object, Graph.ofValue?_object]
      cases List.mem_singleton.mp hkey
      rw [Graph.decodeObject?_null habsent]
  | _ => cases hkey

theorem rowNull {items : List Value} (hrole : role = .block ∨ role = .node)
    (hlength : items.length = 2 ∨ items.length = 3) :
    role.Same (.array items) (.array (items ++ [.null])) := by
  rcases hrole with rfl | rfl
  · rw [Same, Block.ofValue?_array, Block.ofValue?_array,
      Draft.decodeRow?_null (by rw [Block.bodyOfValue?]) hlength]
  · rw [Same, Node.ofValue?_array, Node.ofValue?_array, Draft.decodeRow?_null rfl hlength]

theorem member {before after : List (String × Value)} (hv : v.isStructured = true)
    (hw : w.isStructured = true) (h : (role.member key).Same v w) :
    role.Same (.object (before ++ (key, v) :: after)) (.object (before ++ (key, w) :: after)) := by
  cases role with
  | blocks => rfl
  | nodes => rfl
  | plain => exact alike_member h hv hw key before after
  | block =>
      rw [Same, Block.ofValue?_object, Block.ofValue?_object]
      refine Draft.decodeObject?_member (readsField_optional optionalText? none)
        Value.Alike.optionalText ?_ ?_
      · intro hkey
        rwa [Role.member, if_neg hkey] at h
      · intro hkey
        rw [Role.member, if_pos hkey] at h
        -- A body may also be `null`, but no rewriting leads from there or to there.
        rw [Block.bodyOfValue?_of_structured hv, Block.bodyOfValue?_of_structured hw]
        exact h
  | node =>
      have halike : v.Alike w := h
      rw [Same, Node.ofValue?_object, Node.ofValue?_object]
      exact Draft.decodeObject?_member (readsField_required requiredText?) Value.Alike.requiredText
        (fun _ => halike) (fun _ => halike.texts)
  | graph =>
      rw [Same, Graph.ofValue?_object, Graph.ofValue?_object]
      refine Graph.decodeObject?_member ?_ ?_
      · intro hkey
        rwa [Role.member, if_neg hkey] at h
      · intro hkey
        rwa [Role.member, if_pos hkey] at h

theorem item {before after : List Value} (hv : v.isStructured = true) (hw : w.isStructured = true)
    (h : (role.item before.length).Same v w) :
    role.Same (.array (before ++ v :: after)) (.array (before ++ w :: after)) := by
  cases role with
  | blocks =>
      rw [Same, Block.listOfValue?, Block.listOfValue?, Block.ofItems?_eq_mapM,
        Block.ofItems?_eq_mapM]
      exact mapM_replace h before after
  | nodes => exact mapM_replace h before after
  | plain => exact alike_item h before after
  | block =>
      rw [Same, Block.ofValue?_array, Block.ofValue?_array]
      refine Draft.decodeRow?_item Value.Alike.optionalText ?_ ?_
      · intro hlength
        rwa [Role.item, if_neg hlength] at h
      · intro hlength
        rw [Role.item, if_pos hlength] at h
        rw [Block.bodyOfValue?_of_structured hv, Block.bodyOfValue?_of_structured hw]
        exact h
  | node =>
      have halike : v.Alike w := h
      rw [Same, Node.ofValue?_array, Node.ofValue?_array]
      exact Draft.decodeRow?_item Value.Alike.requiredText (fun _ => halike) (fun _ => halike.texts)
  | graph =>
      refine Graph.ofValue?_item ?_ ?_
      · intro hlength
        rwa [Role.item, if_neg hlength] at h
      · intro hlength
        rwa [Role.item, if_pos hlength] at h

end Role.Same

/-- A rewriting leaves alone what the value is read as. -/
theorem Respells.same {role : Role} {v w : Value} (h : Respells role v w) : role.Same v w := by
  induction h with
  | order hperm hnodup => exact .order hperm hnodup
  | extra hkeys hkey => exact .extra hkeys hkey
  | renamed hrole => exact .renamed hrole
  | null hkey habsent => exact .null hkey habsent
  | rowNull hrole hlength => exact .rowNull hrole hlength
  | member h ih => exact .member h.structured.1 h.structured.2 ih
  | item h ih => exact .item h.structured.1 h.structured.2 ih

/-! ## Documents

A list of two items can be nested blocks or a graph. It is rewritten as the one only where its shape
rules out the other, for a part of it can be a block in the one reading and a kind in the other. -/

namespace Json.Value

/-- Whether a value has the shape of a block. -/
def seemsBlock : Value → Bool
  | .object _ => true
  | .array (.null :: _) => true
  | .array (.string _ :: _) => true
  | _ => false

/-- Whether a value has the shape of nested blocks. -/
def seemsBlocks : Value → Bool
  | .array items => items.all seemsBlock
  | _ => false

/-- Whether a value has the shape of the nodes of a graph. -/
def seemsNodes : Value → Bool
  | .array items => items.all isStructured
  | _ => false

/-- Whether a value has the shape of a graph. -/
def seemsGraph : Value → Bool
  | .object _ => true
  | .array [roots, nodes] => (texts? roots).isSome && nodes.seemsNodes
  | _ => false

end Json.Value

theorem mapM_eq_none_of_mem {α : Type} {decode : Value → Option α} {items : List Value} {v : Value}
    (hmem : v ∈ items) (h : decode v = none) : items.mapM decode = none := by
  obtain ⟨before, after, rfl⟩ := List.append_of_mem hmem
  simp [List.mapM_append, List.mapM_cons, h]

theorem Draft.decodeRow?_head {α β ι : Type} {id? : Value → Option ι}
    {children? : Value → Option (List β)} {make : ι → Kind → Fields → List β → α} {v : Value}
    (h : id? v = none) (items : List Value) :
    decodeRow? id? children? make (v :: items) = none := by
  rcases items with _ | ⟨kind, _ | ⟨data, _ | ⟨children, _ | ⟨_, _⟩⟩⟩⟩ <;> simp [decodeRow?, h]

theorem Block.ofValue?_of_shape {v : Value} (h : v.seemsBlock = false) :
    Block.ofValue? v = none := by
  cases v with
  | object members => cases h
  | array items =>
      rw [Block.ofValue?_array]
      rcases items with _ | ⟨id, items⟩
      · rfl
      · cases id with
        | null => cases h
        | string s => cases h
        | _ => exact Draft.decodeRow?_head rfl items
  | _ => simp only [Block.ofValue?]

theorem Block.listOfValue?_of_shape {v : Value} (h : v.seemsBlocks = false) :
    Block.listOfValue? v = none := by
  cases v with
  | array items =>
      obtain ⟨b, hb, hshape⟩ := List.all_eq_false.mp h
      rw [Block.listOfValue?, Block.ofItems?_eq_mapM]
      exact mapM_eq_none_of_mem hb (Block.ofValue?_of_shape (Bool.not_eq_true _ ▸ hshape))
  | _ => rfl

theorem Node.listOfValue?_of_shape {v : Value} (h : v.seemsNodes = false) :
    Node.listOfValue? v = none := by
  cases v with
  | array items =>
      obtain ⟨n, hn, hshape⟩ := List.all_eq_false.mp h
      have hnone : Node.ofValue? n = none := by
        cases n with
        | array items => exact absurd rfl hshape
        | object members => exact absurd rfl hshape
        | _ => rfl
      exact mapM_eq_none_of_mem hn hnone
  | _ => rfl

theorem Graph.ofValue?_of_shape {v : Value} (h : v.seemsGraph = false) :
    Graph.ofValue? v = none := by
  cases v with
  | object members => cases h
  | array items =>
      rcases items with _ | ⟨roots, _ | ⟨nodes, _ | ⟨_, _⟩⟩⟩
      · rfl
      · rfl
      · rcases Bool.and_eq_false_iff.mp h with hroots | hnodes
        · simp [Graph.ofValue?, Option.not_isSome_iff_eq_none.mp (Bool.not_eq_true _ ▸ hroots)]
        · simp [Graph.ofValue?, Node.listOfValue?_of_shape hnodes]
      · rfl
  | _ => rfl

namespace Respells

variable {role : Role} {v w : Value}

theorem seemsBlock_eq (h : Respells role v w) : w.seemsBlock = v.seemsBlock := by
  have hfirst : ∀ {u : Value}, u.isStructured = true →
      ∀ us, Value.seemsBlock (.array (u :: us)) = false := by
    intro u hu us
    cases u with
    | array items => rfl
    | object members => rfl
    | _ => cases hu
  cases h with
  | @rowNull _ items hrole hlength =>
      rcases items with _ | ⟨b, bs⟩
      · simp at hlength
      · cases b <;> rfl
  | @item _ before after v w h =>
      rcases before with _ | ⟨b, bs⟩
      · rw [List.nil_append, List.nil_append, hfirst h.structured.1, hfirst h.structured.2]
      · cases b <;> rfl
  | _ => rfl

theorem texts?_right (h : Respells role v w) : texts? w = none := by
  cases h with
  | rowNull hrole hlength => exact mapM_eq_none_of_mem List.mem_concat_self rfl
  | @item _ before after v w h =>
      have hnone : requiredText? w = none := by
        have hw := h.structured.2
        cases w with
        | string s => cases hw
        | _ => rfl
      exact mapM_eq_none_of_mem List.mem_append_cons_self hnone
  | _ => rfl

theorem seemsNodes_right (h : Respells role v w) (hshape : v.seemsNodes = false) :
    w.seemsNodes = false := by
  cases h with
  | rowNull hrole hlength => simp [Value.seemsNodes, Value.isStructured]
  | item h =>
      simp only [Value.seemsNodes, List.all_append, List.all_cons, h.structured] at hshape ⊢
      exact hshape
  | _ => rfl

/-- A list that cannot be a graph stays so when its blocks are rewritten. -/
theorem seemsGraph_right (h : Respells .blocks v w) (hshape : v.seemsGraph = false) :
    w.seemsGraph = false := by
  cases h with
  | order => cases hshape
  | extra => cases hshape
  | renamed => cases hshape
  | null => cases hshape
  | member => cases hshape
  | rowNull hrole => simp at hrole
  | @item _ before after v w h =>
      rcases before with _ | ⟨b₀, _ | ⟨b₁, bs⟩⟩
      · rcases after with _ | ⟨a₁, _ | ⟨a₂, as⟩⟩
        · rfl
        · simp [Value.seemsGraph, h.texts?_right]
        · rfl
      · rcases after with _ | ⟨a₁, as⟩
        · simp only [List.cons_append, List.nil_append, Value.seemsGraph,
            Bool.and_eq_false_iff] at hshape ⊢
          exact hshape.imp_right h.seemsNodes_right
        · rfl
      · rcases bs with _ | ⟨b, bs⟩ <;> rfl

/-- A value that cannot be nested blocks stays so when it is rewritten as a graph. -/
theorem seemsBlocks_right (h : Respells .graph v w) (hshape : v.seemsBlocks = false) :
    w.seemsBlocks = false := by
  cases h with
  | rowNull hrole => simp at hrole
  | item h =>
      simp only [Value.seemsBlocks, List.all_append, List.all_cons, h.seemsBlock_eq] at hshape ⊢
      exact hshape
  | _ => rfl

end Respells

/-- No value has both shapes, so every document can be rewritten as what it may be. -/
theorem seemsGraph_eq_false_or (v : Value) : v.seemsGraph = false ∨ v.seemsBlocks = false := by
  cases v with
  | object members => exact .inr rfl
  | array items =>
      rcases items with _ | ⟨roots, _ | ⟨nodes, _ | ⟨item, items⟩⟩⟩
      · exact .inl rfl
      · exact .inl rfl
      · cases nodes with
        | array ns =>
            rcases ns with _ | ⟨n, ns⟩
            · exact .inr (by simp [Value.seemsBlocks, Value.seemsBlock])
            · cases n <;> simp [Value.seemsBlocks, Value.seemsBlock, Value.seemsGraph,
                Value.seemsNodes, Value.isStructured]
        | _ => exact .inl (by simp [Value.seemsGraph, Value.seemsNodes])
      · exact .inl rfl
  | _ => exact .inl rfl

/-- One change to the spelling of a document. -/
inductive Respelling : Value → Value → Prop
  | tree {v w : Value} (hshape : v.seemsGraph = false) (h : Respells .blocks v w) : Respelling v w
  | graph {v w : Value} (hshape : v.seemsBlocks = false) (h : Respells .graph v w) : Respelling v w

theorem Respelling.ofValue?_eq {v w : Value} (h : Respelling v w) :
    Document.ofValue? v = Document.ofValue? w := by
  cases h with
  | tree hshape h =>
      have hlist : Block.listOfValue? v = Block.listOfValue? w := h.same
      rw [Document.ofValue?, Document.ofValue?, hlist, Graph.ofValue?_of_shape hshape,
        Graph.ofValue?_of_shape (h.seemsGraph_right hshape)]
  | graph hshape h =>
      have hgraph : Graph.ofValue? v = Graph.ofValue? w := h.same
      rw [Document.ofValue?, Document.ofValue?, hgraph, Block.listOfValue?_of_shape hshape,
        Block.listOfValue?_of_shape (h.seemsBlocks_right hshape)]

/-- The two values are spellings of one document: any number of changes, made or undone, leads from
one to the other. -/
def Respelled : Value → Value → Prop :=
  Relation.EqvGen Respelling

theorem Respelled.ofValue?_eq {v w : Value} (h : Respelled v w) :
    Document.ofValue? v = Document.ofValue? w := by
  induction h with
  | rel v w hstep => exact hstep.ofValue?_eq
  | refl v => rfl
  | symm v w _ ih => exact ih.symm
  | trans v u w _ _ ih ih' => exact ih.trans ih'

-- Read as nested blocks, the kind of the last node would stand in a body, as a block with members
-- that have no meaning.
example :
    let node : Value := .array [.string "a", .string "reply"]
    let document (kind : List (String × Value)) : Value :=
      .array [.array [], .array [node, node, node, .array [.string "d", .object kind]]]
    (Document.ofValue? (document [("event", .null)])).isSome = true ∧
      (Document.ofValue? (document [("event", .null), ("x", .null)])).isSome = false :=
  ⟨rfl, rfl⟩

/-! ## Texts -/

/-- A text spells a value if all of it is read as this value. -/
def Spells (text : String) (v : Value) : Prop :=
  readAll (fun size => readValue size maxNesting) text = .ok v

theorem spells_iff {text : String} {v : Value} : Spells text v ↔
    ∃ rest, readValue (sizeOfText text.toList) maxNesting text.toList = .ok (v, rest) ∧
      expectEnd rest = .ok () := by
  unfold Spells readAll
  rcases hread : readValue (sizeOfText text.toList) maxNesting text.toList with e | ⟨u, rest⟩
  · simp [hread, Except.mapError, bind, Except.bind]
  · rcases hend : expectEnd rest with e | _
    · simp [hread, hend, Except.mapError, bind, Except.bind]
    · simp [hread, hend, Except.mapError, bind, Except.bind, pure, Except.pure]

theorem spells_ofList {cs : List Char} {v : Value}
    (h : readValue (cs.length + 1) maxNesting cs = .ok (v, [])) : Spells (String.ofList cs) v := by
  refine spells_iff.mpr ⟨[], ?_, rfl⟩
  rw [String.toList_ofList]
  exact h

/-- What a text is read as depends on the value that it spells. -/
theorem Spells.read_eq {text : String} {v : Value} (h : Spells text v) :
    Document.read text =
      (Document.ofValue? v).elim (.error ⟨.noAlternative "BlockDocument", none⟩) .ok := by
  obtain ⟨rest, hread, hend⟩ := spells_iff.mp h
  unfold Document.read
  cases hdecode : Document.ofValue? v with
  | none => simp [hread, hdecode]
  | some d => simp [hread, hdecode, hend]

/-- Two texts that spell one document compile to the same, be it a program or an error. -/
theorem compileText_respelled {text text' : String} {v w : Value} (htext : Spells text v)
    (htext' : Spells text' w) (h : Respelled v w) (options : Options) :
    compileText options text = compileText options text' := by
  have hread : Document.read text = Document.read text' := by
    rw [htext.read_eq, htext'.read_eq, h.ofValue?_eq]
  rw [compileText, compileText, compileTextNoting, compileTextNoting, hread]

/-- A tree and the same tree with the members moved, also in the data, an alias, an id that is
`null` and a member without a meaning. -/
def plainTree : String :=
  "[\x7b\"kind\":\"reply\",\"data\":\x7b\"b\":true,\"a\":null\x7d\x7d]"

def respelledTree : String :=
  "[\x7b\"note\":[],\"data\":\x7b\"a\":null,\"b\":true\x7d,\"id\":null,\"type\":\"reply\"\x7d]"

/-- A graph, and the same graph without the roots that are `null` and with a body that is. -/
def plainGraph : String :=
  "\x7b\"roots\":null,\"blocks\":[\x7b\"id\":\"a\",\"kind\":\"reply\"\x7d]\x7d"

def respelledGraph : String :=
  "\x7b\"blocks\":[\x7b\"id\":\"a\",\"kind\":\"reply\",\"children\":null\x7d]\x7d"

theorem compileText_respelled_both :
    (Document.read plainTree = .ok (.tree [⟨none, .reply, [("a", .null), ("b", .bool true)], []⟩]) ∧
      ∀ options, compileText options plainTree = compileText options respelledTree) ∧
    Document.read plainGraph = .ok (.graph ⟨[], [⟨"a", .reply, [], []⟩]⟩) ∧
      ∀ options, compileText options plainGraph = compileText options respelledGraph := by
  constructor
  · have hplain : Spells plainTree
        (.array [.object [("kind", .string "reply"),
          ("data", .object [("b", .bool true), ("a", .null)])]]) :=
      spells_ofList rfl
    have hother : Spells respelledTree
        (.array [.object [("note", .array []), ("data", .object [("a", .null), ("b", .bool true)]),
          ("id", .null), ("type", .string "reply")]]) :=
      spells_ofList rfl
    have hblock : ∀ {v w : Value}, Respells .block v w → Respelled (.array [v]) (.array [w]) :=
      fun h => .rel _ _ (.tree rfl (@Respells.item .blocks [] [] _ _ h))
    refine ⟨hplain.read_eq, compileText_respelled hplain hother ?_⟩
    refine .trans _ _ _
      (hblock (@Respells.member .block [_] [] "data" _ _ (.order (.swap ..) (by simp)))) ?_
    refine .trans _ _ _ (hblock (.order (List.Perm.swap ..) (by simp))) ?_
    refine .trans _ _ _ (hblock (@Respells.renamed .block [_] [] _ (.inl rfl))) ?_
    refine .trans _ _ _ (hblock (@Respells.null .block [_] [_] "id" (by decide) (by simp))) ?_
    exact hblock (@Respells.extra .block _ [] [_, _, _] "note" _ rfl (by decide))
  · have hplain : Spells plainGraph
        (.object [("roots", .null),
          ("blocks", .array [.object [("id", .string "a"), ("kind", .string "reply")]])]) :=
      spells_ofList rfl
    have hother : Spells respelledGraph (.object [("blocks",
        .array [.object [("id", .string "a"), ("kind", .string "reply"), ("children", .null)]])]) :=
      spells_ofList rfl
    refine ⟨hplain.read_eq, compileText_respelled hplain hother ?_⟩
    have hroots := @Respells.null .graph [] [("blocks",
      .array [.object [("id", .string "a"), ("kind", .string "reply")]])] "roots"
        (by decide) (by simp)
    refine .trans _ _ _ (.symm _ _ (.rel _ _ (.graph rfl hroots))) ?_
    refine .rel _ _ (.graph rfl (@Respells.member .graph [] [] "blocks" _ _ ?_))
    exact @Respells.item .nodes [] [] _ _
      (@Respells.null .node [_, _] [] "children" (by decide) (by simp))

end BlockBot
