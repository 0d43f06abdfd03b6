import BlockBot.Proofs.DirectReading

/-!
# The fields of an object

A block, a node or a graph is read from an object member by member, and what was met is kept in a
draft. Of all the members only the values under the names of each field matter: an optional field
may have one value, a required field must have one, and a second value spoils the record. So an
object is read as if each field was looked up by itself.
-/

namespace BlockBot

open BlockBot.Json

variable {α ι : Type}

/-- The values of the members whose keys name a field. -/
def valuesOf (p : String → Bool) (members : List (String × Value)) : List Value :=
  (members.filter fun m => p m.1).map Prod.snd

/-- A field that has one value. -/
def required? (decode : Value → Option α) : List Value → Option α
  | [v] => decode v
  | _ => none

/-- A field that has one value at most. -/
def optional? (decode : Value → Option α) (default : α) : List Value → Option α
  | [] => some default
  | [v] => decode v
  | _ => none

/-! ## Values under names -/

section

variable {p : String → Bool} {key : String} {v : Value}

theorem valuesOf_append (ms ms' : List (String × Value)) :
    valuesOf p (ms ++ ms') = valuesOf p ms ++ valuesOf p ms' := by
  simp [valuesOf]

theorem valuesOf_cons_of_pos (h : p key = true) (ms : List (String × Value)) :
    valuesOf p ((key, v) :: ms) = v :: valuesOf p ms := by
  simp [valuesOf, h]

theorem valuesOf_cons_of_neg (h : p key = false) (ms : List (String × Value)) :
    valuesOf p ((key, v) :: ms) = valuesOf p ms := by
  simp [valuesOf, h]

end

/-! ## Filling one field

While the members are met one after the other, a field holds what was found for it before. -/

/-- A field after more values, given what it holds. -/
def fill (decode : Value → Option α) : Option α → List Value → Option (Option α)
  | earlier, [] => some earlier
  | none, v :: vs => (decode v).bind fun a => fill decode (some a) vs
  | some _, _ :: _ => none

@[simp] theorem fill_nil (decode : Value → Option α) (earlier : Option α) :
    fill decode earlier [] = some earlier := by
  cases earlier <;> rfl

/-- A field that holds a value takes no other. -/
theorem fill_cons (decode : Value → Option α) (earlier : Option α) (v : Value) (vs : List Value) :
    fill decode earlier (v :: vs) =
      (if earlier.isNone then decode v else none).bind fun a => fill decode (some a) vs := by
  cases earlier <;> rfl

theorem fill_two (decode : Value → Option α) (v w : Value) (vs : List Value) :
    fill decode none (v :: w :: vs) = none := by
  rw [fill]
  cases decode v <;> rfl

theorem fill_one (decode : Value → Option α) (v : Value) :
    fill decode none [v] = (decode v).map some := by
  rw [fill]
  cases decode v <;> rfl

/-- A required field is one that ends up with a value. -/
theorem required?_eq_fill (decode : Value → Option α) (vs : List Value) :
    required? decode vs = (fill decode none vs).bind id := by
  rcases vs with _ | ⟨v, _ | ⟨w, vs⟩⟩
  · rfl
  · rw [fill_one]
    cases hv : decode v <;> simp [required?, hv]
  · rw [fill_two]
    rfl

/-- An optional field takes its default if it ends up without a value. -/
theorem optional?_eq_fill (decode : Value → Option α) (default : α) (vs : List Value) :
    optional? decode default vs = (fill decode none vs).map (·.getD default) := by
  rcases vs with _ | ⟨v, _ | ⟨w, vs⟩⟩
  · rfl
  · rw [fill_one]
    cases hv : decode v <;> simp [optional?, hv]
  · rw [fill_two]
    rfl

/-! ## Blocks and nodes -/

/-- Whether a key names the field. -/
def BlockField.isNamed (field : BlockField) (key : String) : Bool :=
  BlockField.ofKey? key == some field

namespace Draft

/-- What an object describes, each field by itself. -/
def decodeObject? {β : Type} (readId : List Value → Option ι) (children? : Value → Option (List β))
    (make : ι → Kind → Fields → List β → α) (members : List (String × Value)) : Option α := do
  let id ← readId (valuesOf BlockField.id.isNamed members)
  let kind ← required? Kind.ofValue? (valuesOf BlockField.kind.isNamed members)
  let data ← optional? fields? [] (valuesOf BlockField.data.isNamed members)
  let children ← optional? children? [] (valuesOf BlockField.children.isNamed members)
  return make id kind data children

variable {κ : Type}

/-- All fields filled from the same members. -/
def fillAll (id? : Value → Option ι) (children? : Value → Option κ) (d : Draft ι κ)
    (members : List (String × Value)) : Option (Draft ι κ) := do
  let id ← fill id? d.id (valuesOf BlockField.id.isNamed members)
  let kind ← fill Kind.ofValue? d.kind (valuesOf BlockField.kind.isNamed members)
  let data ← fill fields? d.data (valuesOf BlockField.data.isNamed members)
  let children ← fill children? d.children (valuesOf BlockField.children.isNamed members)
  return ⟨id, kind, data, children⟩

theorem setOnce_eq (earlier new : Option α) (put : α → Draft ι κ) :
    setOnce earlier new put = (if earlier.isNone then new else none).map put := by
  cases earlier <;> rfl

/-- Adding a member and then filling from the rest is filling from both. -/
theorem fillAll_cons (id? : Value → Option ι) (children? : Value → Option κ) (d : Draft ι κ)
    (m : String × Value) (ms : List (String × Value)) : fillAll id? children? d (m :: ms) =
      (d.addMember id? m.1 m.2 fun _ => children? m.2).bind fun d' =>
        fillAll id? children? d' ms := by
  obtain ⟨key, v⟩ := m
  have hnamed : ∀ field : BlockField, field.isNamed key = (BlockField.ofKey? key == some field) :=
    fun _ => rfl
  unfold addMember fillAll
  cases hkey : BlockField.ofKey? key with
  | none =>
      rw [hkey] at hnamed
      simp only [valuesOf_cons_of_neg (hnamed _), Option.bind_some]
  | some field =>
      rw [hkey] at hnamed
      -- The member belongs to one field, and the other three are filled from the rest.
      cases field with
      | id =>
          simp only [valuesOf_cons_of_pos (hnamed .id), valuesOf_cons_of_neg (hnamed .kind),
            valuesOf_cons_of_neg (hnamed .data), valuesOf_cons_of_neg (hnamed .children), fill_cons,
            setOnce_eq]
          cases (if d.id.isNone then id? v else none) <;> simp
      | kind =>
          simp only [valuesOf_cons_of_neg (hnamed .id), valuesOf_cons_of_pos (hnamed .kind),
            valuesOf_cons_of_neg (hnamed .data), valuesOf_cons_of_neg (hnamed .children), fill_cons,
            setOnce_eq]
          cases (if d.kind.isNone then Kind.ofValue? v else none) <;> simp
      | data =>
          simp only [valuesOf_cons_of_neg (hnamed .id), valuesOf_cons_of_neg (hnamed .kind),
            valuesOf_cons_of_pos (hnamed .data), valuesOf_cons_of_neg (hnamed .children), fill_cons,
            setOnce_eq]
          cases (if d.data.isNone then fields? v else none) <;> simp
      | children =>
          simp only [valuesOf_cons_of_neg (hnamed .id), valuesOf_cons_of_neg (hnamed .kind),
            valuesOf_cons_of_neg (hnamed .data), valuesOf_cons_of_pos (hnamed .children), fill_cons,
            setOnce_eq]
          cases (if d.children.isNone then children? v else none) <;> simp

/-- Adding all members of an object fills every field from them. -/
theorem foldlM_addMember (id? : Value → Option ι) (children? : Value → Option κ)
    (members : List (String × Value)) (d : Draft ι κ) :
    members.foldlM (fun d m => d.addMember id? m.1 m.2 fun _ => children? m.2) d =
      fillAll id? children? d members := by
  induction members generalizing d with
  | nil => simp [fillAll, valuesOf]
  | cons m ms ih =>
      rw [List.foldlM_cons, fillAll_cons]
      exact congrArg _ (funext ih)

/-- What is made of the filled fields is what the object describes field by field. -/
theorem fillAll_bind {β : Type} (id? : Value → Option ι) (children? : Value → Option (List β))
    (pick : Option ι → Option ι) (make : ι → Kind → Fields → List β → α)
    (members : List (String × Value)) :
    ((fillAll id? children? {} members).bind fun d => do
      return make (← pick d.id) (← d.kind) (d.data.getD []) (d.children.getD [])) =
      decodeObject? (fun vs => (fill id? none vs).bind pick) children? make members := by
  simp only [fillAll, decodeObject?, optional?_eq_fill, required?_eq_fill]
  cases fill id? none (valuesOf BlockField.id.isNamed members) with
  | none => rfl
  | some id =>
      cases fill Kind.ofValue? none (valuesOf BlockField.kind.isNamed members) with
      | none => cases hid : pick id <;> simp [hid]
      | some kind =>
          cases fill fields? none (valuesOf BlockField.data.isNamed members) with
          | none => cases kind <;> simp
          | some data =>
              cases fill children? none (valuesOf BlockField.children.isNamed members) <;>
                cases kind <;> simp

end Draft

/-- An object is a block if its fields are in order; only the kind is required. -/
theorem Block.ofValue?_object (members : List (String × Value)) : Block.ofValue? (.object members) =
    Draft.decodeObject? (optional? optionalText? none) Block.bodyOfValue? Block.mk members := by
  have hbuild : ∀ d, (Block.ofDraft .object d).toOption = do
      return Block.mk (← some (d.id.getD none)) (← d.kind) (d.data.getD [])
        (d.children.getD []) := by
    intro d
    unfold Block.ofDraft
    cases d.kind <;> rfl
  have hid : optional? optionalText? none = fun vs =>
      (fill optionalText? none vs).bind (some <| ·.getD none) := by
    funext vs
    rw [optional?_eq_fill, Option.map_eq_bind]
    rfl
  rw [Block.ofValue?, Block.draftOfMembers?_eq_foldlM, Draft.foldlM_addMember, funext hbuild, hid]
  exact Draft.fillAll_bind optionalText? Block.bodyOfValue? (some <| ·.getD none) Block.mk members

/-- An object is a node if its fields are in order; the id and the kind are required. -/
theorem Node.ofValue?_object (members : List (String × Value)) : Node.ofValue? (.object members) =
    Draft.decodeObject? (required? requiredText?) texts? Node.mk members := by
  have hbuild : ∀ d, (Node.ofDraft .object d).toOption = do
      return Node.mk (← d.id) (← d.kind) (d.data.getD []) (d.children.getD []) := by
    intro d
    unfold Node.ofDraft
    cases d.id <;> cases d.kind <;> rfl
  rw [Node.ofValue?, Node.draftOfMembers?_eq_foldlM, Draft.foldlM_addMember, funext hbuild,
    funext (required?_eq_fill requiredText?)]
  exact Draft.fillAll_bind requiredText? texts? (fun id => id) Node.mk members

/-! ## Graphs -/

namespace Graph

/-- What an object describes as a graph, each field by itself. -/
def decodeObject? (members : List (String × Value)) : Option Graph := do
  let roots ← optional? texts? [] (valuesOf (· == "roots") members)
  let nodes ← required? Node.listOfValue? (valuesOf (· == "blocks") members)
  return ⟨roots, nodes⟩

/-- Both fields filled from the same members. -/
def Draft.fillAll (d : Draft) (members : List (String × Value)) : Option Draft := do
  let roots ← fill texts? d.roots (valuesOf (· == "roots") members)
  let nodes ← fill Node.listOfValue? d.nodes (valuesOf (· == "blocks") members)
  return ⟨roots, nodes⟩

theorem Draft.fillAll_cons (d : Draft) (m : String × Value) (ms : List (String × Value)) :
    d.fillAll (m :: ms) = (d.addMember m.1 m.2).bind fun d' => d'.fillAll ms := by
  obtain ⟨key, v⟩ := m
  unfold addMember fillAll
  by_cases hroots : key = "roots"
  · subst hroots
    rw [if_pos rfl, valuesOf_cons_of_pos (p := (· == "roots")) rfl,
      valuesOf_cons_of_neg (p := (· == "blocks")) rfl, fill_cons]
    cases d.roots <;> cases texts? v <;> simp
  · by_cases hblocks : key = "blocks"
    · subst hblocks
      rw [if_neg hroots, if_pos rfl, valuesOf_cons_of_neg (p := (· == "roots")) rfl,
        valuesOf_cons_of_pos (p := (· == "blocks")) rfl, fill_cons]
      cases d.nodes <;> cases Node.listOfValue? v <;> simp
    · rw [if_neg hroots, if_neg hblocks,
        valuesOf_cons_of_neg (p := (· == "roots")) (beq_eq_false_iff_ne.mpr hroots),
        valuesOf_cons_of_neg (p := (· == "blocks")) (beq_eq_false_iff_ne.mpr hblocks)]
      rfl

theorem Draft.foldlM_addMember (members : List (String × Value)) (d : Draft) :
    members.foldlM (fun d m => d.addMember m.1 m.2) d = d.fillAll members := by
  induction members generalizing d with
  | nil => simp [fillAll, valuesOf]
  | cons m ms ih =>
      rw [List.foldlM_cons, fillAll_cons]
      exact congrArg _ (funext ih)

/-- An object is a graph if its fields are in order; the nodes are required. -/
theorem ofValue?_object (members : List (String × Value)) :
    ofValue? (.object members) = decodeObject? members := by
  rw [ofValue?, draftOfMembers?_eq_foldlM, Draft.foldlM_addMember]
  simp only [Draft.fillAll, decodeObject?, optional?_eq_fill, required?_eq_fill]
  cases fill texts? none (valuesOf (· == "roots") members) with
  | none => rfl
  | some roots =>
      rcases fill Node.listOfValue? none (valuesOf (· == "blocks") members) with _ | _ | nodes
      · rfl
      · rfl
      · rfl

end Graph

end BlockBot
