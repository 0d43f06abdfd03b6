import BlockBot.Code.Literal
import BlockBot.Handler.Condition
import BlockBot.Json.Scan
import BlockBot.Proofs.NumberText

/-!
# Literals denote values

A reader of literals, as programs understand them: the three constants, number tokens, texts in
double quotes, lists and dictionaries. It takes a literal from the front of a text and leaves what
follows. Reading the literal of a value gives that value back, with every number as it is written,
whatever follows the literal; only a number has to be ended by a mark that is no part of it. So a
text cannot end its literal early, and different values have different literals.

The reader runs on fuel, of which no reading of a text uses more than the text has characters.
-/

namespace BlockBot.Json.Value

/-- Induction over a value and what it contains. -/
@[elab_as_elim]
theorem nested_induction {motive : Value → Prop} (null : motive .null)
    (bool : ∀ b, motive (.bool b)) (number : ∀ n, motive (.number n))
    (string : ∀ s, motive (.string s))
    (array : ∀ items, (∀ v ∈ items, motive v) → motive (.array items))
    (object : ∀ members, (∀ m ∈ members, motive m.2) → motive (.object members)) : ∀ v, motive v
  | .null => null
  | .bool b => bool b
  | .number n => number n
  | .string s => string s
  | .array items => array items fun v _ => nested_induction null bool number string array object v
  | .object members => object members fun m hm =>
      have : sizeOf m.2 < 1 + sizeOf members := by
        have hlt := List.sizeOf_lt_of_mem hm
        obtain ⟨k, v⟩ := m
        simp only [Prod.mk.sizeOf_spec] at hlt ⊢
        omega
      nested_induction null bool number string array object m.2

end BlockBot.Json.Value

namespace BlockBot.Code

open BlockBot.Json BlockBot.Text BlockBot.Decimal

/-! ## What literals denote -/

/-- What a literal denotes. A number is kept as it is written. -/
inductive Datum where
  | none
  | bool (b : Bool)
  | number (text : String)
  | text (s : String)
  | list (items : List Datum)
  | dict (members : List (String × Datum))

namespace Datum

mutual

/-- What the literal of a value should denote. -/
def of : Value → Datum
  | .null => .none
  | .bool b => .bool b
  | .number n => .number n.text
  | .string s => .text s
  | .array items => .list (ofItems items)
  | .object members => .dict (ofMembers members)

def ofItems : List Value → List Datum
  | [] => []
  | v :: vs => of v :: ofItems vs

def ofMembers : List (String × Value) → List (String × Datum)
  | [] => []
  | (k, v) :: ms => (k, of v) :: ofMembers ms

end

theorem ofItems_eq_map (vs : List Value) : ofItems vs = vs.map of := by
  induction vs with
  | nil => rfl
  | cons v vs ih => rw [ofItems, ih, List.map_cons]

theorem ofMembers_eq_map (ms : List (String × Value)) :
    ofMembers ms = ms.map fun m => (m.1, of m.2) := by
  induction ms with
  | nil => rfl
  | cons m ms ih => rw [ofMembers, ih, List.map_cons]

end Datum

/-! ## The reader -/

/-- The character that one letter after a backslash stands for. -/
def escaped? (c : Char) : Option Char :=
  match c with
  | '"' => some '"'
  | '\\' => some '\\'
  | 'b' => some '\x08'
  | 'f' => some '\x0c'
  | 'n' => some '\n'
  | 'r' => some '\r'
  | 't' => some '\t'
  | _ => none

/-- The character with a number, unless it is one half of a pair. -/
def scalar? (n : Nat) : Option Char :=
  if n.isValidChar then some (Char.ofNat n) else none

/-- Reads a text up to its closing quote. The line must not break inside. -/
def readText : List Char → Option (List Char × List Char)
  | [] => none
  | '"' :: cs => some ([], cs)
  | '\\' :: 'u' :: a :: b :: c :: d :: cs => do
      let n ← quadValue? a b c d
      let x ← scalar? n
      (readText cs).map fun p => (x :: p.1, p.2)
  | '\\' :: c :: cs => do
      let x ← escaped? c
      (readText cs).map fun p => (x :: p.1, p.2)
  | c :: cs => if c = '\n' ∨ c = '\r' then none else (readText cs).map fun p => (c :: p.1, p.2)

/-- Reads a number token, as long as it can be. -/
def readNumber (cs : List Char) : Option (Datum × List Char) :=
  if (numeralOf? (cs.takeWhile isNumeralChar)).isSome then
    some (.number (String.ofList (cs.takeWhile isNumeralChar)), cs.dropWhile isNumeralChar)
  else none

/-- Reads the remaining letters of a constant. -/
def readConstant (word : List Char) (d : Datum) (cs : List Char) : Option (Datum × List Char) :=
  if word.isPrefixOf cs then some (d, cs.drop word.length) else none

def skipBlanks (cs : List Char) : List Char :=
  cs.dropWhile (· == ' ')

section
variable {α : Type} (one : List Char → Option (α × List Char)) (close : Char)

/-- Reads one thing or more, with commas between them, up to a closing mark. -/
def readSome : Nat → List Char → Option (List α × List Char)
  | 0, _ => none
  | fuel + 1, cs => do
      let (a, cs) ← one (skipBlanks cs)
      match skipBlanks cs with
      | [] => none
      | c :: cs =>
          if c = close then some ([a], cs)
          else if c = ',' then (readSome fuel cs).map fun p => (a :: p.1, p.2)
          else none

/-- Reads things with commas between them up to a closing mark, or the mark alone. -/
def readAll (fuel : Nat) (cs : List Char) : Option (List α × List Char) :=
  match skipBlanks cs with
  | [] => none
  | c :: r => if c = close then some ([], r) else readSome one close fuel cs

end

/-- Reads a key, a colon and what belongs to the key. -/
def readMember (value : List Char → Option (Datum × List Char)) :
    List Char → Option ((String × Datum) × List Char)
  | '"' :: cs => do
      let (key, cs) ← readText cs
      match skipBlanks cs with
      | ':' :: cs => (value (skipBlanks cs)).map fun p => ((String.ofList key, p.1), p.2)
      | _ => none
  | _ => none

def readDatum : Nat → List Char → Option (Datum × List Char)
  | 0, _ => none
  | fuel + 1, cs =>
      match cs with
      | 'N' :: cs => readConstant ['o', 'n', 'e'] .none cs
      | 'T' :: cs => readConstant ['r', 'u', 'e'] (.bool true) cs
      | 'F' :: cs => readConstant ['a', 'l', 's', 'e'] (.bool false) cs
      | '"' :: cs => (readText cs).map fun p => (.text (String.ofList p.1), p.2)
      | '[' :: cs => (readAll (readDatum fuel) ']' fuel cs).map fun p => (.list p.1, p.2)
      | '\x7b' :: cs =>
        (readAll (readMember (readDatum fuel)) '\x7d' fuel cs).map fun p => (.dict p.1, p.2)
      | cs => readNumber cs

/-- Reads the literal at the front of a text: what it denotes, and the rest of the text. -/
def Datum.read? (s : String) : Option (Datum × String) :=
  (readDatum s.length s.toList).map fun p => (p.1, String.ofList p.2)

/-! ## Texts -/

theorem readText_escapeChar (c : Char) (cs : List Char) :
    readText (escapeChar c ++ cs) = (readText cs).map fun p => (c :: p.1, p.2) := by
  have hhex : ∀ n < 32, quadValue? '0' '0' (hexDigit (n / 16)) (hexDigit (n % 16)) = some n := by
    decide
  have hscalar : scalar? c.toNat = some c := by
    rw [scalar?, if_pos (show c.toNat.isValidChar from c.valid), Char.ofNat_toNat]
  unfold escapeChar
  split_ifs with hquote hbackslash hb hf hn hr ht hcontrol
  · rw [hquote]
    rfl
  · rw [hbackslash]
    rfl
  · rw [hb]
    rfl
  · rw [hf]
    rfl
  · rw [hn]
    rfl
  · rw [hr]
    rfl
  · rw [ht]
    rfl
  · simp [readText, hhex c.toNat hcontrol, hscalar]
  · simp [readText, hbackslash, hn, hr]

theorem readText_escape (cs rest : List Char) :
    readText (escape cs ++ '"' :: rest) = some (cs, rest) := by
  induction cs with
  | nil => rfl
  | cons c cs ih =>
      rw [escape, List.flatMap_cons, List.append_assoc, readText_escapeChar]
      rw [escape] at ih
      rw [ih, Option.map_some]

/-- A line break has to be escaped. -/
example (cs : List Char) : readText ('\n' :: cs) = none := rfl

theorem quoteChars_append (s : String) (rest : List Char) :
    quoteChars s ++ rest = '"' :: (escape s.toList ++ '"' :: rest) := by
  simp [quoteChars]

/-! ## Numbers -/

/-- What may follow a number: nothing, or a mark that ends an item, a container or a call. -/
def EndsNumber (rest : List Char) : Prop :=
  ∀ c ∈ rest.head?, c = ',' ∨ c = ']' ∨ c = '}' ∨ c = ')'

theorem EndsNumber.not_numeral {rest : List Char} (h : EndsNumber rest) :
    ∀ c ∈ rest.head?, isNumeralChar c = false := by
  intro c hc
  rcases h c hc with rfl | rfl | rfl | rfl <;> rfl

theorem isNumeralChar_of_mem_chars {n : Number} {c : Char} (h : c ∈ n.chars) :
    isNumeralChar c = true := by
  obtain ⟨p, hp⟩ := Option.isSome_iff_exists.mp n.numeralOf?_chars
  exact isNumeralChar_of_numeralOf? hp c h

theorem readNumber_chars (n : Number) {rest : List Char} (h : EndsNumber rest) :
    readNumber (n.chars ++ rest) = some (.number n.text, rest) := by
  have hchars : ∀ c ∈ n.chars, isNumeralChar c = true := fun c hc => isNumeralChar_of_mem_chars hc
  rw [readNumber, takeWhile_of_ends hchars h.not_numeral, dropWhile_of_ends hchars h.not_numeral,
    if_pos n.numeralOf?_chars]
  rfl

theorem numberChars_cons (n : Number) : ∃ c cs, n.chars = c :: cs ∧ isNumeralChar c = true := by
  cases hchars : n.chars with
  | nil =>
      have hread := n.numeralOf?_chars
      rw [hchars] at hread
      cases hread
  | cons c cs => exact ⟨c, cs, rfl, isNumeralChar_of_mem_chars (hchars ▸ List.mem_cons_self)⟩

theorem readDatum_number (n : Number) (fuel : Nat) {rest : List Char} (h : EndsNumber rest) :
    readDatum (fuel + 1) (n.chars ++ rest) = some (.number n.text, rest) := by
  obtain ⟨c, cs, hcons, hc⟩ := numberChars_cons n
  rw [← readNumber_chars n h, hcons, List.cons_append, readDatum]
  -- the other forms start with characters that no token has
  all_goals
    intro r hr
    obtain ⟨rfl, -⟩ := List.cons.inj hr
    exact absurd hc (by decide)

/-! ## Containers -/

theorem skipBlanks_cons {c : Char} (h : c ≠ ' ') (cs : List Char) :
    skipBlanks (c :: cs) = c :: cs := by
  simp [skipBlanks, h]

theorem skipBlanks_blank (cs : List Char) : skipBlanks (' ' :: cs) = skipBlanks cs := by
  simp [skipBlanks]

/-- What stands between two parts of a container. -/
def separator : List Char := [',', ' ']

theorem itemLiterals_eq (vs : List Value) :
    itemLiterals vs = separator.intercalate (vs.map literalChars) := by
  induction vs with
  | nil => rfl
  | cons v vs ih =>
      cases vs with
      | nil => simp [itemLiterals]
      | cons w vs => simp [itemLiterals, ih, separator, List.intercalate_cons_cons]

def memberChars (m : String × Value) : List Char :=
  quoteChars m.1 ++ ':' :: ' ' :: literalChars m.2

theorem memberLiterals_eq (ms : List (String × Value)) :
    memberLiterals ms = separator.intercalate (ms.map memberChars) := by
  induction ms with
  | nil => rfl
  | cons m ms ih =>
      cases ms with
      | nil => simp [memberLiterals, memberChars]
      | cons m' ms => simp [memberLiterals, ih, separator, memberChars, List.intercalate_cons_cons]

/-- A part starts with a character that is neither a blank nor the closing mark. -/
def Starts (close : Char) (part : List Char) : Prop :=
  ∃ c cs, part = c :: cs ∧ c ≠ ' ' ∧ c ≠ close

theorem Starts.skipBlanks {close : Char} {part : List Char} (h : Starts close part)
    (rest : List Char) : skipBlanks (part ++ rest) = part ++ rest := by
  obtain ⟨c, cs, rfl, hc, -⟩ := h
  rw [List.cons_append, skipBlanks_cons hc]

theorem intercalate_cons (part : List Char) (parts : List (List Char)) :
    ∃ r, separator.intercalate (part :: parts) = part ++ r := by
  cases parts with
  | nil => exact ⟨[], by simp⟩
  | cons part' parts => exact ⟨_, by rw [List.intercalate_cons_cons, List.append_assoc]⟩

section
variable {α β : Type} {one : List Char → Option (β × List Char)} {close : Char}
    {chars : α → List Char} {denoted : α → β}

theorem readSome_blank (fuel : Nat) (cs : List Char) :
    readSome one close fuel (' ' :: cs) = readSome one close fuel cs := by
  cases fuel with
  | zero => rfl
  | succ fuel => rw [readSome, readSome, skipBlanks_blank]

/-- Things that are read back one by one are read back together. -/
theorem readSome_parts (hcomma : close ≠ ',') (hblank : close ≠ ' ') {xs : List α} (hne : xs ≠ [])
    (hstart : ∀ x ∈ xs, Starts close (chars x))
    (hone : ∀ x ∈ xs, ∀ c rest, c = ',' ∨ c = close →
      one (chars x ++ c :: rest) = some (denoted x, c :: rest))
    {fuel : Nat} (hfuel : xs.length ≤ fuel) (rest : List Char) :
    readSome one close fuel (separator.intercalate (xs.map chars) ++ close :: rest) =
      some (xs.map denoted, rest) := by
  induction xs generalizing fuel with
  | nil => exact absurd rfl hne
  | cons x xs ih =>
      obtain ⟨fuel, rfl⟩ : ∃ n, fuel = n + 1 := Nat.exists_eq_add_one.mpr (by simp at hfuel; omega)
      have hx := hone x List.mem_cons_self
      have hskip := (hstart x List.mem_cons_self).skipBlanks
      cases xs with
      | nil =>
          rw [List.map_singleton, List.intercalate_singleton, readSome, hskip,
            hx close rest (.inr rfl)]
          simp [skipBlanks_cons hblank]
      | cons y ys =>
          have hrest := ih (by simp) (fun z hz => hstart z (List.mem_cons_of_mem x hz))
            (fun z hz => hone z (List.mem_cons_of_mem x hz)) (Nat.le_of_succ_le_succ hfuel)
          have htext : separator.intercalate ((x :: y :: ys).map chars) ++ close :: rest =
              chars x ++ ',' ::
                (' ' :: (separator.intercalate ((y :: ys).map chars) ++ close :: rest)) := by
            simp [separator, List.intercalate_cons_cons]
          rw [htext, readSome, hskip, hx ',' _ (.inl rfl)]
          simp only [Option.bind_eq_bind, Option.bind_some]
          rw [skipBlanks_cons (by decide)]
          simp only [if_neg hcomma.symm, if_pos]
          rw [readSome_blank, hrest]
          rfl

theorem readAll_parts (hcomma : close ≠ ',') (hblank : close ≠ ' ') {xs : List α}
    (hstart : ∀ x ∈ xs, Starts close (chars x))
    (hone : ∀ x ∈ xs, ∀ c rest, c = ',' ∨ c = close →
      one (chars x ++ c :: rest) = some (denoted x, c :: rest))
    {fuel : Nat} (hfuel : xs.length ≤ fuel) (rest : List Char) :
    readAll one close fuel (separator.intercalate (xs.map chars) ++ close :: rest) =
      some (xs.map denoted, rest) := by
  cases xs with
  | nil => simp [readAll, skipBlanks_cons hblank]
  | cons x xs =>
      rw [← readSome_parts hcomma hblank (by simp) hstart hone hfuel rest]
      obtain ⟨r, hr⟩ := intercalate_cons (chars x) (xs.map chars)
      obtain ⟨c, cs, hcons, hc, hopen⟩ := hstart x List.mem_cons_self
      rw [List.map_cons, hr, hcons, List.append_assoc, List.cons_append, readAll,
        skipBlanks_cons hc]
      simp only [if_neg hopen]

/-- Parts are not longer than they are together, and not more than they have characters. -/
theorem length_parts_le {xs : List α} (h : ∀ x ∈ xs, Starts close (chars x)) :
    (∀ x ∈ xs, (chars x).length ≤ (separator.intercalate (xs.map chars)).length) ∧
      xs.length ≤ (separator.intercalate (xs.map chars)).length := by
  induction xs with
  | nil => simp
  | cons x xs ih =>
      obtain ⟨hparts, hcount⟩ := ih fun y hy => h y (List.mem_cons_of_mem x hy)
      have hpart : 1 ≤ (chars x).length := by
        obtain ⟨c, cs, hcons, -⟩ := h x List.mem_cons_self
        simp [hcons]
      cases xs with
      | nil => simpa using hpart
      | cons y ys =>
          rw [List.map_cons, List.map_cons, List.intercalate_cons_cons, List.length_append,
            List.length_append, ← List.map_cons]
          refine ⟨?_, ?_⟩
          · intro z hz
            rcases List.mem_cons.mp hz with rfl | hz
            · omega
            · exact (hparts z hz).trans (Nat.le_add_left _ _)
          · rw [List.length_cons]
            omega

end

/-! ## Values -/

theorem starts_literalChars (v : Value) : Starts ']' (literalChars v) := by
  cases v with
  | null => exact ⟨'N', _, rfl, by decide, by decide⟩
  | bool b =>
      cases b with
      | true => exact ⟨'T', _, rfl, by decide, by decide⟩
      | false => exact ⟨'F', _, rfl, by decide, by decide⟩
  | number n =>
      obtain ⟨c, cs, hcons, hc⟩ := numberChars_cons n
      refine ⟨c, cs, hcons, ?_, ?_⟩
      · rintro rfl
        exact absurd hc (by decide)
      · rintro rfl
        exact absurd hc (by decide)
  | string s => exact ⟨'"', _, rfl, by decide, by decide⟩
  | array items => exact ⟨'[', _, rfl, by decide, by decide⟩
  | object members => exact ⟨'\x7b', _, rfl, by decide, by decide⟩

theorem readMember_memberChars {value : List Char → Option (Datum × List Char)} {m : String × Value}
    {d : Datum} {rest : List Char} (h : value (literalChars m.2 ++ rest) = some (d, rest)) :
    readMember value (memberChars m ++ rest) = some ((m.1, d), rest) := by
  have htext : memberChars m ++ rest =
      '"' :: (escape m.1.toList ++ '"' :: ':' :: ' ' :: (literalChars m.2 ++ rest)) := by
    simp [memberChars, quoteChars]
  rw [htext, readMember, readText_escape]
  simp only [Option.bind_eq_bind, Option.bind_some]
  rw [skipBlanks_cons (by decide)]
  simp only [skipBlanks_blank, (starts_literalChars m.2).skipBlanks, h, Option.map_some,
    String.ofList_toList]

theorem starts_memberChars (m : String × Value) : Starts '\x7d' (memberChars m) :=
  ⟨'"', _, rfl, by decide, by decide⟩

theorem readDatum_array {items : List Value} {fuel : Nat} {rest : List Char}
    (h : ∀ v ∈ items, ∀ c rest, c = ',' ∨ c = ']' →
      readDatum fuel (literalChars v ++ c :: rest) = some (Datum.of v, c :: rest))
    (hfuel : items.length ≤ fuel) :
    readDatum (fuel + 1) (literalChars (.array items) ++ rest) =
      some (Datum.of (.array items), rest) := by
  have htext : literalChars (.array items) ++ rest =
      '[' :: (separator.intercalate (items.map literalChars) ++ ']' :: rest) := by
    simp [literalChars, itemLiterals_eq]
  have hitems :=
    readAll_parts (by decide) (by decide) (fun v _ => starts_literalChars v) h hfuel rest
  rw [htext, readDatum, hitems, Datum.of, Datum.ofItems_eq_map]
  rfl

theorem readDatum_object {members : List (String × Value)} {fuel : Nat} {rest : List Char}
    (h : ∀ m ∈ members, ∀ c rest, c = ',' ∨ c = '\x7d' →
      readDatum fuel (literalChars m.2 ++ c :: rest) = some (Datum.of m.2, c :: rest))
    (hfuel : members.length ≤ fuel) :
    readDatum (fuel + 1) (literalChars (.object members) ++ rest) =
      some (Datum.of (.object members), rest) := by
  have htext : literalChars (.object members) ++ rest =
      '\x7b' :: (separator.intercalate (members.map memberChars) ++ '\x7d' :: rest) := by
    simp [literalChars, memberLiterals_eq]
  have hmembers := readAll_parts (by decide) (by decide) (fun m _ => starts_memberChars m)
    (fun m hm c rest hc => readMember_memberChars (h m hm c rest hc)) hfuel rest
  rw [htext, readDatum, hmembers, Datum.of, Datum.ofMembers_eq_map]
  rfl

theorem exists_succ_of_literalChars_le {v : Value} {fuel : Nat}
    (h : (literalChars v).length ≤ fuel) : ∃ n, fuel = n + 1 := by
  obtain ⟨c, cs, hcons, -⟩ := starts_literalChars v
  rw [hcons, List.length_cons] at h
  exact Nat.exists_eq_add_one.mpr (by omega)

/-- Reading the literal of a value gives what it denotes and leaves what follows. -/
theorem readDatum_literalChars (v : Value) {fuel : Nat} (hfuel : (literalChars v).length ≤ fuel)
    {rest : List Char} (hrest : ∀ n, v = .number n → EndsNumber rest) :
    readDatum fuel (literalChars v ++ rest) = some (Datum.of v, rest) := by
  induction v using Value.nested_induction generalizing fuel rest with
  | null =>
      obtain ⟨fuel, rfl⟩ := exists_succ_of_literalChars_le hfuel
      rfl
  | bool b =>
      obtain ⟨fuel, rfl⟩ := exists_succ_of_literalChars_le hfuel
      cases b <;> rfl
  | number n =>
      obtain ⟨fuel, rfl⟩ := exists_succ_of_literalChars_le hfuel
      exact readDatum_number n fuel (hrest n rfl)
  | string s =>
      obtain ⟨fuel, rfl⟩ := exists_succ_of_literalChars_le hfuel
      rw [literalChars, quoteChars_append, readDatum, readText_escape]
      simp [Datum.of]
  | array items ih =>
      obtain ⟨fuel, rfl⟩ := exists_succ_of_literalChars_le hfuel
      have hstarts : ∀ v ∈ items, Starts ']' (literalChars v) := fun v _ => starts_literalChars v
      obtain ⟨hparts, hcount⟩ := length_parts_le hstarts
      simp only [literalChars, itemLiterals_eq, List.cons_append, List.length_cons,
        List.length_append] at hfuel
      refine readDatum_array (fun v hv c rest hc => ih v hv ?_ fun n _ => ?_) (by omega)
      · have hlength := hparts v hv
        omega
      · intro d hd
        obtain rfl : c = d := by simpa using hd
        exact hc.imp_right .inl
  | object members ih =>
      obtain ⟨fuel, rfl⟩ := exists_succ_of_literalChars_le hfuel
      have hstarts : ∀ m ∈ members, Starts '\x7d' (memberChars m) := fun m _ => starts_memberChars m
      obtain ⟨hparts, hcount⟩ := length_parts_le hstarts
      simp only [literalChars, memberLiterals_eq, List.cons_append, List.length_cons,
        List.length_append] at hfuel
      refine readDatum_object (fun m hm c rest hc => ih m hm ?_ fun n _ => ?_) (by omega)
      · have hlength := hparts m hm
        simp only [memberChars, List.length_append, List.length_cons] at hlength
        omega
      · intro d hd
        obtain rfl : c = d := by simpa using hd
        exact hc.elim .inl fun h => .inr (.inr (.inl h))

/-! ## Different values -/

theorem eq_of_map_eq {α β : Type} {f : α → β} {xs ys : List α}
    (hf : ∀ x ∈ xs, ∀ y, f x = f y → x = y) (h : xs.map f = ys.map f) : xs = ys := by
  induction xs generalizing ys with
  | nil => simpa using h.symm
  | cons x xs ih =>
      cases ys with
      | nil => cases h
      | cons y ys =>
          obtain ⟨hhead, htail⟩ := List.cons.inj h
          rw [hf x List.mem_cons_self y hhead,
            ih (fun z hz => hf z (List.mem_cons_of_mem x hz)) htail]

/-- Different values denote different things. -/
theorem Datum.of_injective {v w : Value} (h : Datum.of v = Datum.of w) : v = w := by
  induction v using Value.nested_induction generalizing w with
  | null =>
      cases w with
      | null => rfl
      | _ => cases h
  | bool b =>
      cases w with
      | bool b' => rw [show b = b' by simpa [Datum.of] using h]
      | _ => cases h
  | number n =>
      cases w with
      | number n' =>
          have htext : n.text = n'.text := by simpa [Datum.of] using h
          rw [Number.chars_injective (String.ofList_injective htext)]
      | _ => cases h
  | string s =>
      cases w with
      | string s' => rw [show s = s' by simpa [Datum.of] using h]
      | _ => cases h
  | array items ih =>
      cases w with
      | array items' =>
          have hitems : items.map Datum.of = items'.map Datum.of := by
            simpa [Datum.of, Datum.ofItems_eq_map] using h
          rw [eq_of_map_eq (fun v hv w => ih v hv) hitems]
      | _ => cases h
  | object members ih =>
      cases w with
      | object members' =>
          have hmembers : members.map (fun m => (m.1, Datum.of m.2)) = members'.map fun m =>
              (m.1, Datum.of m.2) := by
            simpa [Datum.of, Datum.ofMembers_eq_map] using h
          refine congrArg Value.object (eq_of_map_eq (fun m hm m' hsame => ?_) hmembers)
          obtain ⟨hkey, hvalue⟩ := Prod.mk.inj hsame
          exact Prod.ext hkey (ih m hm hvalue)
      | _ => cases h

theorem Datum.read?_literal (v : Value) {rest : String}
    (h : ∀ n, v = .number n → EndsNumber rest.toList) :
    Datum.read? (literal v ++ rest) = some (Datum.of v, rest) := by
  have htext : (literal v ++ rest).toList = literalChars v ++ rest.toList := by
    rw [String.toList_append, literal, String.toList_ofList]
  have hfuel : (literalChars v).length ≤ (literal v ++ rest).length := by
    rw [← String.length_toList, htext, List.length_append]
    omega
  rw [Datum.read?, htext, readDatum_literalChars v hfuel h, Option.map_some, String.ofList_toList]

/-- Different values have different literals, for each is read back from its own. -/
theorem literal_injective : Function.Injective literal := by
  have hread : ∀ v : Value, Datum.read? (literal v ++ "") = some (Datum.of v, "") := by
    intro v
    refine Datum.read?_literal v fun _ _ c hc => ?_
    cases hc
  intro v w h
  have hv := hread v
  rw [h, hread w] at hv
  exact Datum.of_injective (Prod.mk.inj (Option.some.inj hv)).1.symm

/-- Literals denote the values they are written for. Whatever follows a literal, the reader takes
exactly the literal and gives the value back, with its numbers as they are written; a number has to
be followed by nothing or by a mark that ends it. The literal of a text is read back to that text.
Different values have different literals. -/
theorem literal_denotes :
    (∀ (v : Value) (rest : String), (∀ n, v = .number n → EndsNumber rest.toList) →
      Datum.read? (literal v ++ rest) = some (Datum.of v, rest)) ∧
    (∀ s rest : String, Datum.read? (textLiteral s ++ rest) = some (.text s, rest)) ∧
    Function.Injective literal := by
  refine ⟨fun v rest h => Datum.read?_literal v h, fun s rest => ?_, literal_injective⟩
  exact Datum.read?_literal (.string s) (by simp)

/-- A negative fraction inside a list. -/
theorem literal_denotes_fraction :
    EndsNumber ", 2]".toList ∧
      Datum.read? (literal (.number (.real ⟨true, 1022, 0⟩)) ++ ", 2]") =
        some (.number "-0.5", ", 2]") := by
  have hrest : EndsNumber ", 2]".toList := by
    intro c hc
    exact .inl (Option.some.inj hc).symm
  exact ⟨hrest, literal_denotes.1 (.number (.real ⟨true, 1022, 0⟩)) ", 2]" fun _ _ => hrest⟩

end BlockBot.Code
