import BlockBot.Json.Printer
import BlockBot.Proofs.Accepted
import BlockBot.Proofs.Entries
import BlockBot.Proofs.LiteralReading

/-!
# Written values are read back

What is written for a value is read as that value, whatever follows it, if only a number is ended by
a mark that is no part of it. The value must have no binary number, whose decimals are rounded once
more when they are read, and it must not be nested deeper than the reader goes. The members of
objects come back in the order in which they were written, with all repetitions; where the keys
ascend, the canonical form is the same again.

Each part of the text is turned into a derivation of its form (`ValueForm`, `ItemsForm`,
`PairsForm`).
-/

namespace BlockBot.Json

open BlockBot.Decimal BlockBot.Text BlockBot.Code

namespace Value

mutual

/-- A property that a value has and all values in it. -/
def Throughout (P : Value → Prop) : Value → Prop
  | .array items => P (.array items) ∧ ThroughoutItems P items
  | .object members => P (.object members) ∧ ThroughoutMembers P members
  | v => P v

def ThroughoutItems (P : Value → Prop) : List Value → Prop
  | [] => True
  | v :: vs => v.Throughout P ∧ ThroughoutItems P vs

def ThroughoutMembers (P : Value → Prop) : List (String × Value) → Prop
  | [] => True
  | (_, v) :: ms => v.Throughout P ∧ ThroughoutMembers P ms

end

/-- A value that is no binary number. -/
def NotReal : Value → Prop
  | .number (.real _) => False
  | _ => True

/-- A value that is no object, or one whose keys ascend. -/
def KeysAscend : Value → Prop
  | .object members => Entries.Sorted members
  | _ => True

mutual

/-- How many lists and objects stand in each other at most in the text of a value. -/
def nesting : Value → Nat
  | .array items => itemsNesting items + 1
  | .object members => membersNesting members + 1
  | _ => 0

def itemsNesting : List Value → Nat
  | [] => 0
  | v :: vs => max v.nesting (itemsNesting vs)

def membersNesting : List (String × Value) → Nat
  | [] => 0
  | (_, v) :: ms => max v.nesting (membersNesting ms)

end

instance : DecidablePred NotReal := fun v =>
  match v with
  | .number (.real _) => .isFalse id
  | .number (.whole _) | .null | .bool _ | .string _ | .array _ | .object _ => .isTrue trivial

instance : DecidablePred KeysAscend := fun v =>
  match v with
  | .object members => inferInstanceAs (Decidable (members.Pairwise fun a b => a.1 < b.1))
  | .number _ | .null | .bool _ | .string _ | .array _ => .isTrue trivial

section Decidable

variable (P : Value → Prop) [DecidablePred P]

mutual

/-- Whether a property holds throughout a value is decided where it is decided of each value. -/
def decidableThroughout : (v : Value) → Decidable (v.Throughout P)
  | .array items => @instDecidableAnd _ _ _ (decidableItems items)
  | .object members => @instDecidableAnd _ _ _ (decidableMembers members)
  | .null => inferInstanceAs (Decidable (P .null))
  | .bool b => inferInstanceAs (Decidable (P (.bool b)))
  | .number n => inferInstanceAs (Decidable (P (.number n)))
  | .string s => inferInstanceAs (Decidable (P (.string s)))

def decidableItems : (vs : List Value) → Decidable (ThroughoutItems P vs)
  | [] => .isTrue trivial
  | v :: vs => @instDecidableAnd _ _ (decidableThroughout v) (decidableItems vs)

def decidableMembers : (ms : List (String × Value)) → Decidable (ThroughoutMembers P ms)
  | [] => .isTrue trivial
  | (_, v) :: ms => @instDecidableAnd _ _ (decidableThroughout v) (decidableMembers ms)

end

instance : DecidablePred (Throughout P) :=
  decidableThroughout P

end Decidable

@[simp] theorem throughout_string {P : Value → Prop} {s : String} :
    (Value.string s).Throughout P ↔ P (.string s) :=
  Iff.rfl

@[simp] theorem throughout_array {P : Value → Prop} {items : List Value} :
    (Value.array items).Throughout P ↔ P (.array items) ∧ ∀ v ∈ items, v.Throughout P := by
  rw [Throughout]
  refine and_congr_right' ?_
  induction items with
  | nil => simp [ThroughoutItems]
  | cons v vs ih => rw [ThroughoutItems, List.forall_mem_cons, ih]

@[simp] theorem throughout_object {P : Value → Prop} {members : List (String × Value)} :
    (Value.object members).Throughout P ↔
      P (.object members) ∧ ∀ m ∈ members, m.2.Throughout P := by
  rw [Throughout]
  refine and_congr_right' ?_
  induction members with
  | nil => simp [ThroughoutMembers]
  | cons m ms ih => rw [ThroughoutMembers, List.forall_mem_cons, ih]

theorem nesting_le_items {items : List Value} {v : Value} (hv : v ∈ items) :
    v.nesting ≤ itemsNesting items := by
  induction items with
  | nil => cases hv
  | cons w vs ih =>
      rw [itemsNesting]
      rcases List.mem_cons.mp hv with rfl | hv
      · exact Nat.le_max_left _ _
      · exact (ih hv).trans (Nat.le_max_right _ _)

theorem nesting_le_members {members : List (String × Value)} {m : String × Value}
    (hm : m ∈ members) : m.2.nesting ≤ membersNesting members := by
  induction members with
  | nil => cases hm
  | cons m' ms ih =>
      rw [membersNesting]
      rcases List.mem_cons.mp hm with rfl | hm
      · exact Nat.le_max_left _ _
      · exact (ih hm).trans (Nat.le_max_right _ _)

theorem canonicalItems_eq {items : List Value} (h : ∀ v ∈ items, v.canonical = v) :
    canonicalItems items = items := by
  induction items with
  | nil => rfl
  | cons v vs ih =>
      obtain ⟨hv, hvs⟩ := List.forall_mem_cons.mp h
      rw [canonicalItems, hv, ih hvs]

theorem canonicalMembers_eq {members : List (String × Value)} (hsorted : Entries.Sorted members)
    (h : ∀ m ∈ members, m.2.canonical = m.2) : canonicalMembers members = members := by
  induction members with
  | nil => rfl
  | cons m ms ih =>
      obtain ⟨hm, hms⟩ := List.forall_mem_cons.mp h
      rw [canonicalMembers, hm, ih (List.pairwise_cons.mp hsorted).2 hms]
      exact Entries.insertNew_of_sorted hsorted

/-- Nothing changes in canonical form where the keys ascend already. -/
theorem canonical_of_keysAscend {v : Value} (h : v.Throughout KeysAscend) : v.canonical = v := by
  induction v using nested_induction with
  | array items ih =>
      obtain ⟨-, hitems⟩ := throughout_array.mp h
      rw [canonical, canonicalItems_eq fun v hv => ih v hv (hitems v hv)]
  | object members ih =>
      obtain ⟨hsorted, hmembers⟩ := throughout_object.mp h
      rw [canonical, canonicalMembers_eq hsorted fun m hm => ih m hm (hmembers m hm)]
  | _ => rfl

end Value

variable {size levels : Nat} {rest : List Char}

theorem skipSpace_cons {c : Char} (h : isSpace c = false) (s : List Char) :
    skipSpace (c :: s) = c :: s :=
  List.dropWhile_cons_of_neg (by simp [h])

/-! ## Texts -/

theorem readEscape_hex {c : Char} (h : c.toNat < 32) (s : List Char) :
    readEscape ('u' :: '0' :: '0' :: hexDigit (c.toNat / 16) :: hexDigit (c.toNat % 16) :: s) =
      .ok (c, s) := by
  have hhex : ∀ n < 32, quadValue? '0' '0' (hexDigit (n / 16)) (hexDigit (n % 16)) = some n := by
    decide
  have hnone : ∀ n < 32, isTrailing n = false ∧ isLeading n = false := by decide
  simp only [readEscape, readCode, readQuad, hhex c.toNat h, ok_bind, hnone c.toNat h,
    Bool.false_eq_true, if_false, Char.ofNat_toNat]
  rfl

/-- One character is read back in one round. -/
theorem readTextLoop_escapeChar (n : Nat) (c : Char) (s : List Char) :
    readTextLoop (n + 1) (escapeChar c ++ s) = do
      let (cs, s) ← readTextLoop n s
      return (c :: cs, s) := by
  unfold escapeChar
  split_ifs with hquote hbackslash hb hf hn hr ht hcontrol
  · rw [hquote]
    rfl
  · rw [hbackslash]
    rfl
  · rw [hb]
    rfl
  · rw [hf]
    rfl
  · rw [hn]
    rfl
  · rw [hr]
    rfl
  · rw [ht]
    rfl
  · simp only [List.cons_append, List.nil_append, readTextLoop, readEscape_hex hcontrol, ok_bind]
  · rw [List.singleton_append, readTextLoop, if_neg hcontrol]
    · simpa using hquote
    · simpa using hbackslash

theorem readTextLoop_escape {n : Nat} {cs : List Char} (h : cs.length < n) :
    readTextLoop n (escape cs ++ '"' :: rest) = .ok (cs, rest) := by
  induction cs generalizing n with
  | nil =>
      obtain ⟨n, rfl⟩ := Nat.exists_eq_add_one_of_ne_zero (Nat.ne_zero_of_lt h)
      rfl
  | cons c cs ih =>
      obtain ⟨n, rfl⟩ := Nat.exists_eq_add_one_of_ne_zero (Nat.ne_zero_of_lt h)
      have hcs : readTextLoop n (escape cs ++ '"' :: rest) = .ok (cs, rest) :=
        ih (Nat.lt_of_succ_lt_succ h)
      rw [escape] at hcs
      rw [escape, List.flatMap_cons, List.append_assoc, readTextLoop_escapeChar, hcs]
      rfl

theorem length_le_escape (cs : List Char) : cs.length ≤ (escape cs).length := by
  have hpos : ∀ c, 1 ≤ (escapeChar c).length := by
    intro c
    unfold escapeChar
    split_ifs <;> simp
  induction cs with
  | nil => exact Nat.le_refl _
  | cons c cs ih =>
      have := hpos c
      rw [escape] at ih
      rw [escape, List.flatMap_cons, List.length_append, List.length_cons]
      omega

/-- A text is read back from between its quotes. -/
theorem readText_quoteChars {t : String} (h : (quoteChars t).length < size) :
    readText size (escape t.toList ++ '"' :: rest) = .ok (t, rest) := by
  have hle := length_le_escape t.toList
  have hlength : (quoteChars t).length = (escape t.toList).length + 2 := by simp [quoteChars]
  simp only [readText, readTextLoop_escape (show t.toList.length < size by omega), ok_bind,
    String.ofList_toList]
  rfl

/-! ## Numbers -/

theorem le_appendDigits (n : Nat) (cs : List Char) : n ≤ appendDigits n cs := by
  induction cs generalizing n with
  | nil => exact Nat.le_refl n
  | cons c cs ih =>
      have hstep := ih (10 * n + digitValue c)
      rw [appendDigits, List.foldl_cons, ← appendDigits]
      omega

/-- Digits are gathered without a rest as long as the number fits. -/
theorem gather_eq {n : Nat} {cs : List Char} (h : appendDigits n cs < Nat.pow 2 64) :
    gather n cs = (appendDigits n cs, []) := by
  induction cs generalizing n with
  | nil => rfl
  | cons c cs ih =>
      rw [appendDigits, List.foldl_cons, ← appendDigits] at h ⊢
      have hle := le_appendDigits (10 * n + digitValue c) cs
      simp only [gather]
      rw [if_pos (by omega)]
      exact ih h

theorem readWhole_natChars (atEnd : Fault) (k : Nat) (hrest : EndsDigits rest) :
    readWhole atEnd (natChars k ++ rest) = .ok (natChars k, rest) := by
  have hwhole := isWhole_toDigits k
  have hdigits : digitsOf (natChars k ++ rest) = natChars k := takeWhile_of_ends hwhole.digits hrest
  have hafter : afterDigits (natChars k ++ rest) = rest := dropWhile_of_ends hwhole.digits hrest
  rcases hchars : natChars k with _ | ⟨c, ds⟩
  · exact absurd hchars hwhole.ne_nil
  · have hc : isDigit c = true :=
      hwhole.digits c (by rw [← natChars, hchars]; exact List.mem_cons_self)
    rw [hchars] at hdigits hafter
    rw [List.cons_append] at hdigits hafter ⊢
    rw [readWhole]
    by_cases hzero : c = '0'
    · -- a zero in front stands alone
      have hds : ds = [] := by
        rcases hwhole.head with hone | hhead
        · rw [← natChars, hchars] at hone
          simpa using hone
        · rw [← natChars, hchars, hzero] at hhead
          exact absurd rfl hhead
      subst hds
      have hnone : digitsOf ([] ++ rest) = [] := takeWhile_of_ends (by simp) hrest
      rw [if_pos hzero, hnone]
      rfl
    · rw [if_neg hzero, if_pos hc, hdigits, hafter]

theorem readSpelling_natChars (atEnd : Fault) (negative : Bool) (k : Nat)
    (hrest : EndsNumber rest) :
    readSpelling atEnd negative (natChars k ++ rest) =
      .ok (⟨negative, natChars k, [], none⟩, rest) := by
  have hends : EndsDigits rest := by
    intro c hc
    rcases hrest c hc with rfl | rfl | rfl | rfl <;> rfl
  have hfraction : readFraction atEnd rest = .ok ([], rest) := by
    unfold readFraction
    split
    · next s =>
        exact absurd (hrest '.' rfl) (by decide)
    · rfl
  have hexponent : readExponent atEnd rest = .ok (none, rest) := by
    unfold readExponent
    split
    · next c s =>
        have hc := hrest c rfl
        rw [if_neg]
        rcases hc with rfl | rfl | rfl | rfl <;> decide
    · rfl
  simp only [readSpelling, readWhole_natChars atEnd k hends, hfraction, hexponent, ok_bind]
  rfl

theorem readNumber_natChars (negative : Bool) {k : Nat} (hk : k < Nat.pow 2 64)
    (hrest : EndsNumber rest) :
    readNumber negative (natChars k ++ rest) =
      .ok (Spelling.plain ⟨negative, natChars k, [], none⟩ k, rest) := by
  have hgather : gather 0 (natChars k) = (k, []) := by
    have hvalue : appendDigits 0 (natChars k) = k := appendDigits_toDigits k
    rw [gather_eq (by rwa [hvalue]), hvalue]
  simp only [readNumber, readSpelling_natChars _ negative k hrest, ok_bind, Spelling.value,
    hgather, gather]
  rfl

theorem Whole.natAbs_lt (w : Whole) : w.val.natAbs < Nat.pow 2 64 := by
  have hge := w.ge
  have hlt := w.lt
  have hpow : Nat.pow 2 64 = 18446744073709551616 := by decide
  omega

theorem Whole.eq_of_val {v w : Whole} (h : v.val = w.val) : v = w := by
  cases v
  cases w
  cases h
  rfl

theorem Whole.ofNegNat?_natAbs {w : Whole} (h : w.val < 0) :
    Whole.ofNegNat? w.val.natAbs = some w := by
  have hge := w.ge
  unfold Whole.ofNegNat?
  split
  · exact congrArg some (Whole.eq_of_val (by dsimp only; omega))
  · omega

theorem Whole.ofNat?_natAbs {w : Whole} (h : ¬w.val < 0) : Whole.ofNat? w.val.natAbs = some w := by
  have hlt := w.lt
  unfold Whole.ofNat?
  split
  · exact congrArg some (Whole.eq_of_val (by dsimp only; omega))
  · omega

theorem Spelling.plain_natAbs (w : Whole) {p : Spelling} (hp : p.negative = decide (w.val < 0)) :
    p.plain w.val.natAbs = .whole w := by
  unfold Spelling.plain
  by_cases hneg : w.val < 0
  · have hzero : w.val.natAbs ≠ 0 := by omega
    rw [hp, decide_eq_true hneg, if_pos rfl, if_neg hzero, Whole.ofNegNat?_natAbs hneg]
  · rw [hp, decide_eq_false hneg, if_neg Bool.false_ne_true, Whole.ofNat?_natAbs hneg]

/-- A whole number is read back, with its sign. -/
theorem valueForm_whole (w : Whole) (hrest : EndsNumber rest) :
    ValueForm size levels (intChars w.val ++ rest) (.number (.whole w)) rest := by
  have hread : ∀ negative, negative = decide (w.val < 0) →
      readNumber negative (natChars w.val.natAbs ++ rest) = .ok (.whole w, rest) := by
    intro negative hnegative
    rw [readNumber_natChars negative w.natAbs_lt hrest, Spelling.plain_natAbs w hnegative]
  unfold intChars
  split_ifs with hneg
  · exact .minus (hread true (decide_eq_true hneg).symm)
  · have hread := hread false (decide_eq_false hneg).symm
    rcases hchars : natChars w.val.natAbs with _ | ⟨c, ds⟩
    · exact absurd hchars Nat.toDigits_ne_nil
    · have hc : c ∈ natChars w.val.natAbs := hchars ▸ List.mem_cons_self
      rw [hchars] at hread
      exact .digit (isDigit_of_mem_toDigits hc) hread

/-! ## Lists and objects -/

/-- What is written for a value starts neither with a blank nor with a closing bracket. -/
theorem chars_starts (v : Value) : ∃ c cs, v.chars = c :: cs ∧ isSpace c = false ∧ c ≠ ']' := by
  cases v with
  | null => exact ⟨_, _, rfl, rfl, by decide⟩
  | bool b => cases b <;> exact ⟨_, _, rfl, rfl, by decide⟩
  | number n =>
      obtain ⟨c, cs, hchars, hc⟩ := numberChars_cons n
      have hother : ∀ d, isNumeralChar d = false → c ≠ d := by
        rintro d hd rfl
        rw [hc] at hd
        cases hd
      refine ⟨c, cs, hchars, ?_, hother _ rfl⟩
      simp [isSpace, hother ' ' rfl, hother '\n' rfl, hother '\t' rfl, hother '\r' rfl]
  | string s => exact ⟨_, _, rfl, rfl, by decide⟩
  | array items => exact ⟨_, _, rfl, rfl, by decide⟩
  | object members => exact ⟨_, _, rfl, rfl, by decide⟩

theorem skipSpace_chars (v : Value) (s : List Char) : skipSpace (v.chars ++ s) = v.chars ++ s := by
  obtain ⟨c, cs, hchars, hspace, -⟩ := chars_starts v
  rw [hchars]
  exact skipSpace_cons hspace _

theorem opens_chars (v : Value) (s : List Char) : Opens ']' (skipSpace (v.chars ++ s)) := by
  rw [skipSpace_chars]
  obtain ⟨c, cs, hchars, -, hc⟩ := chars_starts v
  rw [hchars]
  exact opens_cons.mpr hc

/-- The characters of a member. -/
def pairChars (m : String × Value) : List Char :=
  quoteChars m.1 ++ ':' :: m.2.chars

section Joined

variable {α : Type} (chars : α → List Char)

/-- The parts after the first one, each after a comma. -/
def laterParts (xs : List α) : List Char :=
  xs.flatMap fun x => ',' :: chars x

/-- The parts with commas between them. -/
def joinedParts : List α → List Char
  | [] => []
  | x :: xs => chars x ++ laterParts chars xs

theorem laterParts_cons (x : α) (xs : List α) :
    laterParts chars (x :: xs) = ',' :: (chars x ++ laterParts chars xs) := by
  simp [laterParts]

theorem length_le_laterParts (xs : List α) : xs.length ≤ (laterParts chars xs).length := by
  induction xs with
  | nil => exact Nat.le_refl _
  | cons x xs ih =>
      rw [laterParts_cons]
      simp only [List.length_cons, List.length_append]
      omega

theorem length_part_le_laterParts {x : α} {xs : List α} (h : x ∈ xs) :
    (chars x).length ≤ (laterParts chars xs).length := by
  induction xs with
  | nil => cases h
  | cons y ys ih =>
      rw [laterParts_cons]
      simp only [List.length_cons, List.length_append]
      rcases List.mem_cons.mp h with rfl | h
      · omega
      · have := ih h
        omega

/-- There are fewer parts than characters, with the closing mark among them. -/
theorem length_le_joinedParts (xs : List α) : xs.length ≤ (joinedParts chars xs).length + 1 := by
  cases xs with
  | nil => exact Nat.zero_le _
  | cons x xs =>
      have := length_le_laterParts chars xs
      simp only [joinedParts, List.length_cons, List.length_append]
      omega

theorem length_part_le_joinedParts {x : α} {xs : List α} (h : x ∈ xs) :
    (chars x).length ≤ (joinedParts chars xs).length := by
  cases xs with
  | nil => cases h
  | cons y ys =>
      simp only [joinedParts, List.length_append]
      rcases List.mem_cons.mp h with rfl | h
      · omega
      · have := length_part_le_laterParts chars h
        omega

/-- What follows a part ends a number. -/
theorem endsNumber_laterParts {close : Char} (hclose : close = ']' ∨ close = '\x7d') (xs : List α)
    (rest : List Char) : EndsNumber (laterParts chars xs ++ close :: rest) := by
  intro c hc
  cases xs with
  | nil =>
      obtain rfl : close = c := by simpa [laterParts] using hc
      rcases hclose with rfl | rfl <;> simp
  | cons x xs =>
      rw [laterParts_cons] at hc
      obtain rfl : ',' = c := by simpa using hc
      exact .inl rfl

end Joined

theorem itemChars_eq (items : List Value) :
    Value.itemChars items = joinedParts Value.chars items := by
  cases items with
  | nil => rfl
  | cons v vs =>
      induction vs generalizing v with
      | nil => simp [Value.itemChars, joinedParts, laterParts]
      | cons w vs ih =>
          rw [Value.itemChars, ih w, joinedParts, joinedParts, laterParts_cons]
          simp

theorem memberChars_eq (members : List (String × Value)) :
    Value.memberChars members = joinedParts pairChars members := by
  cases members with
  | nil => rfl
  | cons m ms =>
      induction ms generalizing m with
      | nil => simp [Value.memberChars, joinedParts, laterParts, pairChars]
      | cons m' ms ih =>
          rw [Value.memberChars, ih m', joinedParts, joinedParts, laterParts_cons]
          · simp [pairChars]
          · simp

/-- A value is read back from its text, whatever follows it. -/
def ReadsBack (size levels : Nat) (v : Value) : Prop :=
  ∀ ⦃rest⦄, EndsNumber rest → readValue size levels (v.chars ++ rest) = .ok (v, rest)

theorem itemsForm_laterParts {vs : List Value} (h : ∀ v ∈ vs, ReadsBack size levels v) {n : Nat}
    (hn : vs.length < n) :
    ItemsForm (readValue size levels) n false
      (laterParts Value.chars vs ++ ']' :: rest) vs rest := by
  induction vs generalizing n with
  | nil =>
      obtain ⟨n, rfl⟩ := Nat.exists_eq_add_one_of_ne_zero (Nat.ne_zero_of_lt hn)
      exact .nil (nextItem_eq_none.mpr ⟨rest, rfl⟩) (closeList_eq_ok.mpr rfl)
  | cons v vs ih =>
      obtain ⟨n, rfl⟩ := Nat.exists_eq_add_one_of_ne_zero (Nat.ne_zero_of_lt hn)
      have hv := h v List.mem_cons_self (endsNumber_laterParts Value.chars (.inl rfl) vs rest)
      have hrest := ih (fun w hw => h w (List.mem_cons_of_mem _ hw)) (Nat.lt_of_succ_lt_succ hn)
      rw [laterParts_cons, List.cons_append, List.append_assoc]
      exact .cons (nextItem_later.mpr ⟨_, rfl, skipSpace_chars v _, opens_chars v _⟩) hv hrest

theorem itemsForm_joinedParts {vs : List Value} (h : ∀ v ∈ vs, ReadsBack size levels v) {n : Nat}
    (hn : vs.length < n) :
    ItemsForm (readValue size levels) n true
      (joinedParts Value.chars vs ++ ']' :: rest) vs rest := by
  obtain ⟨n, rfl⟩ := Nat.exists_eq_add_one_of_ne_zero (Nat.ne_zero_of_lt hn)
  cases vs with
  | nil => exact .nil (nextItem_eq_none.mpr ⟨rest, rfl⟩) (closeList_eq_ok.mpr rfl)
  | cons v vs =>
      have hv := h v List.mem_cons_self (endsNumber_laterParts Value.chars (.inl rfl) vs rest)
      rw [joinedParts, List.append_assoc]
      refine .cons (nextItem_first.mpr ⟨skipSpace_chars v _, opens_chars v _⟩) hv ?_
      exact itemsForm_laterParts
        (fun w hw => h w (List.mem_cons_of_mem _ hw)) (Nat.lt_of_succ_lt_succ hn)

theorem pairChars_append (m : String × Value) (s : List Char) :
    pairChars m ++ s = '"' :: (escape m.1.toList ++ '"' :: ':' :: (m.2.chars ++ s)) := by
  simp [pairChars, quoteChars]

theorem pairsForm_laterParts {ms : List (String × Value)} (h : ∀ m ∈ ms, ReadsBack size levels m.2)
    (hkeys : ∀ m ∈ ms, (quoteChars m.1).length < size) {n : Nat} (hn : ms.length < n) :
    PairsForm size (readValue size levels) n false
      (laterParts pairChars ms ++ '\x7d' :: rest) ms rest := by
  induction ms generalizing n with
  | nil =>
      obtain ⟨n, rfl⟩ := Nat.exists_eq_add_one_of_ne_zero (Nat.ne_zero_of_lt hn)
      exact .nil (nextKey_eq_none.mpr ⟨rest, rfl⟩) (closeObject_eq_ok.mpr rfl)
  | cons m ms ih =>
      obtain ⟨n, rfl⟩ := Nat.exists_eq_add_one_of_ne_zero (Nat.ne_zero_of_lt hn)
      have hkey := hkeys m List.mem_cons_self
      have hv := h m List.mem_cons_self (endsNumber_laterParts pairChars (.inr rfl) ms rest)
      have hrest := ih (fun m' hm => h m' (List.mem_cons_of_mem _ hm))
        (fun m' hm => hkeys m' (List.mem_cons_of_mem _ hm)) (Nat.lt_of_succ_lt_succ hn)
      rw [laterParts_cons, List.cons_append, List.append_assoc, pairChars_append]
      exact .cons (nextKey_later.mpr ⟨_, rfl, rfl⟩) (readText_quoteChars hkey)
        (readColon_eq_ok.mpr rfl) hv hrest

theorem pairsForm_joinedParts {ms : List (String × Value)} (h : ∀ m ∈ ms, ReadsBack size levels m.2)
    (hkeys : ∀ m ∈ ms, (quoteChars m.1).length < size) {n : Nat} (hn : ms.length < n) :
    PairsForm size (readValue size levels) n true
      (joinedParts pairChars ms ++ '\x7d' :: rest) ms rest := by
  obtain ⟨n, rfl⟩ := Nat.exists_eq_add_one_of_ne_zero (Nat.ne_zero_of_lt hn)
  cases ms with
  | nil => exact .nil (nextKey_eq_none.mpr ⟨rest, rfl⟩) (closeObject_eq_ok.mpr rfl)
  | cons m ms =>
      have hkey := hkeys m List.mem_cons_self
      have hv := h m List.mem_cons_self (endsNumber_laterParts pairChars (.inr rfl) ms rest)
      rw [joinedParts, List.append_assoc, pairChars_append]
      refine .cons (nextKey_first.mpr rfl) (readText_quoteChars hkey)
        (readColon_eq_ok.mpr rfl) hv ?_
      exact pairsForm_laterParts (fun m' hm => h m' (List.mem_cons_of_mem _ hm))
        (fun m' hm => hkeys m' (List.mem_cons_of_mem _ hm)) (Nat.lt_of_succ_lt_succ hn)

/-! ## Values -/

theorem length_item_lt {items : List Value} {v : Value} (hv : v ∈ items) :
    v.chars.length < (Value.array items).chars.length := by
  have hle := length_part_le_joinedParts Value.chars hv
  simp only [Value.chars, itemChars_eq, List.length_cons, List.length_append]
  omega

theorem length_pair_lt {members : List (String × Value)} {m : String × Value} (hm : m ∈ members) :
    (quoteChars m.1).length + m.2.chars.length < (Value.object members).chars.length := by
  have hle := length_part_le_joinedParts pairChars hm
  simp only [pairChars, List.length_append, List.length_cons] at hle
  simp only [Value.chars, memberChars_eq, List.length_cons, List.length_append]
  omega

/-- A list is read back if its items are. -/
theorem readsBack_array {items : List Value} (hsize : (Value.array items).chars.length < size)
    (h : ∀ v ∈ items, ReadsBack size levels v) : ReadsBack size (levels + 1) (.array items) := by
  intro rest _
  have hrounds := length_le_joinedParts Value.chars items
  simp only [Value.chars, itemChars_eq, List.length_cons, List.length_append,
    List.length_nil] at hsize
  refine readValue_eq_ok.mpr ?_
  rw [skipSpace_chars, Value.chars, itemChars_eq, List.cons_append, List.cons_append,
    List.append_assoc]
  exact .array (readItemsLoop_eq_ok.mpr (itemsForm_joinedParts h (by omega)))

/-- An object is read back if the values of its members are. -/
theorem readsBack_object {members : List (String × Value)}
    (hsize : (Value.object members).chars.length < size)
    (h : ∀ m ∈ members, ReadsBack size levels m.2) :
    ReadsBack size (levels + 1) (.object members) := by
  intro rest _
  have hkeys : ∀ m ∈ members, (quoteChars m.1).length < size := by
    intro m hm
    have hlt := length_pair_lt hm
    omega
  have hrounds := length_le_joinedParts pairChars members
  simp only [Value.chars, memberChars_eq, List.length_cons, List.length_append,
    List.length_nil] at hsize
  refine readValue_eq_ok.mpr ?_
  rw [skipSpace_chars, Value.chars, memberChars_eq, List.cons_append, List.cons_append,
    List.append_assoc]
  exact .object (readPairsLoop_eq_ok.mpr (pairsForm_joinedParts h hkeys (by omega)))

/-- A value without binary numbers is read back from its text, if its nesting is allowed. -/
theorem readsBack (v : Value) (hwhole : v.Throughout Value.NotReal) {levels : Nat}
    (hlevels : v.nesting ≤ levels) (hsize : v.chars.length < size) : ReadsBack size levels v := by
  induction v using Value.nested_induction generalizing levels with
  | null => exact fun rest _ => readValue_eq_ok.mpr (.null rfl)
  | bool b =>
      intro rest _
      cases b with
      | true => exact readValue_eq_ok.mpr (.yes rfl)
      | false => exact readValue_eq_ok.mpr (.no rfl)
  | number n =>
      intro rest hrest
      cases n with
      | real x => exact hwhole.elim
      | whole w =>
          refine readValue_eq_ok.mpr ?_
          rw [skipSpace_chars]
          exact valueForm_whole w hrest
  | string s =>
      intro rest _
      refine readValue_eq_ok.mpr ?_
      rw [skipSpace_chars, Value.chars, quoteChars_append]
      exact .string (readText_quoteChars hsize)
  | array items ih =>
      rw [Value.nesting] at hlevels
      obtain ⟨levels, rfl⟩ := Nat.exists_eq_add_one_of_ne_zero (Nat.ne_zero_of_lt hlevels)
      refine readsBack_array hsize fun v hv => ?_
      have hnesting := Value.nesting_le_items hv
      have hlength := length_item_lt hv
      exact ih v hv ((Value.throughout_array.mp hwhole).2 v hv) (by omega) (by omega)
  | object members ih =>
      rw [Value.nesting] at hlevels
      obtain ⟨levels, rfl⟩ := Nat.exists_eq_add_one_of_ne_zero (Nat.ne_zero_of_lt hlevels)
      refine readsBack_object hsize fun m hm => ?_
      have hnesting := Value.nesting_le_members hm
      have hlength := length_pair_lt hm
      exact ih m hm ((Value.throughout_object.mp hwhole).2 m hm) (by omega) (by omega)

/-- A value without binary numbers is what its whole text is read as. -/
theorem readValue_compact {v : Value} (hwhole : v.Throughout Value.NotReal)
    (hlevels : v.nesting ≤ levels) :
    readValue (sizeOfText v.compact.toList) levels v.compact.toList = .ok (v, []) := by
  have htext : v.compact.toList = v.chars := String.toList_ofList
  have hread : readValue (v.chars.length + 1) levels (v.chars ++ []) = .ok (v, []) :=
    readsBack v hwhole hlevels (Nat.lt_succ_self v.chars.length) (by simp [EndsNumber])
  rw [List.append_nil] at hread
  rw [htext]
  exact hread

end BlockBot.Json
