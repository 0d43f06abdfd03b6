import BlockBot.Json.Typed
import Mathlib.Tactic.SplitIfs

/-!
# What readers accept

A value that was read has one of eight forms, told by the first character that is no blank
(`ValueForm`). Items and members are derived one after the other (`ItemsForm`, `PairsForm`). Each of
these derivations is equivalent to a successful reading, so facts about accepted texts are proved by
cases and by induction on them, and the failures of the readers never come up.

The first such fact is here: no reader goes back.
-/

namespace BlockBot.Json

open BlockBot.Decimal

variable {α β : Type} {s r rest : List Char}

theorem bind_eq_ok {ε : Type} {x : Except ε α} {f : α → Except ε β} {b : β} :
    (x >>= f) = .ok b ↔ ∃ a, x = .ok a ∧ f a = .ok b := by
  cases x with
  | error e => simp [bind, Except.bind]
  | ok a => simp [bind, Except.bind]

@[simp]
theorem failHere_ne_ok (fault : Fault) (s : List Char) (a : α) : failHere fault s ≠ .ok a :=
  nofun

@[simp]
theorem failNext_ne_ok (fault : Fault) (s : List Char) (a : α) : failNext fault s ≠ .ok a :=
  nofun

theorem ok_bind {ε : Type} (a : α) (f : α → Except ε β) : (Except.ok a >>= f) = f a := rfl

/-! ## Forms -/

/-- What is accepted as a value, from its first character on. -/
inductive ValueForm (size : Nat) : Nat → List Char → Value → List Char → Prop
  | null {levels r rest} :
      readWord ['u', 'l', 'l'] r = .ok rest → ValueForm size levels ('n' :: r) .null rest
  | yes {levels r rest} :
      readWord ['r', 'u', 'e'] r = .ok rest → ValueForm size levels ('t' :: r) (.bool true) rest
  | no {levels r rest} :
      readWord ['a', 'l', 's', 'e'] r = .ok rest →
      ValueForm size levels ('f' :: r) (.bool false) rest
  | minus {levels r n rest} :
      readNumber true r = .ok (n, rest) → ValueForm size levels ('-' :: r) (.number n) rest
  | digit {levels c r n rest} : isDigit c = true → readNumber false (c :: r) = .ok (n, rest) →
      ValueForm size levels (c :: r) (.number n) rest
  | string {levels r t rest} :
      readText size r = .ok (t, rest) → ValueForm size levels ('"' :: r) (.string t) rest
  | array {levels r items rest} : readItems size (readValue size levels) r = .ok (items, rest) →
      ValueForm size (levels + 1) ('[' :: r) (.array items) rest
  | object {levels r members rest} :
      readPairs size (readValue size levels) r = .ok (members, rest) →
      ValueForm size (levels + 1) ('\x7b' :: r) (.object members) rest

/-- What is accepted as the items of a list, up to its closing bracket. -/
inductive ItemsForm (item : Reader α) : Nat → Bool → List Char → List α → List Char → Prop
  | nil {n first s rest} :
      nextItem first s = .ok none → closeList s = .ok rest → ItemsForm item (n + 1) first s [] rest
  | cons {n first s s₁ x s₂ xs rest} : nextItem first s = .ok (some s₁) → item s₁ = .ok (x, s₂) →
      ItemsForm item n false s₂ xs rest → ItemsForm item (n + 1) first s (x :: xs) rest

/-- What is accepted as the members of an object, up to its closing brace. -/
inductive PairsForm (size : Nat) (value : Reader α) :
    Nat → Bool → List Char → List (String × α) → List Char → Prop
  | nil {n first s rest} :
      nextKey first s = .ok none → closeObject s = .ok rest →
      PairsForm size value (n + 1) first s [] rest
  | cons {n first s s₁ key s₂ s₃ x s₄ ps rest} :
      nextKey first s = .ok (some s₁) → readText size s₁ = .ok (key, s₂) →
      readColon s₂ = .ok s₃ → value s₃ = .ok (x, s₄) → PairsForm size value n false s₄ ps rest →
      PairsForm size value (n + 1) first s ((key, x) :: ps) rest

theorem readItemsLoop_eq_ok {item : Reader α} {n : Nat} {first : Bool} {xs : List α} :
    readItemsLoop item n first s = .ok (xs, rest) ↔ ItemsForm item n first s xs rest := by
  constructor
  · intro h
    induction n generalizing first s xs with
    | zero => simp [readItemsLoop] at h
    | succ n ih =>
        rw [readItemsLoop, bind_eq_ok] at h
        obtain ⟨_ | s₁, hnext, h⟩ := h
        · obtain ⟨s₂, hclose, h⟩ := bind_eq_ok.mp h
          cases h
          exact .nil hnext hclose
        · obtain ⟨⟨x, s₂⟩, hitem, h⟩ := bind_eq_ok.mp h
          obtain ⟨⟨xs, s₃⟩, hloop, h⟩ := bind_eq_ok.mp h
          cases h
          exact .cons hnext hitem (ih hloop)
  · intro h
    induction h with
    | nil hnext hclose =>
        simp only [readItemsLoop, hnext, ok_bind, hclose]
        rfl
    | cons hnext hitem _ ih =>
        simp only [readItemsLoop, hnext, ok_bind, hitem, ih]
        rfl

theorem readPairsLoop_eq_ok {size : Nat} {value : Reader α} {n : Nat} {first : Bool}
    {ps : List (String × α)} :
    readPairsLoop size value n first s = .ok (ps, rest) ↔
      PairsForm size value n first s ps rest := by
  constructor
  · intro h
    induction n generalizing first s ps with
    | zero => simp [readPairsLoop] at h
    | succ n ih =>
        rw [readPairsLoop, bind_eq_ok] at h
        obtain ⟨_ | s₁, hnext, h⟩ := h
        · obtain ⟨s₂, hclose, h⟩ := bind_eq_ok.mp h
          cases h
          exact .nil hnext hclose
        · obtain ⟨⟨key, s₂⟩, hkey, h⟩ := bind_eq_ok.mp h
          obtain ⟨s₃, hcolon, h⟩ := bind_eq_ok.mp h
          obtain ⟨⟨x, s₄⟩, hvalue, h⟩ := bind_eq_ok.mp h
          obtain ⟨⟨ps, s₅⟩, hloop, h⟩ := bind_eq_ok.mp h
          cases h
          exact .cons hnext hkey hcolon hvalue (ih hloop)
  · intro h
    induction h with
    | nil hnext hclose =>
        simp only [readPairsLoop, hnext, ok_bind, hclose]
        rfl
    | cons hnext hkey hcolon hvalue _ ih =>
        simp only [readPairsLoop, hnext, ok_bind, hkey, hcolon, hvalue, ih]
        rfl

theorem readConstant_eq_ok {word : List Char} {value a : α} :
    readConstant word value s = .ok (a, rest) ↔ a = value ∧ readWord word s = .ok rest := by
  unfold readConstant
  rw [bind_eq_ok]
  constructor
  · rintro ⟨s', hword, heq⟩
    cases heq
    exact ⟨rfl, hword⟩
  · rintro ⟨rfl, hword⟩
    exact ⟨rest, hword, rfl⟩

theorem ne_of_isDigit {c d : Char} (hc : isDigit c = true) (hd : isDigit d = false) : c ≠ d := by
  rintro rfl
  rw [hc] at hd
  cases hd

theorem readValue_eq_ok {size levels : Nat} {v : Value} :
    readValue size levels s = .ok (v, rest) ↔ ValueForm size levels (skipSpace s) v rest := by
  unfold readValue
  generalize skipSpace s = cs
  constructor
  · intro h
    rcases cs with _ | ⟨c, r⟩
    · simp at h
    · simp only at h
      split_ifs at h with hn ht hf hminus hdigit hquote hlist hobject
      · obtain ⟨rfl, hword⟩ := readConstant_eq_ok.mp h
        exact hn ▸ .null hword
      · obtain ⟨rfl, hword⟩ := readConstant_eq_ok.mp h
        exact ht ▸ .yes hword
      · obtain ⟨rfl, hword⟩ := readConstant_eq_ok.mp h
        exact hf ▸ .no hword
      · obtain ⟨⟨n, r'⟩, hnumber, h⟩ := bind_eq_ok.mp h
        cases h
        exact hminus ▸ .minus hnumber
      · obtain ⟨⟨n, r'⟩, hnumber, h⟩ := bind_eq_ok.mp h
        cases h
        exact .digit hdigit hnumber
      · obtain ⟨⟨t, r'⟩, htext, h⟩ := bind_eq_ok.mp h
        cases h
        exact hquote ▸ .string htext
      · cases levels with
        | zero => simp at h
        | succ levels =>
            obtain ⟨⟨items, r'⟩, hitems, h⟩ := bind_eq_ok.mp h
            cases h
            exact hlist ▸ .array hitems
      · cases levels with
        | zero => simp at h
        | succ levels =>
            obtain ⟨⟨members, r'⟩, hmembers, h⟩ := bind_eq_ok.mp h
            cases h
            exact hobject ▸ .object hmembers
      · simp at h
  · intro h
    cases h with
    | null h => exact readConstant_eq_ok.mpr ⟨rfl, h⟩
    | yes h => exact readConstant_eq_ok.mpr ⟨rfl, h⟩
    | no h => exact readConstant_eq_ok.mpr ⟨rfl, h⟩
    | minus h => exact bind_eq_ok.mpr ⟨_, h, rfl⟩
    | @digit _ c r n _ hdigit h =>
        have hother : ∀ d, isDigit d = false → c ≠ d := fun d => ne_of_isDigit hdigit
        simp only [hother 'n' rfl, hother 't' rfl, hother 'f' rfl, hother '-' rfl, if_false,
          hdigit, if_true, h, ok_bind]
        rfl
    | string h => exact bind_eq_ok.mpr ⟨_, h, rfl⟩
    | array h => exact bind_eq_ok.mpr ⟨_, h, rfl⟩
    | object h => exact bind_eq_ok.mpr ⟨_, h, rfl⟩

/-! ## No reader goes back -/

/-- What a reader leaves is not longer than what it was given. -/
def Forward (reader : Reader α) : Prop :=
  ∀ ⦃s a rest⦄, reader s = .ok (a, rest) → rest.length ≤ s.length

theorem length_skipSpace_le (s : List Char) : (skipSpace s).length ≤ s.length :=
  (List.dropWhile_suffix isSpace).length_le

theorem length_of_skipSpace_eq {c : Char} (h : skipSpace s = c :: r) : r.length < s.length := by
  have hle := length_skipSpace_le s
  rw [h, List.length_cons] at hle
  omega

theorem length_readWord_le {word : List Char} (h : readWord word s = .ok rest) :
    rest.length ≤ s.length := by
  induction word generalizing s with
  | nil => cases h; exact Nat.le_refl _
  | cons w word ih =>
      cases s with
      | nil => simp [readWord] at h
      | cons c s =>
          rw [readWord] at h
          split_ifs at h
          · exact Nat.le_succ_of_le (ih h)
          · simp at h

theorem forward_readQuad : Forward readQuad := by
  intro s n rest h
  unfold readQuad failQuad at h
  split at h
  · split at h
    · cases h
      simp only [List.length_cons]
      omega
    · split_ifs at h
      simp at h
  · split_ifs at h
    simp at h

/-- What stands after a backslash: a letter, a number, or the two numbers of a pair. -/
inductive EscapeForm : List Char → List Char → Prop
  | letter {c x s} : c ≠ 'u' → letterEscape? c = some x → EscapeForm (c :: s) s
  | code {n s rest} : readQuad s = .ok (n, rest) → EscapeForm ('u' :: s) rest
  | pair {n trail s s' rest} :
      readQuad s = .ok (n, '\\' :: 'u' :: s') → readQuad s' = .ok (trail, rest) →
      EscapeForm ('u' :: s) rest

theorem readSecondHalf_eq_ok {lead : Nat} {s rest : List Char} {c : Char}
    (h : readSecondHalf lead s = .ok (c, rest)) :
    ∃ trail s', s = '\\' :: 'u' :: s' ∧ readQuad s' = .ok (trail, rest) := by
  unfold readSecondHalf at h
  split at h
  · simp at h
  · obtain ⟨⟨trail, s'⟩, hquad, h⟩ := bind_eq_ok.mp h
    simp only at h
    split_ifs at h
    · obtain ⟨-, rfl⟩ := Prod.mk.inj (Except.ok.inj h)
      exact ⟨trail, _, rfl, hquad⟩
    · simp at h
  · simp at h
  · simp at h
  · simp at h

theorem escapeForm_of_readEscape {s rest : List Char} {c : Char}
    (h : readEscape s = .ok (c, rest)) : EscapeForm s rest := by
  unfold readEscape at h
  split at h
  · simp at h
  · obtain ⟨⟨n, s'⟩, hquad, h⟩ := bind_eq_ok.mp h
    simp only at h
    split_ifs at h
    · simp at h
    · obtain ⟨trail, s'', rfl, hquad'⟩ := readSecondHalf_eq_ok h
      exact .pair hquad hquad'
    · obtain ⟨-, rfl⟩ := Prod.mk.inj (Except.ok.inj h)
      exact .code hquad
  · next hu =>
      split at h
      · next hletter =>
          cases h
          exact .letter hu hletter
      · simp at h

theorem forward_readEscape : Forward readEscape := by
  intro s c rest h
  cases escapeForm_of_readEscape h with
  | letter _ _ => exact Nat.le_succ _
  | code hquad =>
      have hle := forward_readQuad hquad
      rw [List.length_cons]
      omega
  | pair hquad hquad' =>
      have hle := forward_readQuad hquad
      have hle' := forward_readQuad hquad'
      simp only [List.length_cons] at hle ⊢
      omega

theorem forward_readTextLoop (n : Nat) : Forward (readTextLoop n) := by
  intro s cs rest h
  fun_induction readTextLoop n s generalizing cs rest with
  | case1 => simp at h
  | case2 => simp at h
  | case3 =>
      cases h
      exact Nat.le_succ _
  | case4 n s ih =>
      obtain ⟨⟨c, s₁⟩, hescape, h⟩ := bind_eq_ok.mp h
      obtain ⟨⟨cs, s₂⟩, hloop, h⟩ := bind_eq_ok.mp h
      cases h
      exact Nat.le_succ_of_le (Nat.le_trans (ih _ hloop) (forward_readEscape hescape))
  | case5 => simp at h
  | case6 n c s _ _ _ ih =>
      obtain ⟨⟨cs, s₂⟩, hloop, h⟩ := bind_eq_ok.mp h
      cases h
      exact Nat.le_succ_of_le (ih hloop)

theorem forward_readText (size : Nat) : Forward (readText size) := by
  intro s t rest h
  obtain ⟨⟨cs, s'⟩, hloop, h⟩ := bind_eq_ok.mp h
  cases h
  exact forward_readTextLoop size hloop

theorem length_afterDigits_le (s : List Char) : (afterDigits s).length ≤ s.length :=
  (List.dropWhile_suffix isDigit).length_le

theorem forward_readWhole (atEnd : Fault) : Forward (readWhole atEnd) := by
  intro s whole rest h
  unfold readWhole at h
  split at h
  · simp at h
  · split_ifs at h
    · cases h
      exact Nat.le_succ _
    · simp at h
    · cases h
      exact length_afterDigits_le _
    · simp at h

theorem forward_readFraction (atEnd : Fault) : Forward (readFraction atEnd) := by
  intro s fraction rest h
  unfold readFraction at h
  split at h
  · split_ifs at h
    · simp at h
    · simp at h
    · cases h
      exact Nat.le_succ_of_le (length_afterDigits_le _)
  · cases h
    exact Nat.le_refl _

theorem forward_readExponentDigits (atEnd : Fault) (negative : Bool) :
    Forward (readExponentDigits atEnd negative) := by
  intro s exponent rest h
  unfold readExponentDigits at h
  split_ifs at h
  · simp at h
  · simp at h
  · cases h
    exact length_afterDigits_le _

theorem forward_readExponent (atEnd : Fault) : Forward (readExponent atEnd) := by
  intro s exponent rest h
  unfold readExponent at h
  split at h
  · split_ifs at h
    · split at h
      · exact Nat.le_succ_of_le (Nat.le_succ_of_le (forward_readExponentDigits atEnd _ h))
      · exact Nat.le_succ_of_le (Nat.le_succ_of_le (forward_readExponentDigits atEnd _ h))
      · exact Nat.le_succ_of_le (forward_readExponentDigits atEnd _ h)
    · cases h
      exact Nat.le_refl _
  · cases h
    exact Nat.le_refl _

/-- A number that is read has its three parts one after the other. -/
theorem parts_of_readNumber {negative : Bool} {n : Number}
    (h : readNumber negative s = .ok (n, rest)) :
    ∃ whole s₁ fraction s₂ exponent, readWhole (.unfinished .value) s = .ok (whole, s₁) ∧
      readFraction (.unfinished .value) s₁ = .ok (fraction, s₂) ∧
      readExponent (.unfinished .value) s₂ = .ok (exponent, rest) := by
  obtain ⟨⟨p, s'⟩, hspelling, h⟩ := bind_eq_ok.mp h
  obtain ⟨⟨whole, s₁⟩, hwhole, hspelling⟩ := bind_eq_ok.mp hspelling
  obtain ⟨⟨fraction, s₂⟩, hfraction, hspelling⟩ := bind_eq_ok.mp hspelling
  obtain ⟨⟨exponent, s₃⟩, hexponent, hspelling⟩ := bind_eq_ok.mp hspelling
  cases hspelling
  simp only at h
  split at h
  · cases h
    exact ⟨whole, s₁, fraction, s₂, exponent, hwhole, hfraction, hexponent⟩
  · simp at h

theorem forward_readNumber (negative : Bool) : Forward (readNumber negative) := by
  intro s n rest h
  obtain ⟨_, _, _, _, _, hwhole, hfraction, hexponent⟩ := parts_of_readNumber h
  exact Nat.le_trans (forward_readExponent _ hexponent)
    (Nat.le_trans (forward_readFraction _ hfraction) (forward_readWhole _ hwhole))

/-! ## Punctuation -/

/-- There is a first character, and it does not close the container. -/
def Opens (close : Char) (s : List Char) : Prop :=
  s.head?.any (· ≠ close) = true

@[simp]
theorem opens_cons {close c : Char} : Opens close (c :: s) ↔ c ≠ close := by
  simp [Opens]

@[simp]
theorem not_opens_nil {close : Char} : ¬Opens close [] := by
  simp [Opens]

theorem closeList_eq_ok : closeList s = .ok rest ↔ skipSpace s = ']' :: rest := by
  unfold closeList
  split
  · next h => simp [h]
  · next h => simp [h]
  · next h => split <;> simp [h]
  · next h _ => simpa using h rest

theorem closeObject_eq_ok : closeObject s = .ok rest ↔ skipSpace s = '\x7d' :: rest := by
  unfold closeObject
  split
  · next h => simp [h]
  · next h => simp [h]
  · next h => simp [h]
  · next h _ => simpa using h rest

theorem readColon_eq_ok : readColon s = .ok rest ↔ skipSpace s = ':' :: rest := by
  unfold readColon
  split
  · next h => simp [h]
  · next h => simp [h]
  · next h => simpa using h rest

theorem nextItem_eq_none {first : Bool} :
    nextItem first s = .ok none ↔ ∃ r, skipSpace s = ']' :: r := by
  unfold nextItem
  split
  · next h => simp [h]
  · next h => simp [h]
  · next c t hc h =>
      simp only [h, List.cons.injEq, show ¬c = ']' from hc, false_and, exists_false, iff_false]
      split_ifs
      · simp
      · split <;> simp
      · simp

theorem nextItem_first :
    nextItem true s = .ok (some r) ↔ skipSpace s = r ∧ Opens ']' (skipSpace s) := by
  unfold nextItem
  split
  · next h => simp [h]
  · next h => simp [h]
  · next c t hc h => simpa [h] using fun _ => hc

theorem nextItem_later : nextItem false s = .ok (some r) ↔
    ∃ t, skipSpace s = ',' :: t ∧ skipSpace t = r ∧ Opens ']' (skipSpace t) := by
  unfold nextItem
  split
  · next h => simp [h]
  · next h => simp [h]
  · next c t _ h =>
      simp only [h, List.cons.injEq, Bool.false_eq_true, if_false]
      split_ifs with hcomma
      · split
        · next h' => simp [h', hcomma]
        · next h' => simp [h', hcomma]
        · next hnil hclose =>
          rcases h' : skipSpace t with _ | ⟨c', t'⟩
          · exact absurd h' hnil
          · have hc' : c' ≠ ']' := fun heq => hclose t' (heq ▸ h')
            simp [hcomma, h', hc']
      · simp [hcomma]

theorem nextKey_eq_none {first : Bool} :
    nextKey first s = .ok none ↔ ∃ r, skipSpace s = '\x7d' :: r := by
  unfold nextKey
  split
  · next h => simp [h]
  · next h => simp [h]
  · next c t hc h =>
      simp only [h, List.cons.injEq, show ¬c = '\x7d' from hc, false_and, exists_false, iff_false]
      split_ifs
      · simp
      · simp
      · split <;> simp
      · simp

theorem nextKey_first : nextKey true s = .ok (some r) ↔ skipSpace s = '"' :: r := by
  unfold nextKey
  split
  · next h => simp [h]
  · next h => simp [h]
  · next c t _ h =>
      simp only [h, if_true, List.cons.injEq]
      split_ifs with hquote
      · simp [hquote]
      · simp [hquote]

theorem nextKey_later :
    nextKey false s = .ok (some r) ↔ ∃ t, skipSpace s = ',' :: t ∧ skipSpace t = '"' :: r := by
  unfold nextKey
  split
  · next h => simp [h]
  · next h => simp [h]
  · next c t _ h =>
      simp only [h, List.cons.injEq, Bool.false_eq_true, if_false]
      split_ifs with hcomma
      · split
        · next h' => simp [h', hcomma]
        · next h' => simp [h', hcomma]
        · next h' => simp [h', hcomma]
        · next hquote _ => simpa [hcomma] using hquote r
      · simp [hcomma]

theorem length_nextItem_le {first : Bool} (h : nextItem first s = .ok (some r)) :
    r.length ≤ s.length := by
  cases first with
  | true =>
      obtain ⟨rfl, -⟩ := nextItem_first.mp h
      exact length_skipSpace_le s
  | false =>
      obtain ⟨t, hcomma, rfl, -⟩ := nextItem_later.mp h
      have := length_of_skipSpace_eq hcomma
      have := length_skipSpace_le t
      omega

theorem length_nextKey_le {first : Bool} (h : nextKey first s = .ok (some r)) :
    r.length ≤ s.length := by
  cases first with
  | true => exact Nat.le_of_lt (length_of_skipSpace_eq (nextKey_first.mp h))
  | false =>
      obtain ⟨t, hcomma, hquote⟩ := nextKey_later.mp h
      have := length_of_skipSpace_eq hcomma
      have := length_of_skipSpace_eq hquote
      omega

theorem ItemsForm.length_le {item : Reader α} (hitem : Forward item) {n : Nat}
    {first : Bool} {xs : List α} (h : ItemsForm item n first s xs rest) :
    rest.length ≤ s.length := by
  induction h with
  | nil _ hclose => exact Nat.le_of_lt (length_of_skipSpace_eq (closeList_eq_ok.mp hclose))
  | cons hnext hx _ ih =>
      have hnext := length_nextItem_le hnext
      have hx := hitem hx
      omega

theorem length_readColon_lt {size : Nat} {key : String} {s' : List Char}
    (hkey : readText size s = .ok (key, s')) (hcolon : readColon s' = .ok rest) :
    rest.length < s.length :=
  Nat.lt_of_lt_of_le (length_of_skipSpace_eq (readColon_eq_ok.mp hcolon))
    (forward_readText size hkey)

theorem PairsForm.length_le {size : Nat} {value : Reader α} (hvalue : Forward value) {n : Nat}
    {first : Bool} {ps : List (String × α)} (h : PairsForm size value n first s ps rest) :
    rest.length ≤ s.length := by
  induction h with
  | nil _ hclose => exact Nat.le_of_lt (length_of_skipSpace_eq (closeObject_eq_ok.mp hclose))
  | cons hnext hkey hcolon hx _ ih =>
      have hnext := length_nextKey_le hnext
      have hcolon := length_readColon_lt hkey hcolon
      have hx := hvalue hx
      omega

theorem ValueForm.length_le {size levels : Nat} {v : Value}
    (inner : ∀ l < levels, Forward (readValue size l)) (h : ValueForm size levels s v rest) :
    rest.length ≤ s.length := by
  cases h with
  | null h => exact Nat.le_succ_of_le (length_readWord_le h)
  | yes h => exact Nat.le_succ_of_le (length_readWord_le h)
  | no h => exact Nat.le_succ_of_le (length_readWord_le h)
  | minus h => exact Nat.le_succ_of_le (forward_readNumber true h)
  | digit _ h => exact forward_readNumber false h
  | string h => exact Nat.le_succ_of_le (forward_readText size h)
  | array h =>
      have hitems := readItemsLoop_eq_ok.mp h
      exact Nat.le_succ_of_le (hitems.length_le (inner _ (Nat.lt_succ_self _)))
  | object h =>
      have hpairs := readPairsLoop_eq_ok.mp h
      exact Nat.le_succ_of_le (hpairs.length_le (inner _ (Nat.lt_succ_self _)))

theorem forward_readValue (size levels : Nat) : Forward (readValue size levels) := by
  induction levels using Nat.strongRecOn with
  | ind levels ih =>
      exact fun s _ _ h =>
        Nat.le_trans ((readValue_eq_ok.mp h).length_le ih) (length_skipSpace_le s)

end BlockBot.Json
