import BlockBot.Code.Literal
import BlockBot.Json.Scan
import Mathlib.Data.List.Induction
import Mathlib.Logic.Relation

/-!
# Names that share an identifier

An identifier keeps the letters and digits of a name and spells every character beyond ASCII by its
code point. The spelling has as many hexadecimal digits as it takes, at least four, and no mark at
its end. So a character may *absorb* a hexadecimal digit that follows it: the spelling of the
character with the digit behind it is the spelling of one character with a longer code point. This
is the only way in which two names come to share an identifier, as long as they have no ASCII
punctuation, which is not told apart at all.
-/

namespace BlockBot.Code

open BlockBot.Json

/-- A name of letters, digits and characters beyond ASCII. -/
def Unpunctuated (name : List Char) : Prop :=
  ∀ c ∈ name, isPlain c = true ∨ 128 ≤ c.toNat

theorem Unpunctuated.of_chars {cs : List Char}
    (h : (cs.all fun c => isPlain c || 128 ≤ c.toNat) = true) :
    Unpunctuated (String.ofList cs).toList := by
  rw [String.toList_ofList]
  intro c hc
  simpa using List.all_eq_true.mp h c hc

/-- `Absorbs a b`: the name `b` is the name `a` in which one character has absorbed the hexadecimal
digit after it. -/
inductive Absorbs : List Char → List Char → Prop
  | here {c e : Char} {digit : Nat} {rest : List Char} : 0x1000 ≤ c.toNat → digit < 16 →
      e.toNat = 16 * c.toNat + digit → Absorbs (c :: Nat.digitChar digit :: rest) (e :: rest)
  | later {c : Char} {a b : List Char} : Absorbs a b → Absorbs (c :: a) (c :: b)

/-- Some character of `a` can absorb a digit, and `b` has a character that is spelled with more than
four digits. -/
def Outgrown (a b : List Char) : Prop :=
  (∃ x, Absorbs a x) ∧ ∃ d ∈ b, 0x10000 ≤ d.toNat

/-! ## Code points in hexadecimal -/

theorem length_fourHexDigits (n : Nat) :
    (fourHexDigits n).length = max 4 (Nat.toDigits 16 n).length := by
  simp only [fourHexDigits, List.length_append, List.length_replicate]
  omega

theorem five_le_length_fourHexDigits {n : Nat} : 5 ≤ (fourHexDigits n).length ↔ 0x10000 ≤ n := by
  have hdigits := Nat.length_toDigits_le_iff (b := 16) (n := n) (k := 4) (by decide) (by decide)
  rw [length_fourHexDigits]
  omega

/-- A code point of four digits or more is written without leading zeros. -/
theorem fourHexDigits_of_le {n : Nat} (h : 0x1000 ≤ n) : fourHexDigits n = Nat.toDigits 16 n := by
  have hdigits := Nat.length_toDigits_le_iff (b := 16) (n := n) (k := 3) (by decide) (by decide)
  have hfull : 4 - (Nat.toDigits 16 n).length = 0 := by omega
  simp only [fourHexDigits]
  rw [hfull, List.replicate_zero, List.nil_append]

/-- One more digit after the digits of a number. -/
theorem fourHexDigits_append_digit {n digit : Nat} (hn : 0x1000 ≤ n) (hdigit : digit < 16) :
    fourHexDigits n ++ [Nat.digitChar digit] = fourHexDigits (16 * n + digit) := by
  have hpos : 0 < n := by omega
  have hle : 0x1000 ≤ 16 * n + digit := by omega
  rw [fourHexDigits_of_le hn, fourHexDigits_of_le hle, ← Nat.toDigits_of_lt_base hdigit,
    Nat.toDigits_append_toDigits (by decide) hpos hdigit]

theorem fourHexDigits_of_five {n : Nat} (h : 0x10000 ≤ n) :
    fourHexDigits n = fourHexDigits (n / 16) ++ [Nat.digitChar (n % 16)] := by
  rw [fourHexDigits_append_digit (by omega) (Nat.mod_lt n (by decide)), Nat.div_add_mod]

/-- The number that hexadecimal digits spell. -/
def spelledValue (digits : List Char) : Nat :=
  digits.foldl (fun n c => 16 * n + (hexValue? c).getD 0) 0

theorem spelledValue_digitChar (digits : List Char) {digit : Nat} (h : digit < 16) :
    spelledValue (digits ++ [Nat.digitChar digit]) = 16 * spelledValue digits + digit := by
  have hvalue : ∀ k < 16, (hexValue? (Nat.digitChar k)).getD 0 = k := by decide
  rw [spelledValue, List.foldl_append, List.foldl_cons, List.foldl_nil,
    hvalue digit h, spelledValue]

theorem spelledValue_toDigits (n : Nat) : spelledValue (Nat.toDigits 16 n) = n := by
  induction n using Nat.strongRecOn with
  | ind n ih =>
      rw [Nat.toDigits_eq_if (by decide)]
      split_ifs with hlt
      · exact (spelledValue_digitChar [] hlt).trans (Nat.zero_add n)
      · rw [spelledValue_digitChar _ (Nat.mod_lt n (by decide)), ih (n / 16) (by omega),
          Nat.div_add_mod]

theorem spelledValue_fourHexDigits (n : Nat) : spelledValue (fourHexDigits n) = n := by
  have hzeros : ∀ k, spelledValue (List.replicate k '0') = 0 := by
    intro k
    induction k with
    | zero => rfl
    | succ k ih =>
        rw [List.replicate_succ']
        exact (spelledValue_digitChar (List.replicate k '0') (show 0 < 16 by decide)).trans
          (by rw [ih])
  have hsplit : spelledValue (fourHexDigits n) = spelledValue (Nat.toDigits 16 n) := by
    simp only [fourHexDigits, spelledValue, List.foldl_append]
    rw [← spelledValue, hzeros]
  rw [hsplit, spelledValue_toDigits]

theorem fourHexDigits_injective {m n : Nat} (h : fourHexDigits m = fourHexDigits n) : m = n := by
  rw [← spelledValue_fourHexDigits m, h, spelledValue_fourHexDigits]

/-- What the first five digits or more of a code point spell is a code point of its own. -/
theorem fourHexDigits_take {n : Nat} {digits more : List Char}
    (h : fourHexDigits n = digits ++ more) (hlength : 5 ≤ digits.length) :
    ∃ m, 0x10000 ≤ m ∧ m ≤ n ∧ fourHexDigits m = digits := by
  induction more using List.reverseRec generalizing n with
  | nil =>
      rw [List.append_nil] at h
      exact ⟨n, five_le_length_fourHexDigits.mp (h ▸ hlength), Nat.le_refl n, h⟩
  | append_singleton more last ih =>
      have hfive : 5 ≤ (fourHexDigits n).length := by
        rw [h, List.length_append]
        omega
      rw [fourHexDigits_of_five (five_le_length_fourHexDigits.mp hfive), ← List.append_assoc] at h
      obtain ⟨m, hm, hle, hdigits⟩ := ih (List.append_inj_left' h rfl)
      exact ⟨m, hm, by omega, hdigits⟩

/-- There are no gaps in the code points beyond the first plane. -/
theorem exists_char_of_le {d : Char} {n : Nat} (h : 0x10000 ≤ n) (hle : n ≤ d.toNat) :
    ∃ e : Char, e.toNat = n := by
  have hvalid : n.isValidChar := by
    have hd : d.toNat.isValidChar := d.valid
    unfold Nat.isValidChar at hd ⊢
    omega
  exact ⟨Char.ofNatAux n hvalid, rfl⟩

/-! ## Characters in an identifier -/

theorem isPlain_lt {c : Char} (h : isPlain c = true) : c.toNat < 128 := by
  simp only [isPlain, Bool.or_eq_true, Bool.and_eq_true, decide_eq_true_eq, Char.le_def,
    UInt32.le_iff_toNat_le, Char.toNat_val] at h
  have h9 : '9'.toNat = 57 := rfl
  have hz : 'z'.toNat = 122 := rfl
  have hZ : 'Z'.toNat = 90 := rfl
  omega

theorem isPlain_digitChar : ∀ digit < 16, isPlain (Nat.digitChar digit) = true := by
  decide

theorem identChars_ne_nil (c : Char) : identChars c ≠ [] := by
  unfold identChars
  split_ifs
  all_goals exact List.cons_ne_nil _ _

theorem identChars_of_plain {c : Char} (h : isPlain c = true) : identChars c = [c] :=
  if_pos h

theorem identChars_of_wide {c : Char} (h : 128 ≤ c.toNat) :
    identChars c = '_' :: 'u' :: fourHexDigits c.toNat := by
  have hplain : ¬ isPlain c = true := fun hplain => absurd (isPlain_lt hplain) (by omega)
  rw [identChars, if_neg hplain, if_neg (by omega)]

/-! ## Absorbing a digit -/

namespace Absorbs

variable {a b : List Char}

theorem length_eq (h : Absorbs a b) : a.length = b.length + 1 := by
  induction h with
  | here => rfl
  | later _ ih => rw [List.length_cons, List.length_cons, ih]

theorem unpunctuated (h : Absorbs a b) (ha : Unpunctuated a) : Unpunctuated b := by
  induction h with
  | @here c e digit rest hc _ he =>
      intro x hx
      rcases List.mem_cons.mp hx with rfl | hx
      · exact .inr (by omega)
      · exact ha x (List.mem_cons_of_mem _ (List.mem_cons_of_mem _ hx))
  | later _ ih =>
      intro x hx
      rcases List.mem_cons.mp hx with rfl | hx
      · exact ha x List.mem_cons_self
      · exact ih (fun y hy => ha y (List.mem_cons_of_mem _ hy)) x hx

/-- The identifier does not show whether a digit was absorbed. -/
theorem flatMap_eq (h : Absorbs a b) : a.flatMap identChars = b.flatMap identChars := by
  induction h with
  | @here c e digit rest hc hdigit he =>
      have hwide : identChars c ++ identChars (Nat.digitChar digit) = identChars e := by
        rw [identChars_of_wide (show 128 ≤ c.toNat by omega),
          identChars_of_wide (show 128 ≤ e.toNat by omega),
          identChars_of_plain (isPlain_digitChar digit hdigit), he,
          ← fourHexDigits_append_digit hc hdigit]
        rfl
      rw [List.flatMap_cons, List.flatMap_cons, List.flatMap_cons, ← List.append_assoc, hwide]
  | later _ ih => rw [List.flatMap_cons, List.flatMap_cons, ih]

end Absorbs

/-- A digit at the start of an identifier's characters is the first character of the name. -/
theorem exists_cons_of_flatMap_eq {a cs : List Char} {y : Char} (ha : Unpunctuated a) (hy : y ≠ '_')
    (h : a.flatMap identChars = y :: cs) : ∃ rest, a = y :: rest := by
  cases a with
  | nil => cases h
  | cons c rest =>
      rw [List.flatMap_cons] at h
      rcases ha c List.mem_cons_self with hplain | hwide
      · rw [identChars_of_plain hplain] at h
        cases h
        exact ⟨rest, rfl⟩
      · rw [identChars_of_wide hwide] at h
        cases h
        exact absurd rfl hy

/-- Of two characters that start the same spelling, the one with fewer digits absorbs the digit
after it. -/
theorem outgrown_of_length_lt {c d : Char} {a b : List Char} (ha : Unpunctuated a)
    (h : fourHexDigits c.toNat ++ a.flatMap identChars = fourHexDigits d.toNat ++
      b.flatMap identChars)
    (hlt : (fourHexDigits c.toNat).length < (fourHexDigits d.toNat).length) :
    Outgrown (c :: a) (d :: b) := by
  have hfour : 4 ≤ (fourHexDigits c.toNat).length := by
    rw [length_fourHexDigits]
    omega
  have hd : 0x10000 ≤ d.toNat := five_le_length_fourHexDigits.mp (by omega)
  refine ⟨?_, d, List.mem_cons_self, hd⟩
  rcases List.append_eq_append_iff.mp h with ⟨more, hdigits, hrest⟩ | ⟨more, hdigits, -⟩
  · cases more with
    | nil =>
        rw [hdigits, List.append_nil] at hlt
        exact absurd hlt (Nat.lt_irrefl _)
    | cons y more =>
        -- the digits of `c` with `y` behind them spell a code point `m`
        rw [List.append_cons] at hdigits
        obtain ⟨m, hm, hle, hspelled⟩ := fourHexDigits_take hdigits (by simpa using hfour)
        rw [fourHexDigits_of_five hm] at hspelled
        obtain ⟨hc, hy⟩ := List.append_inj' hspelled rfl
        obtain rfl : Nat.digitChar (m % 16) = y := List.singleton_inj.mp hy
        have hmod : m % 16 < 16 := Nat.mod_lt m (by decide)
        have hcode : m / 16 = c.toNat := fourHexDigits_injective hc
        have hscore : Nat.digitChar (m % 16) ≠ '_' := Nat.digitChar_ne '_' (by decide)
        obtain ⟨rest, rfl⟩ := exists_cons_of_flatMap_eq ha hscore hrest
        obtain ⟨e, he⟩ := exists_char_of_le hm hle
        exact ⟨e :: rest, .here (by omega) hmod (by omega)⟩
  · rw [hdigits, List.length_append] at hlt
    omega

theorem Outgrown.cons {a b : List Char} (h : Outgrown a b) (c d : Char) :
    Outgrown (c :: a) (d :: b) := by
  obtain ⟨⟨x, hx⟩, e, he, hlong⟩ := h
  exact ⟨⟨c :: x, .later hx⟩, e, List.mem_cons_of_mem _ he, hlong⟩

/-- Two names that share an identifier are the same, or a character of one of them can absorb a
digit. -/
theorem eq_or_outgrown {a b : List Char} (ha : Unpunctuated a) (hb : Unpunctuated b)
    (h : a.flatMap identChars = b.flatMap identChars) : a = b ∨ Outgrown a b ∨ Outgrown b a := by
  induction a generalizing b with
  | nil =>
      rw [List.flatMap_nil, eq_comm, List.flatMap_eq_nil_iff] at h
      cases b with
      | nil => exact .inl rfl
      | cons d b => exact absurd (h d List.mem_cons_self) (identChars_ne_nil d)
  | cons c a ih =>
      cases b with
      | nil =>
          rw [List.flatMap_nil, List.flatMap_eq_nil_iff] at h
          exact absurd (h c List.mem_cons_self) (identChars_ne_nil c)
      | cons d b =>
          rw [Unpunctuated, List.forall_mem_cons] at ha hb
          rw [List.flatMap_cons, List.flatMap_cons] at h
          -- with the same first character, it is up to the others
          have hsame : c = d → a.flatMap identChars = b.flatMap identChars →
              c :: a = d :: b ∨ Outgrown (c :: a) (d :: b) ∨ Outgrown (d :: b) (c :: a) := by
            rintro rfl hothers
            rcases ih ha.2 hb.2 hothers with rfl | hout | hout
            · exact .inl rfl
            · exact .inr (.inl (hout.cons c c))
            · exact .inr (.inr (hout.cons c c))
          rcases ha.1 with hc | hc <;> rcases hb.1 with hd | hd
          · rw [identChars_of_plain hc, identChars_of_plain hd] at h
            injection h with hfirst hothers
            exact hsame hfirst hothers
          · rw [identChars_of_plain hc, identChars_of_wide hd] at h
            injection h with hfirst
            exact absurd (hfirst ▸ hc) (by decide)
          · rw [identChars_of_wide hc, identChars_of_plain hd] at h
            injection h with hfirst
            exact absurd (hfirst ▸ hd) (by decide)
          · rw [identChars_of_wide hc, identChars_of_wide hd] at h
            injection h with _ h
            injection h with _ h
            rcases Nat.lt_trichotomy (fourHexDigits c.toNat).length (fourHexDigits d.toNat).length
              with hlt | heq | hlt
            · exact .inr (.inl (outgrown_of_length_lt ha.2 h hlt))
            · obtain ⟨hdigits, hothers⟩ := List.append_inj h heq
              exact hsame (Char.toNat_inj.mp (fourHexDigits_injective hdigits)) hothers
            · exact .inr (.inr (outgrown_of_length_lt hb.2 h.symm hlt))

/-! ## Identifiers -/

theorem ident_eq_iff_flatMap {a b : String} :
    ident a = ident b ↔ a.toList.flatMap identChars = b.toList.flatMap identChars := by
  unfold ident
  rw [String.ofList_inj, List.append_cancel_left_eq]

/-- Names that share an identifier are linked by characters that absorb digits. -/
theorem eqvGen_absorbs {a b : List Char} (ha : Unpunctuated a) (hb : Unpunctuated b)
    (h : a.flatMap identChars = b.flatMap identChars) : Relation.EqvGen Absorbs a b := by
  -- every digit that is absorbed makes one of the names shorter
  induction hlength : a.length + b.length using Nat.strongRecOn generalizing a b with
  | ind k ih =>
      rcases eq_or_outgrown ha hb h with rfl | ⟨⟨x, hx⟩, -⟩ | ⟨⟨x, hx⟩, -⟩
      · exact .refl a
      · have hshorter := hx.length_eq
        exact .trans _ _ _ (.rel _ _ hx)
          (ih _ (by omega) (hx.unpunctuated ha) hb (hx.flatMap_eq.symm.trans h) rfl)
      · have hshorter := hx.length_eq
        exact .trans _ _ _ (ih _ (by omega) ha (hx.unpunctuated hb) (h.trans hx.flatMap_eq) rfl)
          (.symm _ _ (.rel _ _ hx))

theorem flatMap_eq_of_eqvGen {a b : List Char} (h : Relation.EqvGen Absorbs a b) :
    a.flatMap identChars = b.flatMap identChars := by
  induction h with
  | rel a b hstep => exact hstep.flatMap_eq
  | refl a => rfl
  | symm a b _ ih => exact ih.symm
  | trans a b c _ _ ih ih' => exact ih.trans ih'

/-- Names without ASCII punctuation share an identifier exactly if they are linked by characters
that absorb digits. So of two different ones that do, one has a character that can absorb the digit
after it, and the other one a character that takes more than four digits. -/
theorem ident_eq_iff_absorbs {a b : String} (ha : Unpunctuated a.toList)
    (hb : Unpunctuated b.toList) :
    (ident a = ident b ↔ Relation.EqvGen Absorbs a.toList b.toList) ∧
      (a ≠ b → ident a = ident b → Outgrown a.toList b.toList ∨ Outgrown b.toList a.toList) := by
  rw [ident_eq_iff_flatMap]
  refine ⟨⟨eqvGen_absorbs ha hb, flatMap_eq_of_eqvGen⟩, ?_⟩
  intro hne h
  rcases eq_or_outgrown ha hb h with heq | hout
  · exact absurd (String.toList_inj.mp heq) hne
  · exact hout

/-- A digit may be absorbed by a character that has absorbed one already. -/
theorem ident_eq_iff_absorbs_twice :
    let a := String.ofList ['\u1000', '0', '0']
    let b := String.ofList [Char.ofNat 0x100000]
    Unpunctuated a.toList ∧ Unpunctuated b.toList ∧ a ≠ b ∧ ident a = ident b ∧
      Relation.EqvGen Absorbs a.toList b.toList ∧
        (Outgrown a.toList b.toList ∨ Outgrown b.toList a.toList) := by
  intro a b
  have ha : Unpunctuated a.toList := .of_chars (by decide)
  have hb : Unpunctuated b.toList := .of_chars (by decide)
  have hne : a ≠ b := by decide
  have hident : ident a = ident b := ident_eq_iff_flatMap.mpr (by decide)
  obtain ⟨hiff, houtgrown⟩ := ident_eq_iff_absorbs ha hb
  exact ⟨ha, hb, hne, hident, hiff.mp hident, houtgrown hne hident⟩

/-- A letter of the first plane before a zero, and a picture of a later plane, are read into one
variable. -/
theorem ident_shared_by_picture :
    Unpunctuated "ὠ0".toList ∧ Unpunctuated "😀".toList ∧ "ὠ0" ≠ "😀" ∧
      ident "ὠ0" = "var__u1f600" ∧ ident "😀" = "var__u1f600" :=
  ⟨.of_chars (by decide), .of_chars (by decide), by decide, rfl, rfl⟩

end BlockBot.Code
