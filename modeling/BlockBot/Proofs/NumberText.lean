import BlockBot.Decimal.Numeral
import BlockBot.Json.Value
import BlockBot.Proofs.ShortestDecimal

/-!
# Texts of numbers

A number token is an optional minus, digits without a zero in front, an optional point with more
digits, and an optional exponent; it spells a sign, digits and a decimal exponent. Every number is
written as such a token. The token of a whole number spells that number. The token of a binary
number spells its shortest decimal, whichever layout is used, and has a point or an exponent, which
a whole number never has. So a number can be told from its text.
-/

namespace BlockBot.Decimal

/-! ## Number tokens -/

/-- Reads digits without a zero in front, an optional point with digits, and an optional
exponent. -/
def decimalOf? (cs : List Char) : Option (Nat × Int) :=
  let (whole, frac, r) := splitMantissa cs
  if whole.isEmpty || (whole.length != 1 && whole.head? == some '0') then none
  else (exponentOf? r).map fun e => (appendDigits 0 (whole ++ frac), e - frac.length)

/-- Reads a number token: whether it has a minus, and its digits and exponent. -/
def numeralOf? : List Char → Option (Bool × Nat × Int)
  | '-' :: cs => (decimalOf? cs).map fun p => (true, p)
  | cs => (decimalOf? cs).map fun p => (false, p)

/-- The characters of number tokens. -/
def isNumeralChar (c : Char) : Bool :=
  isDigit c || c == '-' || c == '+' || c == '.' || c == 'e' || c == 'E'

/-- Digits that may stand before a point: at least one, and no zero in front of others. -/
structure IsWhole (ds : List Char) : Prop where
  digits : ∀ c ∈ ds, isDigit c = true
  ne_nil : ds ≠ []
  head : ds.length = 1 ∨ ds.head? ≠ some '0'

/-- What may stand after digits. -/
def EndsDigits (cs : List Char) : Prop :=
  ∀ c ∈ cs.head?, isDigit c = false

section
variable {p : Char → Bool} {cs rest : List Char}

theorem takeWhile_of_ends (hcs : ∀ c ∈ cs, p c = true) (hrest : ∀ c ∈ rest.head?, p c = false) :
    (cs ++ rest).takeWhile p = cs := by
  rw [List.takeWhile_append_of_pos hcs]
  cases rest with
  | nil => simp
  | cons c rest => simp [hrest c rfl]

theorem dropWhile_of_ends (hcs : ∀ c ∈ cs, p c = true) (hrest : ∀ c ∈ rest.head?, p c = false) :
    (cs ++ rest).dropWhile p = rest := by
  rw [List.dropWhile_append_of_pos hcs]
  cases rest with
  | nil => rfl
  | cons c rest => simp [hrest c rfl]

end

theorem IsWhole.accepted {whole : List Char} (h : IsWhole whole) :
    (whole.isEmpty || (whole.length != 1 && whole.head? == some '0')) = false := by
  have hne : whole.isEmpty = false := by simpa using h.ne_nil
  rcases h.head with hone | hhead
  · simp [hne, hone]
  · simp [hne, hhead]

/-- A token with a point. -/
theorem decimalOf?_point {whole frac tail : List Char} {e : Int} (hwhole : IsWhole whole)
    (hfrac : ∀ c ∈ frac, isDigit c = true) (htail : EndsDigits tail)
    (he : exponentOf? tail = some e) :
    decimalOf? (whole ++ '.' :: (frac ++ tail)) = some (appendDigits 0 (whole ++ frac),
      e - frac.length) := by
  have hpoint : EndsDigits ('.' :: (frac ++ tail)) := by
    intro c hc
    obtain rfl : '.' = c := by simpa using hc
    rfl
  have hsplit : splitMantissa (whole ++ '.' :: (frac ++ tail)) = (whole, frac, tail) := by
    simp only [splitMantissa, takeWhile_of_ends hwhole.digits hpoint,
      dropWhile_of_ends hwhole.digits hpoint, takeWhile_of_ends hfrac htail,
      dropWhile_of_ends hfrac htail]
  simp only [decimalOf?, hsplit, hwhole.accepted, Bool.false_eq_true, if_false, he, Option.map_some]

/-- A token without a point. -/
theorem decimalOf?_whole {whole tail : List Char} {e : Int} (hwhole : IsWhole whole)
    (htail : EndsDigits tail) (hpoint : tail.head? ≠ some '.') (he : exponentOf? tail = some e) :
    decimalOf? (whole ++ tail) = some (appendDigits 0 whole, e) := by
  have hsplit : splitMantissa (whole ++ tail) = (whole, [], tail) := by
    simp only [splitMantissa, takeWhile_of_ends hwhole.digits htail,
      dropWhile_of_ends hwhole.digits htail]
    split
    · simp at hpoint
    · rfl
  simp [decimalOf?, hsplit, hwhole.accepted, he]

theorem decimalOf?_minus (cs : List Char) : decimalOf? ('-' :: cs) = none := by
  rfl

theorem numeralOf?_of_decimal {cs : List Char} {p : Nat × Int} (h : decimalOf? cs = some p) :
    numeralOf? cs = some (false, p) := by
  unfold numeralOf?
  split
  · rw [decimalOf?_minus] at h
    cases h
  · rw [h, Option.map_some]

/-! ## The alphabet of tokens -/

theorem isNumeralChar_of_isDigit {c : Char} (h : isDigit c = true) : isNumeralChar c = true := by
  simp [isNumeralChar, h]

theorem isNumeralChar_of_splitSign {cs : List Char} (h : (splitSign cs).2.all isDigit = true) :
    ∀ c ∈ cs, isNumeralChar c = true := by
  have hdigit : ∀ c ∈ (splitSign cs).2, isNumeralChar c = true :=
    fun c hc => isNumeralChar_of_isDigit (List.all_eq_true.mp h c hc)
  unfold splitSign at hdigit
  split at hdigit
  · exact List.forall_mem_cons.mpr ⟨rfl, hdigit⟩
  · exact List.forall_mem_cons.mpr ⟨rfl, hdigit⟩
  · exact hdigit

theorem isNumeralChar_of_exponentOf? {cs : List Char} {e : Int} (h : exponentOf? cs = some e) :
    ∀ c ∈ cs, isNumeralChar c = true := by
  cases cs with
  | nil => simp
  | cons c cs =>
      simp only [exponentOf?, Option.ite_none_right_eq_some, Bool.and_eq_true, Bool.or_eq_true,
        decide_eq_true_eq] at h
      obtain ⟨⟨⟨hletter, -⟩, hdigits⟩, -⟩ := h
      refine List.forall_mem_cons.mpr ⟨?_, isNumeralChar_of_splitSign hdigits⟩
      rcases hletter with rfl | rfl <;> rfl

theorem isNumeralChar_of_splitMantissa {cs : List Char}
    (h : ∀ c ∈ (splitMantissa cs).2.2, isNumeralChar c = true) :
    ∀ c ∈ cs, isNumeralChar c = true := by
  have hdigits : ∀ ds : List Char, ∀ c ∈ ds.takeWhile isDigit, isNumeralChar c = true :=
    fun ds c hc => isNumeralChar_of_isDigit (List.all_eq_true.mp List.all_takeWhile c hc)
  have hrest : ∀ c ∈ cs.dropWhile isDigit, isNumeralChar c = true := by
    simp only [splitMantissa] at h
    split at h
    · next r hr =>
        rw [hr, ← List.takeWhile_append_dropWhile (p := isDigit) (l := r)]
        exact List.forall_mem_cons.mpr ⟨rfl, List.forall_mem_append.mpr ⟨hdigits r, h⟩⟩
    · exact h
  rw [← List.takeWhile_append_dropWhile (p := isDigit) (l := cs)]
  exact List.forall_mem_append.mpr ⟨hdigits cs, hrest⟩

theorem isNumeralChar_of_decimalOf? {cs : List Char} {p : Nat × Int} (h : decimalOf? cs = some p) :
    ∀ c ∈ cs, isNumeralChar c = true := by
  unfold decimalOf? at h
  simp only at h
  split at h
  · cases h
  · obtain ⟨e, he, -⟩ := Option.map_eq_some_iff.mp h
    exact isNumeralChar_of_splitMantissa (isNumeralChar_of_exponentOf? he)

/-- Tokens have no other characters. -/
theorem isNumeralChar_of_numeralOf? {cs : List Char} {p : Bool × Nat × Int}
    (h : numeralOf? cs = some p) : ∀ c ∈ cs, isNumeralChar c = true := by
  unfold numeralOf? at h
  split at h
  · obtain ⟨q, hq, -⟩ := Option.map_eq_some_iff.mp h
    exact List.forall_mem_cons.mpr ⟨rfl, isNumeralChar_of_decimalOf? hq⟩
  · obtain ⟨q, hq, -⟩ := Option.map_eq_some_iff.mp h
    exact isNumeralChar_of_decimalOf? hq

/-! ## Digits of numbers -/

theorem isDigit_of_mem_toDigits {c : Char} {n : Nat} (h : c ∈ Nat.toDigits 10 n) :
    isDigit c = true :=
  Nat.isDigit_of_mem_toDigits (by decide) (by decide) h

theorem appendDigits_toDigits (n : Nat) : appendDigits 0 (Nat.toDigits 10 n) = n :=
  Nat.ofDigitChars_ten_toDigits

theorem appendDigits_append (n : Nat) (cs ds : List Char) :
    appendDigits n (cs ++ ds) = appendDigits (appendDigits n cs) ds :=
  List.foldl_append

theorem appendDigits_zeros (n k : Nat) : appendDigits n (List.replicate k '0') = n * 10 ^ k := by
  induction k generalizing n with
  | zero => simp [appendDigits]
  | succ k ih =>
      have hstep : appendDigits n (List.replicate (k + 1) '0') =
        appendDigits (10 * n) (List.replicate k '0') := rfl
      rw [hstep, ih, pow_succ]
      ring

theorem head?_toDigits {n : Nat} (h : 0 < n) : (Nat.toDigits 10 n).head? ≠ some '0' := by
  induction n using Nat.strongRecOn with
  | ind n ih =>
      rw [Nat.toDigits_eq_if (by decide)]
      split
      · next hlt =>
          have hdigit : ∀ k < 10, 0 < k → k.digitChar ≠ '0' := by decide
          simpa using hdigit n hlt h
      · have hrest := ih (n / 10) (by omega) (by omega)
        rwa [List.head?_append_of_ne_nil _ Nat.toDigits_ne_nil]

theorem isWhole_toDigits (n : Nat) : IsWhole (Nat.toDigits 10 n) := by
  refine ⟨fun c hc => isDigit_of_mem_toDigits hc, Nat.toDigits_ne_nil, ?_⟩
  rcases Nat.eq_zero_or_pos n with rfl | hn
  · exact .inl rfl
  · exact .inr (head?_toDigits hn)

theorem isDigit_of_mem_zeros {c : Char} {k : Nat} (h : c ∈ List.replicate k '0') :
    isDigit c = true := by
  rw [List.eq_of_mem_replicate h]
  rfl

/-! ## Layouts -/

theorem endsDigits_nil : EndsDigits [] := by
  intro c hc
  cases hc

/-- A token with a point and no exponent has the value of all its digits, in units of the last
one. -/
theorem decimalOf?_fixed (whole frac : List Char) {c : Nat} {e : Int} (hwhole : IsWhole whole)
    (hfrac : ∀ d ∈ frac, isDigit d = true)
    (hvalue : (appendDigits 0 (whole ++ frac) : ℚ) = c * 10 ^ (e + frac.length)) :
    ∃ p, decimalOf? (whole ++ '.' :: frac) = some p ∧ decimalValue p = decimalValue (c, e) := by
  have hread := decimalOf?_point hwhole hfrac endsDigits_nil (e := 0) rfl
  rw [List.append_nil] at hread
  refine ⟨_, hread, ?_⟩
  rw [decimalValue, decimalValue, hvalue, mul_assoc, ← zpow_add₀ (by norm_num)]
  simp

/-- All digits stand after the point, and zeros before them. -/
theorem decimalOf?_leadingZeros (c k : Nat) :
    ∃ p, decimalOf? ('0' :: '.' :: (List.replicate k '0' ++ Nat.toDigits 10 c)) = some p ∧
      decimalValue p = decimalValue (c, -(k + (Nat.toDigits 10 c).length : Nat)) := by
  refine decimalOf?_fixed ['0'] _ ⟨by simp [isDigit], by simp, .inl rfl⟩ ?_ ?_
  · intro d hd
    rcases List.mem_append.mp hd with hd | hd
    · exact isDigit_of_mem_zeros hd
    · exact isDigit_of_mem_toDigits hd
  · have hzeros : appendDigits 0 (['0'] ++ List.replicate k '0') = 0 := by
      rw [appendDigits_append, appendDigits_zeros]
      exact Nat.zero_mul _
    rw [← List.append_assoc, appendDigits_append, hzeros, appendDigits_toDigits, List.length_append,
      List.length_replicate, neg_add_cancel, zpow_zero, mul_one]

/-- All digits stand before the point, and zeros after them. -/
theorem decimalOf?_trailingZeros (c k : Nat) (hzero : c = 0 → k = 0) :
    ∃ p, decimalOf? (Nat.toDigits 10 c ++ List.replicate k '0' ++ ['.', '0']) = some p ∧
      decimalValue p = decimalValue (c, k) := by
  have hwhole := isWhole_toDigits c
  refine decimalOf?_fixed _ ['0'] ⟨?_, by simp [hwhole.ne_nil], ?_⟩ (by simp [isDigit]) ?_
  · intro d hd
    rcases List.mem_append.mp hd with hd | hd
    · exact hwhole.digits d hd
    · exact isDigit_of_mem_zeros hd
  · by_cases hc : c = 0
    · obtain rfl := hzero hc
      simpa using hwhole.head
    · rw [List.head?_append_of_ne_nil _ hwhole.ne_nil]
      exact .inr (head?_toDigits (Nat.pos_of_ne_zero hc))
  · have hdigits : appendDigits 0 (Nat.toDigits 10 c ++ List.replicate k '0' ++ ['0']) =
        c * 10 ^ k * 10 := by
      rw [appendDigits_append, appendDigits_append, appendDigits_toDigits, appendDigits_zeros]
      exact appendDigits_zeros _ 1
    rw [hdigits, List.length_singleton, Nat.cast_one, zpow_add_one₀ (by norm_num), zpow_natCast]
    push_cast
    ring

/-- The point stands between the digits. -/
theorem decimalOf?_innerPoint {c n : Nat} (hpos : 0 < n) (hlt : n < (Nat.toDigits 10 c).length) :
    ∃ p, decimalOf? ((Nat.toDigits 10 c).take n ++ '.' :: (Nat.toDigits 10 c).drop n) = some p ∧
      decimalValue p = decimalValue (c, n - (Nat.toDigits 10 c).length) := by
  have hwhole := isWhole_toDigits c
  have hc : 0 < c := by
    rcases Nat.eq_zero_or_pos c with rfl | hc
    · rw [Nat.toDigits_zero, List.length_singleton] at hlt
      omega
    · exact hc
  refine decimalOf?_fixed _ _ ⟨?_, ?_, ?_⟩ ?_ ?_
  · exact fun d hd => hwhole.digits d (List.mem_of_mem_take hd)
  · simp [hwhole.ne_nil, hpos.ne']
  · rw [List.head?_take, if_neg hpos.ne']
    exact .inr (head?_toDigits hc)
  · exact fun d hd => hwhole.digits d (List.mem_of_mem_drop hd)
  · have hexponent :
        (n : Int) - (Nat.toDigits 10 c).length + ((Nat.toDigits 10 c).drop n).length = 0 := by
      rw [List.length_drop]
      omega
    rw [hexponent, List.take_append_drop, appendDigits_toDigits, zpow_zero, mul_one]

theorem decimalOf?_positional {c : Nat} {e : Int} (hzero : c = 0 → e = 0) :
    ∃ p, decimalOf? (positional (Nat.toDigits 10 c) ((Nat.toDigits 10 c).length + e)) = some p ∧
      decimalValue p = decimalValue (c, e) := by
  unfold positional
  split
  · next hsmall =>
      obtain ⟨p, hp, hvalue⟩ := decimalOf?_leadingZeros c (-((Nat.toDigits 10 c).length + e)).toNat
      refine ⟨p, hp, hvalue.trans ?_⟩
      congr 2
      omega
  · split
    · next hlarge =>
        obtain ⟨p, hp, hvalue⟩ := decimalOf?_trailingZeros c
          (((Nat.toDigits 10 c).length + e).toNat - (Nat.toDigits 10 c).length)
          (fun hc => by rw [hzero hc]; omega)
        refine ⟨p, hp, hvalue.trans ?_⟩
        congr 2
        omega
    · next hsmall hlarge =>
        obtain ⟨p, hp, hvalue⟩ :=
          decimalOf?_innerPoint (c := c) (n := ((Nat.toDigits 10 c).length + e).toNat)
          (by omega) (by omega)
        refine ⟨p, hp, hvalue.trans ?_⟩
        congr 2
        omega

theorem exponentOf?_sign {cs ds : List Char} {negative : Bool}
    (hsign : splitSign cs = (negative, ds)) (hds : IsWhole ds) :
    exponentOf? ('e' :: cs) =
      some (if negative then -(appendDigits 0 ds : Int) else appendDigits 0 ds) := by
  have hall : ds.all isDigit = true := List.all_eq_true.mpr hds.digits
  have hne : ds.isEmpty = false := by simpa using hds.ne_nil
  simp [exponentOf?, hsign, hall, hne]

/-- Digits do not start with a sign. -/
theorem splitSign_digits {ds : List Char} (h : ∀ c ∈ ds, isDigit c = true) :
    splitSign ds = (false, ds) := by
  unfold splitSign
  split
  · exact absurd (h '-' List.mem_cons_self) (by decide)
  · exact absurd (h '+' List.mem_cons_self) (by decide)
  · rfl

/-- The exponent of a number in scientific notation. -/
def exponentChars (f : Format) (exponent : Int) : List Char :=
  'e' :: (if exponent < 0 then ['-'] else if f.plusSign then ['+'] else []) ++
    Nat.toDigits 10 exponent.natAbs

theorem scientific_cons (f : Format) (d : Char) (ds : List Char) (exponent : Int) :
    scientific f (d :: ds) exponent = (if ds.isEmpty then [d] else d :: '.' :: ds) ++
      exponentChars f exponent := by
  simp [scientific, exponentChars]

theorem exponentOf?_exponentChars (f : Format) (exponent : Int) :
    exponentOf? (exponentChars f exponent) = some exponent := by
  have hwhole := isWhole_toDigits exponent.natAbs
  have hvalue := appendDigits_toDigits exponent.natAbs
  unfold exponentChars
  by_cases hneg : exponent < 0
  · have hsign : splitSign ('-' :: Nat.toDigits 10 exponent.natAbs) =
      (true, Nat.toDigits 10 exponent.natAbs) := rfl
    have hnegative : -(exponent.natAbs : Int) = exponent := by omega
    rw [if_pos hneg, List.cons_append, List.singleton_append, exponentOf?_sign hsign hwhole,
      hvalue, if_pos rfl, hnegative]
  · rw [if_neg hneg]
    have hnonneg : (exponent.natAbs : Int) = exponent := by omega
    cases f.plusSign with
    | true =>
        have hsign : splitSign ('+' :: Nat.toDigits 10 exponent.natAbs) =
          (false, Nat.toDigits 10 exponent.natAbs) := rfl
        rw [if_pos rfl, List.cons_append, List.singleton_append, exponentOf?_sign hsign hwhole,
          hvalue, if_neg Bool.false_ne_true, hnonneg]
    | false =>
        have hsign := splitSign_digits hwhole.digits
        rw [if_neg Bool.false_ne_true, List.cons_append, List.nil_append,
          exponentOf?_sign hsign hwhole, hvalue, if_neg Bool.false_ne_true, hnonneg]

theorem endsDigits_exponentChars (f : Format) (exponent : Int) :
    EndsDigits (exponentChars f exponent) := by
  intro c hc
  obtain rfl : 'e' = c := by simpa [exponentChars] using hc
  rfl

theorem decimalOf?_scientific (f : Format) (c : Nat) (e : Int) :
    decimalOf? (scientific f (Nat.toDigits 10 c) ((Nat.toDigits 10 c).length - 1 + e)) =
      some (c, e) := by
  have hvalue := appendDigits_toDigits c
  have hdigits := (isWhole_toDigits c).digits
  cases hds : Nat.toDigits 10 c with
  | nil => exact absurd hds Nat.toDigits_ne_nil
  | cons d ds =>
      rw [hds] at hvalue hdigits
      have hwhole : IsWhole [d] :=
        ⟨fun x hx => hdigits x (List.mem_cons.mpr (.inl (List.mem_singleton.mp hx))),
        by simp, .inl rfl⟩
      have hexponent : ((d :: ds).length : Int) - 1 + e = ds.length + e := by simp
      rw [hexponent, scientific_cons]
      cases ds with
      | nil =>
          have hread :=
            decimalOf?_whole hwhole (endsDigits_exponentChars f e) (by simp [exponentChars])
            (exponentOf?_exponentChars f e)
          rw [hvalue] at hread
          simpa using hread
      | cons d' ds =>
          have hread := decimalOf?_point hwhole (fun x hx => hdigits x (List.mem_cons_of_mem d hx))
            (endsDigits_exponentChars f _) (exponentOf?_exponentChars f ((d' :: ds).length + e))
          rw [add_sub_cancel_left] at hread
          exact hread.trans (congrArg (fun n => some (n, e)) hvalue)

/-! ## Binary numbers -/

/-- The text of a number without its sign. -/
def Format.magnitude (f : Format) (x : Binary64) : List Char :=
  let (c, e) := shortest f.tie x
  let digits := Nat.toDigits 10 c
  let lead : Int := (digits.length : Int) - 1 + e
  if leastPositional ≤ lead ∧ lead < firstScientific then positional digits (lead + 1)
  else scientific f digits lead

theorem Format.chars_eq (f : Format) (x : Binary64) :
    f.chars x = if x.negative then '-' :: f.magnitude x else f.magnitude x :=
  rfl

/-- The digits of a shortest decimal are zero for the two zeros only, which have no exponent. -/
theorem shortest_eq_zero {tie : Tie} {x : Binary64} (h : (shortest tie x).1 = 0) :
    (shortest tie x).2 = 0 := by
  cases hx : x.isZero with
  | true => simp [shortest, hx]
  | false =>
      have hpos := Window.pos_of_contains hx (shortest_contains tie hx)
      simp [decimalValue, h] at hpos

/-- The text of a magnitude spells its shortest decimal. -/
theorem decimalOf?_magnitude (f : Format) (x : Binary64) :
    ∃ p, decimalOf? (f.magnitude x) = some p ∧
      decimalValue p = decimalValue (shortest f.tie x) := by
  have hzero : (shortest f.tie x).1 = 0 → (shortest f.tie x).2 = 0 := shortest_eq_zero
  unfold Format.magnitude
  generalize shortest f.tie x = decimal at hzero
  obtain ⟨c, e⟩ := decimal
  simp only at hzero ⊢
  split
  · have hpoint : ((Nat.toDigits 10 c).length : Int) - 1 + e + 1 =
      (Nat.toDigits 10 c).length + e := by omega
    rw [hpoint]
    exact decimalOf?_positional hzero
  · exact ⟨_, decimalOf?_scientific f c e, rfl⟩

/-- A binary number is not written like a whole one. -/
theorem mark_mem_magnitude (f : Format) (x : Binary64) :
    '.' ∈ f.magnitude x ∨ 'e' ∈ f.magnitude x := by
  simp only [Format.magnitude]
  split
  · left
    unfold positional
    split
    · simp
    · split <;> simp
  · right
    simp [scientific]

end BlockBot.Decimal

namespace BlockBot.Json

open BlockBot.Decimal

/-! ## Numbers of documents -/

theorem numeralOf?_intChars (n : Int) :
    numeralOf? (intChars n) = some (decide (n < 0), n.natAbs, 0) := by
  have hread : decimalOf? (natChars n.natAbs) = some (n.natAbs, 0) := by
    have h := decimalOf?_whole (isWhole_toDigits n.natAbs) endsDigits_nil (by simp) (e := 0) rfl
    rwa [List.append_nil, appendDigits_toDigits] at h
  unfold intChars
  by_cases hneg : n < 0
  · simp [hneg, numeralOf?, hread]
  · simp [hneg, numeralOf?_of_decimal hread]

theorem numeralOf?_real (f : Format) (x : Binary64) :
    ∃ p, numeralOf? (f.chars x) = some (x.negative, p) ∧
      decimalValue p = decimalValue (shortest f.tie x) := by
  obtain ⟨p, hread, hvalue⟩ := decimalOf?_magnitude f x
  refine ⟨p, ?_, hvalue⟩
  rw [Format.chars_eq]
  cases x.negative with
  | true => simp [numeralOf?, hread]
  | false => simp [numeralOf?_of_decimal hread]

/-- Every number is written as a number token. -/
theorem Number.numeralOf?_chars (n : Number) : (numeralOf? n.chars).isSome = true := by
  cases n with
  | whole n => simp [chars, numeralOf?_intChars]
  | real x =>
      obtain ⟨p, hread, -⟩ := numeralOf?_real .document x
      simp [chars, hread]

theorem mark_not_mem_intChars (n : Int) : '.' ∉ intChars n ∧ 'e' ∉ intChars n := by
  have hdigits : ∀ c ∈ natChars n.natAbs, isDigit c = true := fun c hc => isDigit_of_mem_toDigits hc
  have hpoint : '.' ∉ natChars n.natAbs := fun h => absurd (hdigits _ h) (by decide)
  have hletter : 'e' ∉ natChars n.natAbs := fun h => absurd (hdigits _ h) (by decide)
  unfold intChars
  split <;> simp [hpoint, hletter]

theorem mark_mem_chars (f : Format) (x : Binary64) : '.' ∈ f.chars x ∨ 'e' ∈ f.chars x := by
  rw [Format.chars_eq]
  split
  · exact (mark_mem_magnitude f x).imp (List.mem_cons_of_mem _) (List.mem_cons_of_mem _)
  · exact mark_mem_magnitude f x

theorem Whole.eq_of_chars_eq {m n : Whole} (h : intChars m.val = intChars n.val) : m = n := by
  have hread := congrArg numeralOf? h
  rw [numeralOf?_intChars, numeralOf?_intChars] at hread
  simp only [Option.some.injEq, Prod.mk.injEq, decide_eq_decide, and_true] at hread
  obtain ⟨m, _, _⟩ := m
  obtain ⟨n, _, _⟩ := n
  simp only [Whole.mk.injEq]
  simp only at hread
  omega

theorem real_eq_of_chars_eq {f : Format} {x y : Binary64} (h : f.chars x = f.chars y) : x = y := by
  obtain ⟨p, hx, hvaluex⟩ := numeralOf?_real f x
  obtain ⟨q, hy, hvaluey⟩ := numeralOf?_real f y
  have hread := congrArg numeralOf? h
  rw [hx, hy] at hread
  simp only [Option.some.injEq, Prod.mk.injEq] at hread
  obtain ⟨hsign, rfl⟩ := hread
  obtain ⟨hexponent, hfraction⟩ := eq_of_decimalValue_eq f.tie (hvaluex.symm.trans hvaluey)
  obtain ⟨_, _, _⟩ := x
  obtain ⟨_, _, _⟩ := y
  simp only at hsign hexponent hfraction
  rw [hsign, hexponent, hfraction]

/-- Different numbers have different texts. -/
theorem Number.chars_injective {m n : Number} (h : m.chars = n.chars) : m = n := by
  have hdiffer : ∀ (k : Whole) (x : Binary64), Number.chars (.whole k) ≠
      Number.chars (.real x) := by
    intro k x hsame
    obtain ⟨hpoint, hletter⟩ := mark_not_mem_intChars k.val
    rw [chars, chars] at hsame
    rw [hsame] at hpoint hletter
    rcases mark_mem_chars .document x with hmark | hmark
    · exact hpoint hmark
    · exact hletter hmark
  cases m with
  | whole m =>
      cases n with
      | whole n => rw [Whole.eq_of_chars_eq h]
      | real y => exact absurd h (hdiffer m y)
  | real x =>
      cases n with
      | whole n => exact absurd h.symm (hdiffer n x)
      | real y => rw [real_eq_of_chars_eq h]

end BlockBot.Json
