import BlockBot.Proofs.Accepted
import Mathlib.Data.List.DropRight

/-!
# Skipping

Skipping a value ends where reading it ends. Skipping checks less, but it is not the same walk: a
pair of surrogates is read in one round and skipped in two, and the levels of a value are counted
down from another number. Both numbers are above what is needed as long as they are above the number
of characters left.
-/

namespace BlockBot.Json

open BlockBot.Decimal

variable {α : Type} {s rest : List Char}

theorem skipSpace_idem (s : List Char) : skipSpace (skipSpace s) = skipSpace s :=
  List.dropWhile_idempotent isSpace s

/-- An escape is skipped as one; a pair of surrogates, which is read as one, is skipped as two. -/
theorem skipEscape_of_readEscape {c : Char} (h : readEscape s = .ok (c, rest)) :
    skipEscape s = .ok rest ∨
      ∃ s₁, skipEscape s = .ok ('\\' :: s₁) ∧ skipEscape s₁ = .ok rest ∧
        rest.length < s.length := by
  cases escapeForm_of_readEscape h with
  | letter hu hletter =>
      refine .inl ?_
      unfold skipEscape
      split
      · next heq => simp at heq
      · next heq => exact absurd (List.cons.inj heq).1 hu
      · next heq =>
          cases heq
          simp [hletter]
  | code hquad => exact .inl (bind_eq_ok.mpr ⟨_, hquad, rfl⟩)
  | pair hquad hquad' =>
      have hle := forward_readQuad hquad
      have hle' := forward_readQuad hquad'
      simp only [List.length_cons] at hle
      refine .inr ⟨_, bind_eq_ok.mpr ⟨_, hquad, rfl⟩, bind_eq_ok.mpr ⟨_, hquad', rfl⟩, ?_⟩
      rw [List.length_cons]
      omega

theorem skipTextLoop_escape (m : Nat) (s : List Char) :
    skipTextLoop (m + 1) ('\\' :: s) = skipEscape s >>= skipTextLoop m := rfl

/-- Skipping a text goes where reading it goes, in at most as many rounds as there are
characters. -/
theorem skipTextLoop_of_readTextLoop {n : Nat} {cs : List Char}
    (h : readTextLoop n s = .ok (cs, rest)) {m : Nat} (hm : s.length < m) :
    skipTextLoop m s = .ok rest := by
  fun_induction readTextLoop n s generalizing cs rest m with
  | case1 => simp at h
  | case2 => simp at h
  | case3 =>
      obtain ⟨m, rfl⟩ := Nat.exists_eq_add_one_of_ne_zero (Nat.ne_zero_of_lt hm)
      cases h
      rfl
  | case4 n s ih =>
      obtain ⟨⟨c, s₁⟩, hescape, h⟩ := bind_eq_ok.mp h
      obtain ⟨⟨cs, s₂⟩, hloop, h⟩ := bind_eq_ok.mp h
      cases h
      have hle := forward_readEscape hescape
      rw [List.length_cons] at hm
      -- one round, or two for a pair of surrogates
      obtain ⟨m, rfl⟩ := Nat.exists_eq_add_one_of_ne_zero (Nat.ne_zero_of_lt hm)
      rcases skipEscape_of_readEscape hescape with hskip | ⟨s', hskip, hskip', hlt⟩
      · rw [skipTextLoop_escape, hskip, ok_bind]
        exact ih _ hloop (by omega)
      · obtain ⟨m, rfl⟩ := Nat.exists_eq_add_one_of_ne_zero (show m ≠ 0 by omega)
        rw [skipTextLoop_escape, hskip, ok_bind, skipTextLoop_escape, hskip', ok_bind]
        exact ih _ hloop (by omega)
  | case5 => simp at h
  | case6 n c s hquote hback hcontrol ih =>
      obtain ⟨⟨cs, s₂⟩, hloop, h⟩ := bind_eq_ok.mp h
      cases h
      rw [List.length_cons] at hm
      obtain ⟨m, rfl⟩ := Nat.exists_eq_add_one_of_ne_zero (Nat.ne_zero_of_lt hm)
      rw [skipTextLoop, if_neg hcontrol]
      · exact ih hloop (by omega)
      · exact hquote
      · exact hback

theorem skipText_of_readText {size : Nat} {t : String} (h : readText size s = .ok (t, rest))
    (hs : s.length < size) : skipText size s = .ok rest := by
  obtain ⟨⟨cs, s'⟩, hloop, h⟩ := bind_eq_ok.mp h
  cases h
  exact skipTextLoop_of_readTextLoop hloop hs

theorem readWhole_atEnd {atEnd : Fault} (atEnd' : Fault) {digits : List Char}
    (h : readWhole atEnd s = .ok (digits, rest)) : readWhole atEnd' s = .ok (digits, rest) := by
  cases s with
  | nil => simp [readWhole] at h
  | cons c s => exact h

theorem readFraction_atEnd {atEnd : Fault} (atEnd' : Fault) {digits : List Char}
    (h : readFraction atEnd s = .ok (digits, rest)) :
    readFraction atEnd' s = .ok (digits, rest) := by
  unfold readFraction at h ⊢
  split at h
  · split_ifs at h ⊢ with hdigits
    · simp at h
    · simp at h
    · exact h
  · exact h

theorem readExponentDigits_atEnd {atEnd : Fault} (atEnd' : Fault) {negative : Bool}
    {e : Option (Bool × List Char)} (h : readExponentDigits atEnd negative s = .ok (e, rest)) :
    readExponentDigits atEnd' negative s = .ok (e, rest) := by
  unfold readExponentDigits at h ⊢
  split_ifs at h ⊢ with hdigits
  · simp at h
  · simp at h
  · exact h

theorem readExponent_atEnd {atEnd : Fault} (atEnd' : Fault) {e : Option (Bool × List Char)}
    (h : readExponent atEnd s = .ok (e, rest)) : readExponent atEnd' s = .ok (e, rest) := by
  unfold readExponent at h ⊢
  split at h
  · split_ifs at h ⊢
    · split at h
      · exact readExponentDigits_atEnd atEnd' h
      · exact readExponentDigits_atEnd atEnd' h
      · exact readExponentDigits_atEnd atEnd' h
    · exact h
  · exact h

theorem skipNumber_of_readNumber {negative : Bool} {n : Number}
    (h : readNumber negative s = .ok (n, rest)) : skipNumber s = .ok rest := by
  obtain ⟨_, _, _, _, _, hwhole, hfraction, hexponent⟩ := parts_of_readNumber h
  simp only [skipNumber, readSpelling, readWhole_atEnd .badNumber hwhole,
    readFraction_atEnd .badNumber hfraction, readExponent_atEnd .badNumber hexponent, ok_bind]
  rfl

section Containers

variable {size bound : Nat} {item : Reader α} {skip : List Char → Except Failure (List Char)}
    (hbound : bound < size) (hitem : Forward item)
    (hskip : ∀ ⦃s x rest⦄, s.length ≤ bound → item s = .ok (x, rest) → skip s = .ok rest)

section Lists

variable (hspace : ∀ s, skip (skipSpace s) = skip s)
include hitem hskip hspace

theorem skipItemsLoop_of_form {n m : Nat} {xs : List α} (h : ItemsForm item n false s xs rest)
    (hs : s.length ≤ bound) (hm : n ≤ m) : skipItemsLoop skip m s = .ok rest := by
  generalize hfirst : false = first at h
  induction h generalizing m with
  | nil _ hclose =>
      obtain ⟨m, rfl⟩ := Nat.exists_eq_add_one_of_ne_zero (Nat.ne_zero_of_lt hm)
      simp only [skipItemsLoop, closeList_eq_ok.mp hclose]
  | cons hnext hx hform ih =>
      subst hfirst
      obtain ⟨m, rfl⟩ := Nat.exists_eq_add_one_of_ne_zero (Nat.ne_zero_of_lt hm)
      have hle := length_nextItem_le hnext
      have hle' := hitem hx
      obtain ⟨t, hcomma, rfl, -⟩ := nextItem_later.mp hnext
      simp only [skipItemsLoop, hcomma, ← hspace t, hskip (hle.trans hs) hx, ok_bind]
      exact ih (by omega) (by omega) rfl

theorem skipItems_of_readItems {xs : List α} (h : readItems size item s = .ok (xs, rest))
    (hs : s.length ≤ bound) : skipItems size skip s = .ok rest := by
  have hform : ItemsForm item size true s xs rest := readItemsLoop_eq_ok.mp h
  unfold skipItems
  cases hform with
  | nil _ hclose => simp only [closeList_eq_ok.mp hclose]
  | cons hnext hx hform =>
      have hle := length_nextItem_le hnext
      have hle' := hitem hx
      obtain ⟨rfl, hopens⟩ := nextItem_first.mp hnext
      split
      · next heq => simp [heq] at hopens
      · next heq => simp [heq] at hopens
      · rw [hskip (hle.trans hs) hx, ok_bind]
        exact skipItemsLoop_of_form hitem hskip hspace hform (by omega) (Nat.le_succ _)

end Lists

include hbound hskip

theorem skipMember_of_form {s₁ s₂ s₃ s₄ : List Char} {key : String} {x : α} (hs : s.length ≤ bound)
    (hquote : skipSpace s = '"' :: s₁) (hkey : readText size s₁ = .ok (key, s₂))
    (hcolon : readColon s₂ = .ok s₃) (hx : item s₃ = .ok (x, s₄)) :
    skipMember size skip s = .ok s₄ := by
  have hlt := length_of_skipSpace_eq hquote
  have hlt' := length_readColon_lt hkey hcolon
  simp only [skipMember, hquote, skipText_of_readText hkey (show s₁.length < size by omega),
    ok_bind, hcolon]
  exact hskip (by omega) hx

include hitem

theorem skipMembersLoop_of_form {n m : Nat} {ps : List (String × α)}
    (h : PairsForm size item n false s ps rest) (hs : s.length ≤ bound) (hm : n ≤ m) :
    skipMembersLoop size skip m s = .ok rest := by
  generalize hfirst : false = first at h
  induction h generalizing m with
  | nil _ hclose =>
      obtain ⟨m, rfl⟩ := Nat.exists_eq_add_one_of_ne_zero (Nat.ne_zero_of_lt hm)
      simp only [skipMembersLoop, closeObject_eq_ok.mp hclose]
  | cons hnext hkey hcolon hx hform ih =>
      subst hfirst
      obtain ⟨m, rfl⟩ := Nat.exists_eq_add_one_of_ne_zero (Nat.ne_zero_of_lt hm)
      have hle := length_nextKey_le hnext
      have hlt := length_readColon_lt hkey hcolon
      have hle' := hitem hx
      obtain ⟨t, hcomma, hquote⟩ := nextKey_later.mp hnext
      have hlt' := length_of_skipSpace_eq hcomma
      have hmember := skipMember_of_form hbound hskip (by omega) hquote hkey hcolon hx
      simp only [skipMembersLoop, hcomma, hmember, ok_bind]
      exact ih (by omega) (by omega) rfl

theorem skipMembers_of_readPairs {ps : List (String × α)}
    (h : readPairs size item s = .ok (ps, rest)) (hs : s.length ≤ bound) :
    skipMembers size skip s = .ok rest := by
  -- the number of rounds is a name of its own, so that the form can be taken apart
  obtain ⟨n, hn, hform⟩ : ∃ n ≤ size, PairsForm size item n true s ps rest :=
    ⟨size, Nat.le_refl _, readPairsLoop_eq_ok.mp h⟩
  unfold skipMembers
  cases hform with
  | nil _ hclose => simp only [closeObject_eq_ok.mp hclose]
  | cons hnext hkey hcolon hx hform =>
      have hle := length_nextKey_le hnext
      have hlt := length_readColon_lt hkey hcolon
      have hle' := hitem hx
      have hquote := nextKey_first.mp hnext
      have hmember := skipMember_of_form hbound hskip ((length_skipSpace_le s).trans hs)
        ((skipSpace_idem s).trans hquote) hkey hcolon hx
      split
      · next heq => simp [heq] at hquote
      · next heq => simp [heq] at hquote
      · rw [hmember, ok_bind]
        exact skipMembersLoop_of_form hbound hitem hskip hform (by omega) (by omega)

end Containers

theorem skipValue_skipSpace (size k : Nat) (s : List Char) :
    skipValue size k (skipSpace s) = skipValue size k s := by
  unfold skipValue
  rw [skipSpace_idem]

/-- Skipping a value ends where reading it ends. -/
theorem skipValue_of_readValue {size levels k : Nat} {v : Value}
    (h : readValue size levels s = .ok (v, rest)) (hs : s.length < size) (hk : s.length ≤ k) :
    skipValue size k s = .ok rest := by
  induction levels using Nat.strongRecOn generalizing s v rest k with
  | ind levels ih =>
      have hle := length_skipSpace_le s
      have hform := readValue_eq_ok.mp h
      unfold skipValue
      generalize skipSpace s = cs at hle hform
      cases hform with
      | null h => exact h
      | yes h => exact h
      | no h => exact h
      | minus h => exact skipNumber_of_readNumber h
      | @digit _ c r n _ hdigit h =>
          have hother : ∀ d, isDigit d = false → c ≠ d := fun d => ne_of_isDigit hdigit
          simp only [hother 'n' rfl, hother 't' rfl, hother 'f' rfl, hother '-' rfl, if_false,
            hdigit, if_true]
          exact skipNumber_of_readNumber h
      | string h =>
          exact skipText_of_readText h
            (Nat.lt_of_lt_of_le (Nat.lt_of_succ_le hle) (Nat.le_of_lt hs))
      | @array levels r items _ h =>
          obtain ⟨k, rfl⟩ :=
            Nat.exists_eq_add_one_of_ne_zero (Nat.ne_zero_of_lt (Nat.lt_of_lt_of_le hle hk))
          rw [List.length_cons] at hle
          exact skipItems_of_readItems (forward_readValue size levels)
            (fun s x rest hlen hx => ih levels (Nat.lt_succ_self _) hx (by omega) (by omega))
            (skipValue_skipSpace size k) h (Nat.le_refl _)
      | @object levels r members _ h =>
          obtain ⟨k, rfl⟩ :=
            Nat.exists_eq_add_one_of_ne_zero (Nat.ne_zero_of_lt (Nat.lt_of_lt_of_le hle hk))
          rw [List.length_cons] at hle
          exact skipMembers_of_readPairs (by omega) (forward_readValue size levels)
            (fun s x rest hlen hx => ih levels (Nat.lt_succ_self _) hx (by omega) (by omega))
            h (Nat.le_refl _)

end BlockBot.Json
