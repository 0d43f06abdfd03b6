import BlockBot.Json.Entries
import Mathlib.Data.String.Basic

/-!
# Entries by their keys

What is found under a key after an entry was put in or left out, and in which order entries may be
put in.
-/

namespace BlockBot.Entries

variable {α : Type}

theorem get?_insert_self (key : String) (value : α) (es : Entries α) :
    get? key (insert key value es) = some value := by
  induction es with
  | nil => simp [insert, get?]
  | cons e es ih =>
      obtain ⟨k, v⟩ := e
      rw [insert]
      split_ifs with heq hlt
      · simp [get?]
      · simp [get?]
      · rw [get?, if_neg (Ne.symm heq), ih]

theorem get?_insert_of_ne {key other : String} (h : key ≠ other) (value : α) (es : Entries α) :
    get? other (insert key value es) = get? other es := by
  induction es with
  | nil => simp [insert, get?, h]
  | cons e es ih =>
      obtain ⟨k, v⟩ := e
      rw [insert]
      split_ifs with heq hlt
      · rw [get?, get?, if_neg h, if_neg (heq ▸ h)]
      · rw [get?, if_neg h]
      · rw [get?, get?, ih]

theorem get?_filter_ne (name other : String) (es : Entries α) :
    get? other (es.filter (·.1 ≠ name)) = if other = name then none else get? other es := by
  induction es with
  | nil => simp [get?]
  | cons e es ih =>
      obtain ⟨k, v⟩ := e
      by_cases hk : k = name
      · rw [List.filter_cons_of_neg (by simpa using hk), ih]
        by_cases hother : other = name
        · simp [hother]
        · simp [hother, get?, hk, Ne.symm hother]
      · rw [List.filter_cons_of_pos (by simpa using hk), get?, get?, ih]
        by_cases hother : other = name
        · simp [hother, hk]
        · simp [hother]

/-- An entry whose key is below all others is put in front. -/
theorem insertNew_of_sorted {key : String} {value : α} {es : Entries α}
    (h : Sorted ((key, value) :: es)) : insertNew key value es = (key, value) :: es := by
  cases es with
  | nil => rfl
  | cons e es =>
      have hlt : key < e.1 := (List.pairwise_cons.mp h).1 e List.mem_cons_self
      rw [insertNew, if_neg (ne_of_lt hlt), if_pos hlt]

/-- Entries with different keys can be put in either order. -/
theorem insertNew_comm {key key' : String} (hne : key ≠ key') (x y : α) (es : Entries α) :
    insertNew key x (insertNew key' y es) = insertNew key' y (insertNew key x es) := by
  have hlt : key < key' ∨ key' < key := lt_or_gt_of_ne hne
  -- at each entry the two keys are compared with its own, and then with each other
  induction es with
  | nil => grind [insertNew, String.lt_asymm]
  | cons e es ih => grind [insertNew]

end BlockBot.Entries
