import BlockBot.Proofs.Emission
import Mathlib.Tactic.SplitIfs

/-!
# Texts without line feeds

What a document says reaches a program in a quoted text, in a number or in an identifier. None of
them has a line feed, whatever the document says: quoting escapes it, numbers are made of digits,
and identifiers of letters, digits and underscores. Hence every line that a block says is one line,
and so is every guard. Only the condition of a branch, which may be an expression of the author's
own, is not covered.
-/

namespace BlockBot

open BlockBot.Json BlockBot.Code BlockBot.Text BlockBot.Decimal

/-- A text without a line feed. -/
def OneLine (text : String) : Prop :=
  '\n' ∉ text.toList

theorem OneLine.of_chars {cs : List Char} (h : '\n' ∉ cs) : OneLine (String.ofList cs) := by
  unfold OneLine
  rwa [String.toList_ofList]

theorem OneLine.append {a b : String} (ha : OneLine a) (hb : OneLine b) : OneLine (a ++ b) := by
  unfold OneLine at *
  rw [String.toList_append, List.mem_append]
  exact not_or.mpr ⟨ha, hb⟩

/-! ## Numbers -/

theorem newline_not_mem_toDigits {base : Nat} (hbase : 1 < base) (n : Nat) :
    '\n' ∉ Nat.toDigits base n := by
  induction n using Nat.strongRecOn with
  | ind n ih =>
      rw [Nat.toDigits_eq_if hbase]
      by_cases hn : n < base
      · simp [hn]
      · have hquotient : '\n' ∉ Nat.toDigits base (n / base) :=
          ih (n / base) (Nat.div_lt_self (by omega) hbase)
        simp [hn, hquotient]

theorem oneLine_natText (n : Nat) : OneLine (natText n) :=
  .of_chars (newline_not_mem_toDigits (by decide) n)

theorem newline_not_mem_positional {digits : List Char} (h : '\n' ∉ digits) (point : Int) :
    '\n' ∉ positional digits point := by
  have htake : '\n' ∉ digits.take point.toNat := fun hmem => h (List.mem_of_mem_take hmem)
  have hdrop : '\n' ∉ digits.drop point.toNat := fun hmem => h (List.mem_of_mem_drop hmem)
  unfold positional
  split_ifs <;> simp [h, htake, hdrop]

theorem newline_not_mem_scientific (f : Format) {digits : List Char} (h : '\n' ∉ digits)
    (exponent : Int) : '\n' ∉ scientific f digits exponent := by
  have hsign :
      '\n' ∉ 'e' :: (if exponent < 0 then ['-'] else if f.plusSign then ['+'] else []) := by
    split_ifs <;> decide
  have hexponent : '\n' ∉ Nat.toDigits 10 exponent.natAbs := newline_not_mem_toDigits (by decide) _
  cases digits with
  | nil => exact List.not_mem_append (List.not_mem_append h hsign) hexponent
  | cons d ds =>
      have hmantissa : '\n' ∉ if ds.isEmpty then [d] else d :: '.' :: ds := by
        rw [List.mem_cons, not_or] at h
        split_ifs
        · simpa using h.1
        · simpa using h
      exact List.not_mem_append (List.not_mem_append hmantissa hsign) hexponent

theorem newline_not_mem_format (f : Format) (x : Binary64) : '\n' ∉ f.chars x := by
  have hdigits : '\n' ∉ Nat.toDigits 10 (shortest f.tie x).1 :=
    newline_not_mem_toDigits (by decide) _
  have hmagnitude : ∀ lead : Int, '\n' ∉
      if leastPositional ≤ lead ∧ lead < firstScientific then
        positional (Nat.toDigits 10 (shortest f.tie x).1) (lead + 1)
      else scientific f (Nat.toDigits 10 (shortest f.tie x).1) lead := by
    intro lead
    split_ifs
    · exact newline_not_mem_positional hdigits _
    · exact newline_not_mem_scientific f hdigits _
  unfold Format.chars
  cases x.negative with
  | true => exact List.not_mem_cons_of_ne_of_not_mem (by decide) (hmagnitude _)
  | false => exact hmagnitude _

theorem newline_not_mem_number (n : Number) : '\n' ∉ n.chars := by
  cases n with
  | whole n =>
      have hdigits : '\n' ∉ natChars n.val.natAbs := newline_not_mem_toDigits (by decide) _
      rw [Number.chars, intChars]
      split_ifs
      · exact List.not_mem_cons_of_ne_of_not_mem (by decide) hdigits
      · exact hdigits
  | real x => exact newline_not_mem_format .document x

theorem oneLine_seconds (millis : Nat) : OneLine (seconds millis) := by
  have hempty : OneLine "" := .of_chars (by decide)
  unfold seconds
  split
  · next m thousand _ _ =>
      cases m.div thousand with
      | none => exact hempty
      | some x => exact .of_chars (newline_not_mem_format .duration x)
  · exact hempty

/-! ## Literals and identifiers -/

theorem newline_not_mem_escapeChar (c : Char) : '\n' ∉ escapeChar c := by
  have hdigit : ∀ n < 16, hexDigit n ≠ '\n' := by decide
  unfold escapeChar
  -- a line feed has a letter of its own; what is left are the other control characters, and
  -- characters that are kept
  split_ifs with _ _ _ _ hfeed _ _ hcontrol
  any_goals decide
  · have hhigh := hdigit (c.toNat / 16) (by omega)
    have hlow := hdigit (c.toNat % 16) (by omega)
    simp only [List.mem_cons, List.not_mem_nil, or_false, not_or]
    exact ⟨by decide, by decide, by decide, by decide, hhigh.symm, hlow.symm⟩
  · exact fun hmem => hfeed (List.mem_singleton.mp hmem).symm

theorem newline_not_mem_quoteChars (s : String) : '\n' ∉ quoteChars s := by
  have hescape : '\n' ∉ escape s.toList := by
    simp [escape, newline_not_mem_escapeChar]
  simp [quoteChars, hescape]

theorem oneLine_quote (s : String) : OneLine (quote s) :=
  .of_chars (newline_not_mem_quoteChars s)

mutual

/-- Nothing that a document can hold brings a line feed into a program. -/
theorem newline_not_mem_literalChars : ∀ v : Value, '\n' ∉ literalChars v
  | .null => by decide
  | .bool b => by cases b <;> decide
  | .number n => newline_not_mem_number n
  | .string s => newline_not_mem_quoteChars s
  | .array items => by
      rw [literalChars]
      exact List.not_mem_append (List.not_mem_cons_of_ne_of_not_mem (by decide)
        (newline_not_mem_itemLiterals items)) (by decide)
  | .object members => by
      rw [literalChars]
      exact List.not_mem_append (List.not_mem_cons_of_ne_of_not_mem (by decide)
        (newline_not_mem_memberLiterals members)) (by decide)

theorem newline_not_mem_itemLiterals : ∀ items : List Value, '\n' ∉ itemLiterals items
  | [] => List.not_mem_nil
  | [v] => newline_not_mem_literalChars v
  | v :: w :: items => by
      have hv := newline_not_mem_literalChars v
      have hitems := newline_not_mem_itemLiterals (w :: items)
      simp only [itemLiterals, List.mem_append, List.mem_cons, not_or]
      exact ⟨hv, by decide, by decide, hitems⟩

theorem newline_not_mem_memberLiterals :
    ∀ members : List (String × Value), '\n' ∉ memberLiterals members
  | [] => List.not_mem_nil
  | [(k, v)] => by
      have hk := newline_not_mem_quoteChars k
      have hv := newline_not_mem_literalChars v
      simp only [memberLiterals, List.mem_append, List.mem_cons, not_or]
      exact ⟨hk, by decide, by decide, hv⟩
  | (k, v) :: m :: members => by
      have hk := newline_not_mem_quoteChars k
      have hv := newline_not_mem_literalChars v
      have hmembers := newline_not_mem_memberLiterals (m :: members)
      simp only [memberLiterals, List.mem_append, List.mem_cons, not_or]
      exact ⟨⟨hk, by decide, by decide, hv⟩, by decide, by decide, hmembers⟩

end

theorem oneLine_literal (v : Value) : OneLine (literal v) :=
  .of_chars (newline_not_mem_literalChars v)

theorem oneLine_ident (name : String) : OneLine (ident name) := by
  have hhex : ∀ n, '\n' ∉ fourHexDigits n := by
    intro n
    simp [fourHexDigits, newline_not_mem_toDigits]
  have hchar : ∀ c, '\n' ∉ identChars c := by
    intro c
    unfold identChars
    split_ifs with hplain
    · rw [List.mem_singleton]
      rintro rfl
      exact absurd hplain (by decide)
    · decide
    · simp [hhex]
  refine .of_chars (List.not_mem_append (by decide) fun hmem => ?_)
  obtain ⟨c, -, hc⟩ := List.mem_flatMap.mp hmem
  exact hchar c hc

/-! ## Lines of blocks -/

theorem oneLine_flexContents (contents : Option Value) : OneLine (flexContents contents) := by
  unfold flexContents
  split
  · exact .of_chars (by decide)
  · exact ((OneLine.of_chars (by decide)).append (oneLine_quote _)).append (.of_chars (by decide))
  · exact oneLine_literal _

theorem oneLine_replyMessage (kind : ReplyKind) (data : Fields) (options : Options) :
    OneLine (replyMessage kind data options) := by
  cases kind with
  | text =>
      exact ((OneLine.of_chars (by decide)).append (oneLine_quote _)).append (.of_chars (by decide))
  | image =>
      exact ((((OneLine.of_chars (by decide)).append (oneLine_quote _)).append
        (.of_chars (by decide))).append (oneLine_quote _)).append (.of_chars (by decide))
  | flex =>
      exact ((((OneLine.of_chars (by decide)).append (oneLine_quote _)).append
        (.of_chars (by decide))).append (oneLine_flexContents _)).append (.of_chars (by decide))
  | sticker =>
      exact ((((OneLine.of_chars (by decide)).append (oneLine_quote _)).append
        (.of_chars (by decide))).append (oneLine_quote _)).append (.of_chars (by decide))

/-- What a block says is one line, whatever texts its data contain. -/
theorem Says.oneLine {b : Block} {s t : Session} {text : String} (h : Says b s text t) :
    OneLine text := by
  cases h with
  | reply _ =>
      exact ((OneLine.of_chars (by decide)).append (oneLine_replyMessage _ _ _)).append
        (.of_chars (by decide))
  | @setVariable _ data _ _ _ =>
      refine (((OneLine.of_chars (by decide)).append (oneLine_quote _)).append
        (.of_chars (by decide))).append ?_
      cases takesMessage data with
      | true => exact .of_chars (by decide)
      | false => exact oneLine_literal _
  | @getVariable _ data _ s _ =>
      refine ((((oneLine_ident _).append (.of_chars (by decide))).append
        (oneLine_quote _)).append ?_).append (.of_chars (by decide))
      cases fallback? data s with
      | none => exact .of_chars (by decide)
      | some v => exact (OneLine.of_chars (by decide)).append (oneLine_literal v)
  | saveUserData _ =>
      exact ((OneLine.of_chars (by decide)).append (oneLine_quote _)).append (.of_chars (by decide))
  | wait _ =>
      exact ((OneLine.of_chars (by decide)).append (oneLine_seconds _)).append
        (.of_chars (by decide))

theorem oneLine_loopHeader (count : Nat) : OneLine (loopHeader count) :=
  ((OneLine.of_chars (by decide)).append (oneLine_natText count)).append (.of_chars (by decide))

theorem oneLine_ifHeader {condition : String} (h : OneLine condition) :
    OneLine (ifHeader condition) :=
  ((OneLine.of_chars (by decide)).append h).append (.of_chars (by decide))

/-! ## Lines of handlers -/

theorem oneLine_patternGuard (pattern : String) (mode : MatchMode) (caseSensitive : Bool) :
    OneLine (patternGuard pattern mode caseSensitive) := by
  have hpattern := oneLine_quote pattern
  cases mode with
  | contains =>
      cases caseSensitive <;> exact hpattern.append (.of_chars (by decide))
  | exact =>
      cases caseSensitive with
      | true => exact (OneLine.of_chars (by decide)).append hpattern
      | false =>
          exact ((OneLine.of_chars (by decide)).append hpattern).append (.of_chars (by decide))
  | startsWith | endsWith | regex =>
      cases caseSensitive <;>
        exact ((OneLine.of_chars (by decide)).append hpattern).append (.of_chars (by decide))

theorem oneLine_guardOf {trigger : Trigger} {data : Fields} {s : Session} {condition : String}
    (h : condition ∈ (Handler.guardOf trigger data s).1) : OneLine condition := by
  unfold Handler.guardOf at h
  split at h
  · split at h
    · obtain rfl := Option.mem_some_iff.mp h
      exact oneLine_patternGuard _ _ _
    · simp at h
  · obtain ⟨payload, -, rfl⟩ := Option.map_eq_some_iff.mp h
    exact (OneLine.of_chars (by decide)).append (oneLine_quote payload)
  · simp at h

theorem oneLine_tag (t : Trigger) : OneLine t.tag := by
  cases t <;> exact .of_chars (by decide)

theorem oneLine_triggerIdent (t : Trigger) : OneLine t.ident := by
  refine .of_chars ?_
  rw [List.mem_map]
  rintro ⟨c, hc, heq⟩
  split_ifs at heq
  · exact absurd heq (by decide)
  · exact oneLine_tag t (heq ▸ hc)

theorem Handler.oneLine_headLines (h : Handler) : ∀ line ∈ h.headLines, OneLine line := by
  have hname : OneLine h.functionName :=
    (((OneLine.of_chars (by decide)).append (oneLine_triggerIdent _)).append
      (.of_chars (by decide))).append
      (oneLine_natText _)
  unfold Handler.headLines
  simp only [List.forall_mem_cons]
  exact ⟨(((OneLine.of_chars (by decide)).append (oneLine_natText _)).append
    (.of_chars (by decide))).append
      (oneLine_tag _),
    ((OneLine.of_chars (by decide)).append (oneLine_tag _)).append (.of_chars (by decide)),
    ((OneLine.of_chars (by decide)).append hname).append (.of_chars (by decide)), by simp⟩

end BlockBot
