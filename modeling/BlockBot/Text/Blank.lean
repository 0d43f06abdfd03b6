/-!
# Blank characters

The characters that count as white space in field values, and the three operations on texts that
depend on them: testing a text for blankness, trimming it, and cutting it into words. The class is
the Unicode property `White_Space`, which has 25 members; line breaks and the no-break spaces belong
to it, joiners do not.
-/

namespace BlockBot.Text

/-- Membership in the Unicode property `White_Space`. -/
def isBlank (c : Char) : Bool :=
  let n := c.toNat
  (9 ≤ n && n ≤ 13) || n == 0x20 || n == 0x85 || n == 0xA0 || n == 0x1680
    || (0x2000 ≤ n && n ≤ 0x200A) || n == 0x2028 || n == 0x2029 || n == 0x202F ||
      n == 0x205F || n == 0x3000

/-- A text is blank when it has no other characters than blanks; the empty text is blank. -/
def isBlankText (s : String) : Bool :=
  s.toList.all isBlank

/-- Removes the blanks at the end of a list of characters. -/
def dropBlankEnd (cs : List Char) : List Char :=
  (cs.reverse.dropWhile isBlank).reverse

/-- The text without the blanks at its two ends. -/
def trim (s : String) : String :=
  String.ofList (dropBlankEnd (s.toList.dropWhile isBlank))

/-- Cuts a list of characters at its blanks; `word` is the word being read, last character first. -/
def wordsAux (word : List Char) : List Char → List (List Char)
  | [] => if word.isEmpty then [] else [word.reverse]
  | c :: cs =>
    if isBlank c then
      if word.isEmpty then wordsAux [] cs else word.reverse :: wordsAux [] cs
    else wordsAux (c :: word) cs

/-- The maximal blank-free pieces of a text, in order. -/
def words (s : String) : List String :=
  (wordsAux [] s.toList).map String.ofList

end BlockBot.Text
