/-! Blank characters, and what they separate: the words of a text and the text
without its outer blanks. Blank means white space in the sense of Unicode
together with the four information separators of ASCII. -/

namespace FlowGrid

/-- White space: horizontal and vertical controls, the information separators,
and the space characters of Unicode. The zero-width characters are not blank. -/
def isBlank (c : Char) : Bool :=
  let n := c.toNat
  (9 ≤ n && n ≤ 13) || (28 ≤ n && n ≤ 32) || n == 0x85 || n == 0xA0 || n == 0x1680 ||
  (0x2000 ≤ n && n ≤ 0x200A) || n == 0x2028 || n == 0x2029 || n == 0x202F || n == 0x205F ||
  n == 0x3000

namespace Text

/-! ### Words -/

/-- The words of a text that continues the word whose letters, last first, are `word`. -/
def wordsAfter (word : List Char) : List Char → List (List Char)
  | [] => if word.isEmpty then [] else [word.reverse]
  | c :: rest =>
    if isBlank c then
      if word.isEmpty then wordsAfter [] rest else word.reverse :: wordsAfter [] rest
    else wordsAfter (c :: word) rest

/-- The longest runs of a text that hold no blank, in order. -/
def words (s : String) : List String := (wordsAfter [] s.toList).map String.ofList

/-! ### Trimming -/

/-- The characters without the leading and trailing ones that satisfy `p`. -/
def trimBoth (p : Char → Bool) (cs : List Char) : List Char :=
  ((cs.dropWhile p).reverse.dropWhile p).reverse

/-- The characters without the trailing ones that satisfy `p`. -/
def trimEnd (p : Char → Bool) (cs : List Char) : List Char := (cs.reverse.dropWhile p).reverse

/-- A text without its outer blanks. -/
def trim (s : String) : String := String.ofList (trimBoth isBlank s.toList)

end Text
end FlowGrid
