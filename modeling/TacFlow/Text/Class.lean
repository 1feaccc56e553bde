import TacFlow.Text.Category

/-!
# Character classes

The program text and the signatures given from outside are read with two slightly different notions
of "word" and of "blank". Program text follows the Unicode properties `Alphabetic` and `White_Space` of
version 18 of the standard; signatures take any letter or number of version 14 as a word character,
and the four information separators U+001C to U+001F as blanks. Both agree on ASCII letters, digits
and the underscore.
-/

namespace TacFlow.Text

/-- Letters `A` to `Z` and `a` to `z`. -/
def isAsciiLetter (c : Char) : Bool :=
  ('a' ≤ c && c ≤ 'z') || ('A' ≤ c && c ≤ 'Z')

/-- Digits `0` to `9`. -/
def isAsciiDigit (c : Char) : Bool :=
  '0' ≤ c && c ≤ '9'

/-- Letters, digits and the underscore of ASCII: the word characters on which all classes agree. -/
def isAsciiWord (c : Char) : Bool :=
  isAsciiLetter c || isAsciiDigit c || c == '_'

/-- Code points below U+0080. -/
def isAscii (c : Char) : Bool :=
  c.toNat < 0x80

/-- Symbols that are alphabetic although they are no letters: circled and squared letters. -/
def enclosedLetters : List (Nat × Nat) :=
  [(0x24b6, 0x24e9), (0x1f130, 0x1f149), (0x1f150, 0x1f169), (0x1f170, 0x1f189)]

/-- The zero width non-joiner and joiner, which continue a word. -/
def joiners : List (Nat × Nat) :=
  [(0x200c, 0x200d)]

/-- A word character of program text: alphabetic characters, marks, decimal digits, connector
punctuation and the two joiners. -/
def isWord (c : Char) : Bool :=
  if isAscii c then isAsciiWord c
  else [Category.letters, Category.letterNumbers, Category.marks, Category.decimalDigits,
    Category.connectors, Category.laterWords, enclosedLetters, joiners].any (Category.mem · c.toNat)

/-- A word character of a signature: letters and numbers of any kind, and the underscore. -/
def isAlphanumeric (c : Char) : Bool :=
  if isAscii c then isAsciiWord c
  else [Category.letters, Category.decimalDigits, Category.letterNumbers,
    Category.otherNumbers].any (Category.mem · c.toNat)

/-- White space of program text (the Unicode property `White_Space`). -/
def isWhite (c : Char) : Bool :=
  Category.mem [(0x9, 0xd), (0x20, 0x20), (0x85, 0x85), (0xa0, 0xa0), (0x1680, 0x1680),
    (0x2000, 0x200a), (0x2028, 0x2029), (0x202f, 0x202f), (0x205f, 0x205f), (0x3000, 0x3000)] c.toNat

/-- A blank of a signature: white space or one of the information separators U+001C to U+001F. -/
def isBlank (c : Char) : Bool :=
  isWhite c || (0x1c ≤ c.toNat && c.toNat ≤ 0x1f)

/-- Characters that a quoted text shows as they are. -/
def isPrintable (c : Char) : Bool :=
  if isAscii c then 0x20 ≤ c.toNat && c.toNat < 0x7f else !Category.mem Category.hidden c.toNat

/-- Cuts blanks off both ends. -/
def trim (cs : List Char) : List Char :=
  ((cs.dropWhile isBlank).reverse.dropWhile isBlank).reverse

end TacFlow.Text
