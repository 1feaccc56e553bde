import TacFlow.Decimal.Digits
import TacFlow.Text.Class

/-!
# Scanners

How far names, numbers, keywords and the blank space between them reach. A scanner looks at the
characters ahead and answers how many of them it takes, or that it takes none.
-/

namespace TacFlow.Grammar.Scanner

/-- The words that are no names. -/
def keywords : List String :=
  ["class", "interface", "abstract", "extends", "implements", "static", "private", "public", "if",
    "goto", "switch", "case", "default", "return", "nop", "new", "invokestatic", "invokespecial",
    "invokevirtual", "invokeinterface"]

/-- Characters that begin a name. -/
def isNameStart (c : Char) : Bool :=
  Text.isAsciiLetter c || c == '_' || c == '$'

/-- Characters that continue a name. -/
def isNameChar (c : Char) : Bool :=
  Text.isWord c || c == '$'

/-- A whole word: no word character follows it. -/
def word (w : String) (cs : List Char) : Option Nat :=
  if w.toList.isPrefixOf cs && !((cs.drop w.length).head?.map Text.isWord).getD false then
    some w.length
  else none

/-- Any of the keywords. -/
def keyword (cs : List Char) : Option Nat :=
  keywords.findSome? (word · cs)

/-- A name without dots. -/
def name : List Char → Option Nat
  | c :: cs => if isNameStart c then some (1 + (cs.takeWhile isNameChar).length) else none
  | [] => none

/-- The rest of a dotted name: name characters, and dots with the start of a name behind them. -/
def dottedRest : List Char → Nat
  | '.' :: c :: cs => if isNameStart c then 2 + dottedRest cs else 0
  | c :: cs => if isNameChar c then 1 + dottedRest cs else 0
  | [] => 0

/-- Names joined by dots. -/
def dottedName : List Char → Option Nat
  | c :: cs => if isNameStart c then some (1 + dottedRest cs) else none
  | [] => none

/-- The name of a constructor or a class initializer. -/
def initializer (cs : List Char) : Option Nat :=
  if "<clinit>".toList.isPrefixOf cs then some 8
  else if "<init>".toList.isPrefixOf cs then some 6
  else none

/-- Digits. -/
def digits (cs : List Char) : Option Nat :=
  match cs.takeWhile Text.isAsciiDigit with
  | [] => none
  | ds => some ds.length

/-- An integer with an optional minus sign. -/
def integer : List Char → Option Nat
  | '-' :: cs => (digits cs).map (· + 1)
  | cs => digits cs

/-- The integer that a lexeme of `integer` writes. -/
def integerValue : List Char → Int
  | '-' :: ds => -(Decimal.digitsValue ds : Int)
  | ds => Decimal.digitsValue ds

/-- How many digits a lexeme of `integer` has. -/
def digitCount : List Char → Nat
  | '-' :: ds => ds.length
  | ds => ds.length

/-- Where a scan of blank space stands: between comments, in one that ends with its line, or in one
that has to be closed. -/
inductive BlankState where
  | between | lineComment | blockComment
  deriving DecidableEq, Repr

/-- White space and comments in any mixture; `none` only inside a comment that is never closed, so
that such a comment is not taken. -/
def blankFrom : BlankState → List Char → Option Nat
  | .blockComment, [] => none
  | _, [] => some 0
  | .between, '/' :: '/' :: cs => (blankFrom .lineComment cs).map (· + 2)
  | .between, '/' :: '*' :: cs =>
    match blankFrom .blockComment cs with
    | some n => some (n + 2)
    | none => some 0
  | .between, c :: cs => if Text.isWhite c then (blankFrom .between cs).map (· + 1) else some 0
  | .lineComment, c :: cs =>
    (blankFrom (if c = '\n' then .between else .lineComment) cs).map (· + 1)
  | .blockComment, '*' :: '/' :: cs => (blankFrom .between cs).map (· + 2)
  | .blockComment, _ :: cs => (blankFrom .blockComment cs).map (· + 1)

/-- The blank space ahead, which may be empty. -/
def blank (cs : List Char) : Option Nat :=
  blankFrom .between cs

end TacFlow.Grammar.Scanner
