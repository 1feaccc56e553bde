import TacFlow.Text.Quoted

/-!
# JSON strings

A JSON document can write the two halves of a surrogate pair apart from each other, so a decoded string
is a list of symbols, most of them characters.
-/

namespace TacFlow.Json

/-- A symbol of a string: a character, or a surrogate (U+D800 to U+DFFF) without its partner. -/
inductive Symbol where
  | char (c : Char)
  | surrogate (code : Nat)
  deriving DecidableEq, Repr

namespace Symbol

/-- The character, if the symbol is one. -/
def char? : Symbol → Option Char
  | char c => some c
  | surrogate _ => none

/-- The character that shows a symbol; the replacement character shows a surrogate. -/
def shown : Symbol → Char
  | char c => c
  | surrogate _ => Char.ofNat 0xfffd

/-- The code point of a symbol. -/
def code : Symbol → Nat
  | char c => c.toNat
  | surrogate n => n

/-- The escape that stands for a code point below U+10000. -/
def escape (code : Nat) : List Char :=
  '\\' :: 'u' :: Text.Quoted.hex 4 code

/-- A symbol inside quotes `q`. -/
def quoted (q : Char) : Symbol → List Char
  | char c => Text.Quoted.encodeChar q c
  | surrogate n => escape n

/-- The characters that print a symbol: a surrogate, which no output can hold, by its escape. -/
def printed : Symbol → List Char
  | char c => [c]
  | surrogate n => escape n

end Symbol

/-- A decoded string. -/
structure Str where
  symbols : List Symbol
  deriving DecidableEq, Repr

namespace Str

/-- The string of a text. -/
def ofString (s : String) : Str :=
  ⟨s.toList.map .char⟩

/-- The text of a string; a string with a lone surrogate has none. -/
def text? (s : Str) : Option String :=
  (s.symbols.mapM Symbol.char?).map String.ofList

/-- The characters that show a string. -/
def shown (s : Str) : List Char :=
  s.symbols.map Symbol.shown

/-- The text that prints a string. -/
def printed (s : Str) : String :=
  String.ofList (s.symbols.flatMap Symbol.printed)

/-- One string behind the other. -/
instance : Append Str :=
  ⟨fun s t => ⟨s.symbols ++ t.symbols⟩⟩

/-- Joins strings with a separator between them. -/
def join (separator : Str) (parts : List Str) : Str :=
  ⟨List.intercalate separator.symbols (parts.map Str.symbols)⟩

/-- Whether a string has no symbols. -/
def isEmpty (s : Str) : Bool :=
  s.symbols.isEmpty

/-- The order of lists of symbols, symbol by symbol and by code point. -/
def symbolsLe : List Symbol → List Symbol → Bool
  | [], _ => true
  | _ :: _, [] => false
  | x :: xs, y :: ys => x.code < y.code || (x.code == y.code && symbolsLe xs ys)

/-- The order of strings, symbol by symbol and by code point. -/
def le (s t : Str) : Bool :=
  symbolsLe s.symbols t.symbols

/-- The quoted form of a string. -/
def quoted (s : Str) : String :=
  let q := Text.Quoted.quoteFor s.shown
  String.ofList (q :: s.symbols.flatMap (Symbol.quoted q) ++ [q])

end Str

end TacFlow.Json
