import TacFlow.Json.Basic

/-!
# Writing JSON

Encodes a JSON value as a document on one line, without blanks. The members of an object stand in
their order. Numbers that are not finite are written as the words that the reader knows.
-/

namespace TacFlow.Json

/-- The characters that write a symbol between double quotes: quotes, backslashes, control characters and
surrogates are escaped. -/
def Symbol.encoded : Symbol → List Char
  | char c =>
    if c = '"' || c = '\\' then ['\\', c]
    else if c.toNat < 0x20 then escape c.toNat
    else [c]
  | surrogate n => escape n

/-- Adds the characters of a symbol to a text. -/
def Symbol.writeTo (text : String) (x : Symbol) : String :=
  x.encoded.foldl String.push text

/-- Adds a string in double quotes to a text. -/
def Str.writeTo (text : String) (s : Str) : String :=
  (s.symbols.foldl Symbol.writeTo (text.push '"')).push '"'

/-- The written form of a floating point number. -/
def floatLiteral (x : Float) : String :=
  match Decimal.floatText x with
  | "inf" => "Infinity"
  | "-inf" => "-Infinity"
  | "nan" => "NaN"
  | text => text

mutual

/-- Adds a value to a text. -/
def writeTo (text : String) : Json → String
  | null => text ++ "null"
  | bool true => text ++ "true"
  | bool false => text ++ "false"
  | int n => text ++ toString n
  | float x => text ++ floatLiteral x
  | str s => s.writeTo text
  | arr items => (writeItems (text.push '[') "" items).push ']'
  | obj members => (writeMembers (text.push '\x7b') "" members).push '\x7d'

/-- Adds items to a text, with a separator in front of the first and commas between them. -/
def writeItems (text separator : String) : List Json → String
  | [] => text
  | v :: rest => writeItems (writeTo (text ++ separator) v) "," rest

/-- Adds members to a text, with a separator in front of the first and commas between them. -/
def writeMembers (text separator : String) : List (Str × Json) → String
  | [] => text
  | (name, v) :: rest =>
    writeMembers (writeTo ((name.writeTo (text ++ separator)).push ':') v) "," rest

end

/-- The document of a value. -/
def text (v : Json) : String :=
  writeTo "" v

end TacFlow.Json
