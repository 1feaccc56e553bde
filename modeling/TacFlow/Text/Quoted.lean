import TacFlow.Text.Class

/-!
# Quoted text

How messages show a piece of text: between quotes, with everything that would not be visible
escaped. The quote is `'` unless the text holds a `'` and no `"`.
-/

namespace TacFlow.Text.Quoted

/-- The hexadecimal digit of a number below 16, in lower case. -/
def hexDigit (n : Nat) : Char :=
  Char.ofNat (if n < 10 then 48 + n else 87 + n)

/-- The lowest `width` hexadecimal digits of a number, most significant first. -/
def hex : Nat → Nat → List Char
  | 0, _ => []
  | width + 1, n => hex width (n / 16) ++ [hexDigit (n % 16)]

/-- One character inside quotes `q`. Hidden characters take the shortest of the forms with two, four
and eight hexadecimal digits. -/
def encodeChar (q c : Char) : List Char :=
  if c = q || c = '\\' then ['\\', c]
  else if c = '\n' then ['\\', 'n']
  else if c = '\r' then ['\\', 'r']
  else if c = '\t' then ['\\', 't']
  else if isPrintable c then [c]
  else if c.toNat < 0x100 then '\\' :: 'x' :: hex 2 c.toNat
  else if c.toNat < 0x10000 then '\\' :: 'u' :: hex 4 c.toNat
  else '\\' :: 'U' :: hex 8 c.toNat

/-- The quote that surrounds a text. -/
def quoteFor (cs : List Char) : Char :=
  if cs.contains '\'' && !cs.contains '"' then '"' else '\''

/-- The quoted form of a text. -/
def encode (cs : List Char) : List Char :=
  let q := quoteFor cs
  q :: cs.flatMap (encodeChar q) ++ [q]

end TacFlow.Text.Quoted

/-- The quoted form of a text, as a string. -/
def TacFlow.Text.quoted (s : String) : String :=
  String.ofList (Quoted.encode s.toList)
