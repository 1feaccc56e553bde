/-!
# Positions and lines

Positions in a text are counted in code points. The line of a position and its column are told by
line feeds alone, while the lines that a message can quote end at every line boundary that Unicode
knows, so the two notions differ on texts with other line ends.
-/

namespace TacFlow.Text

/-- The number of the line, from one, that holds a position. Positions beyond the end lie on the
last line. -/
def lineAt (cs : List Char) (pos : Nat) : Nat :=
  (cs.take pos).count '\n' + 1

/-- The position behind the last line feed before `pos`, or zero. -/
def lineStart (cs : List Char) (pos : Nat) : Nat :=
  (cs.take pos).length - ((cs.take pos).reverse.takeWhile (· != '\n')).length

/-- The column of a position on its line, from one. -/
def columnAt (cs : List Char) (pos : Nat) : Nat :=
  pos - lineStart cs pos + 1

/-- Characters that end a line, the carriage return and the line feed among them. -/
def isLineEnd (c : Char) : Bool :=
  (0xa ≤ c.toNat && c.toNat ≤ 0xd) || (0x1c ≤ c.toNat && c.toNat ≤ 0x1e) || c.toNat == 0x85 ||
    c.toNat == 0x2028 || c.toNat == 0x2029

/-- Adds a character to the front of the first line. -/
def consToFirst (c : Char) : List (List Char) → List (List Char)
  | [] => [[c]]
  | line :: rest => (c :: line) :: rest

/-- The lines of a text without their ends. A carriage return with a line feed behind it is one end,
and an end at the very end of the text opens no further line. -/
def splitLines : List Char → List (List Char)
  | [] => []
  | '\r' :: '\n' :: cs => [] :: splitLines cs
  | c :: cs => if isLineEnd c then [] :: splitLines cs else consToFirst c (splitLines cs)

/-- Replaces each carriage return, with or without a line feed behind it, by a line feed. -/
def unifyNewlines : List Char → List Char
  | [] => []
  | '\r' :: '\n' :: cs => '\n' :: unifyNewlines cs
  | c :: cs => (if c = '\r' then '\n' else c) :: unifyNewlines cs

end TacFlow.Text
