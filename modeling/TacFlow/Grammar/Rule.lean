/-!
# Rules

A rule reads a part of a text from a cursor. Choice is ordered and repetition is greedy, so a rule
has at most one way to read. Besides its result a rule reports how far the rules with a name have
tried to read: the furthest position at which one of them failed is where a syntax error is shown.
-/

namespace TacFlow.Grammar

/-- A position in a text with the characters from there on. -/
structure Cursor where
  pos : Nat
  rest : List Char

/-- The cursor behind the next `n` characters. -/
def Cursor.advance (c : Cursor) (n : Nat) : Cursor :=
  ⟨c.pos + n, c.rest.drop n⟩

/-- What a rule answers: the furthest position at which a named rule failed on the way, zero if none
did, and the value read with the cursor behind it. -/
structure Reply (α : Type) where
  furthest : Nat
  result : Option (α × Cursor)

/-- A rule of the grammar. -/
def Rule (α : Type) : Type :=
  Cursor → Reply α

namespace Rule

variable {α β : Type}

/-- Reads nothing. -/
def success (a : α) : Rule α :=
  fun c => ⟨0, some (a, c)⟩

/-- Reads with the first rule, then goes on as its value says. -/
def andThen (r : Rule α) (f : α → Rule β) : Rule β :=
  fun c =>
    match r c with
    | ⟨n, none⟩ => ⟨n, none⟩
    | ⟨n, some (a, c')⟩ => let reply := f a c'; ⟨max n reply.furthest, reply.result⟩

instance : Monad Rule where
  pure := success
  bind := andThen

/-- Reads with the first rule, or with the second one if the first fails. -/
def orElse (r : Rule α) (s : Unit → Rule α) : Rule α :=
  fun c =>
    match r c with
    | ⟨n, none⟩ => let reply := s () c; ⟨max n reply.furthest, reply.result⟩
    | reply => reply

instance : OrElse (Rule α) where
  orElse := orElse

/-- Gives a rule a name: its failures count as failures at the place where it started. -/
def named (r : Rule α) : Rule α :=
  fun c =>
    match r c with
    | ⟨n, none⟩ => ⟨max n c.pos, none⟩
    | reply => reply

/-- Succeeds without reading if the rule fails. -/
def notAhead (r : Rule α) : Rule Unit :=
  fun c =>
    match r c with
    | ⟨n, none⟩ => ⟨n, some ((), c)⟩
    | ⟨n, some _⟩ => ⟨n, none⟩

/-- Reads with the rule if it succeeds. At the end of the text it is not tried. -/
def optional (r : Rule α) : Rule (Option α) :=
  fun c =>
    if c.rest.isEmpty then ⟨0, some (none, c)⟩
    else
      match r c with
      | ⟨n, none⟩ => ⟨n, some (none, c)⟩
      | ⟨n, some (a, c')⟩ => ⟨n, some (some a, c')⟩

/-- Reads with the rule at most `fuel` times, as often as it succeeds. A reading of the empty text is
the last, and at the end of the text the rule is not tried. -/
def manyWithin (r : Rule α) : Nat → Rule (List α)
  | 0 => success []
  | fuel + 1 => fun c =>
    if c.rest.isEmpty then ⟨0, some ([], c)⟩
    else
      match r c with
      | ⟨n, none⟩ => ⟨n, some ([], c)⟩
      | ⟨n, some (a, c')⟩ =>
        if c'.pos = c.pos then ⟨n, some ([a], c')⟩
        else
          let reply := manyWithin r fuel c'
          ⟨max n reply.furthest, reply.result.map fun (rest, c'') => (a :: rest, c'')⟩

/-- Reads with the rule as often as it succeeds. -/
def many (r : Rule α) : Rule (List α) :=
  fun c => manyWithin r c.rest.length c

/-- The current position. -/
def position : Rule Nat :=
  fun c => ⟨0, some (c.pos, c)⟩

/-- Reads as many characters as the scanner says and returns them. -/
def lexeme (scan : List Char → Option Nat) : Rule (List Char) :=
  fun c =>
    match scan c.rest with
    | none => ⟨0, none⟩
    | some n => ⟨0, some (c.rest.take n, c.advance n)⟩

/-- Reads the first of the given texts that stands at the cursor and returns what belongs to it. -/
def oneOf (choices : List (List Char × α)) : Rule α :=
  fun c =>
    match choices.find? fun choice => choice.1.isPrefixOf c.rest with
    | none => ⟨0, none⟩
    | some (word, a) => ⟨0, some (a, c.advance word.length)⟩

/-- Reads one given text. -/
def literal (word : String) : Rule Unit :=
  oneOf [(word.toList, ())]

end Rule

end TacFlow.Grammar
