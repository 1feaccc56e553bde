/-!
# Limits of nesting

How deep a value may be nested to be read, to be looked up by, to be compared and to be written. A value is
one level deeper than the deepest of the values that are shown in its text. A value that is nested too deep
is still a value, and code that holds one can be analysed as long as nothing asks for more of it than its
limit allows.

The limits come of the stack that a program runs on, so they are a parameter, and nothing is assumed of
them. What is computed, such as a solution, a call graph, the targets of a call or a text, is defined without
them. What can be asked for looks at its limit first: it gives just what is computed, or it refuses.
-/

namespace TacFlow

/-- The limits of nesting that a program runs under. -/
class Nesting where
  /-- The most dimensions of a type that is read from its name or as a part of a signature. -/
  readable : Nat
  /-- The most dimensions of a type that something is looked up by. -/
  searchable : Nat
  /-- How deep a value may be nested to be compared with an equal one. -/
  comparable : Nat
  /-- How deep a value may be nested to be written. -/
  writable : Nat
  /-- How deep the arrays and objects of a document may be nested to be decoded. -/
  decodable : Nat

/-- The limits on a stack with room for a number of calls. A level takes one call to be read or decoded, two
to be looked up by, and three to be compared or written. -/
@[reducible]
def Nesting.ofStack (room : Nat) : Nesting where
  readable := room
  searchable := room / 2
  comparable := room / 3
  writable := room / 3
  decodable := room

/-- The limits where no others are given: those on a stack of a thousand calls, a few of which stand below
whatever is asked for. -/
instance Nesting.standard : Nesting :=
  .ofStack (1000 - 12)

end TacFlow
