import TacFlow.Decimal.Digits
import TacFlow.Json.Basic
import TacFlow.Nesting
import TacFlow.Text.Class

/-!
# Reading JSON

Decodes one JSON document. Besides the standard grammar the reader takes the words `NaN`, `Infinity`
and `-Infinity` for numbers. A name that appears twice in an object keeps its first place and takes
the last value. What is nested too deep or written with too many digits is not read.
-/

namespace TacFlow.Json

/-- Why a text is not read as a document. -/
inductive ReadError where
  /-- It breaks the grammar. -/
  | malformed
  /-- Its arrays and objects are nested deeper than the reader goes. -/
  | tooDeep
  /-- It has a whole number with more digits than the reader takes. -/
  | tooManyDigits
  deriving DecidableEq, Repr

namespace Reader

/-- Drops the four white space characters of JSON. -/
def skip (cs : List Char) : List Char :=
  cs.dropWhile fun c => c == ' ' || c == '\t' || c == '\n' || c == '\r'

/-- The value of a hexadecimal digit. -/
def hexValue? (c : Char) : Option Nat :=
  if '0' ≤ c && c ≤ '9' then some (c.toNat - 48)
  else if 'a' ≤ c && c ≤ 'f' then some (c.toNat - 87)
  else if 'A' ≤ c && c ≤ 'F' then some (c.toNat - 55)
  else none

/-- The number that four hexadecimal digits write. -/
def unit? (a b c d : Char) : Option Nat := do
  return ((← hexValue? a) * 4096 + (← hexValue? b) * 256 + (← hexValue? c) * 16 + (← hexValue? d))

/-- The character that a backslash with one letter stands for. -/
def escape? : Char → Option Char
  | '"' => some '"'
  | '\\' => some '\\'
  | '/' => some '/'
  | 'b' => some '\x08'
  | 'f' => some '\x0c'
  | 'n' => some '\n'
  | 'r' => some '\r'
  | 't' => some '\t'
  | _ => none

/-- The symbol of a UTF-16 unit. -/
def ofUnit (u : Nat) : Symbol :=
  if 0xd800 ≤ u && u < 0xe000 then .surrogate u else .char (Char.ofNat u)

/-- The symbol of a surrogate pair, if the two units are one. -/
def ofPair? (high low : Nat) : Option Symbol :=
  if 0xd800 ≤ high && high < 0xdc00 && 0xdc00 ≤ low && low < 0xe000 then
    some (.char (Char.ofNat (0x10000 + (high - 0xd800) * 0x400 + (low - 0xdc00))))
  else none

/-- Reads a string from behind its opening quote; `done` holds what was read, last symbol first.
Returns the string and what follows the closing quote. -/
def string (done : List Symbol) : List Char → Except ReadError (Str × List Char)
  | [] => .error .malformed
  | '"' :: rest => .ok (⟨done.reverse⟩, rest)
  | '\\' :: 'u' :: a :: b :: c :: d :: '\\' :: 'u' :: e :: f :: g :: h :: rest =>
    match unit? a b c d with
    | none => .error .malformed
    | some high =>
      match (unit? e f g h).bind (ofPair? high) with
      | some symbol => string (symbol :: done) rest
      | none => string (ofUnit high :: done) ('\\' :: 'u' :: e :: f :: g :: h :: rest)
  | '\\' :: 'u' :: a :: b :: c :: d :: rest =>
    match unit? a b c d with
    | none => .error .malformed
    | some u => string (ofUnit u :: done) rest
  | '\\' :: c :: rest =>
    match escape? c with
    | none => .error .malformed
    | some escaped => string (.char escaped :: done) rest
  | c :: rest =>
    if c.toNat < 0x20 || c == '\\' then .error .malformed else string (.char c :: done) rest

/-- The fraction digits at the front of a text: a point with at least one digit behind it. -/
def fraction : List Char → List Char × List Char
  | '.' :: rest =>
    match rest.takeWhile Text.isAsciiDigit with
    | [] => ([], '.' :: rest)
    | ds => (ds, rest.dropWhile Text.isAsciiDigit)
  | cs => ([], cs)

/-- The digits of an exponent behind its sign. -/
def exponentDigits (negative : Bool) (whole rest : List Char) : Option Int × List Char :=
  match rest.takeWhile Text.isAsciiDigit with
  | [] => (none, whole)
  | ds =>
    let n : Int := Decimal.digitsValue ds
    (some (if negative then -n else n), rest.dropWhile Text.isAsciiDigit)

/-- The exponent at the front of a text, if a complete one stands there. -/
def exponent : List Char → Option Int × List Char
  | c :: rest =>
    if c == 'e' || c == 'E' then
      match rest with
      | '-' :: r => exponentDigits true (c :: rest) r
      | '+' :: r => exponentDigits false (c :: rest) r
      | r => exponentDigits false (c :: rest) r
    else (none, c :: rest)
  | [] => (none, [])

/-- Reads a number behind its sign. -/
def number (negative : Bool) (cs : List Char) : Except ReadError (Json × List Char) :=
  let whole := match cs with
    | '0' :: _ => ['0']
    | _ => cs.takeWhile Text.isAsciiDigit
  let (frac, rest) := fraction (cs.drop whole.length)
  let (exp, rest) := exponent rest
  if whole = [] then .error .malformed
  else if frac = [] && exp.isNone then
    if Decimal.longestRun < whole.length then .error .tooManyDigits
    else
      let n : Int := Decimal.digitsValue whole
      .ok (.int (if negative then -n else n), rest)
  else
    let x := Decimal.nearestFloat (Decimal.digitsValue (whole ++ frac)) (exp.getD 0 - frac.length)
    .ok (.float (if negative then -x else x), rest)

/-- Drops an expected word from the front of a text. -/
def word? (w : String) (cs : List Char) : Option (List Char) :=
  if w.toList.isPrefixOf cs then some (cs.drop w.length) else none

/-- The words that stand for values. -/
def words : List (String × Json) :=
  [("null", .null), ("true", .bool true), ("false", .bool false), ("NaN", .float (0.0 / 0.0)),
    ("Infinity", .float (1.0 / 0.0)), ("-Infinity", .float (-1.0 / 0.0))]

/-- Reads a word or a number. -/
def scalar (cs : List Char) : Except ReadError (Json × List Char) :=
  match words.findSome? fun (w, v) => (word? w cs).map (v, ·) with
  | some answer => .ok answer
  | none =>
    match cs with
    | '-' :: r => number true r
    | _ => number false cs

mutual

/-- Reads one value from a text without leading white space; arrays and objects in it can be nested
`depth` deep. Every level of nesting and every item takes one unit of fuel. -/
def value (depth : Nat) : Nat → List Char → Except ReadError (Json × List Char)
  | 0, _ => .error .malformed
  | _ + 1, '"' :: rest => do
    let (s, r) ← string [] rest
    return (.str s, r)
  | fuel + 1, '[' :: rest =>
    match depth, skip rest with
    | 0, _ => .error .tooDeep
    | _ + 1, ']' :: r => .ok (.arr [], r)
    | depth + 1, r => do
      let (vs, r) ← items depth fuel [] r
      return (.arr vs, r)
  | fuel + 1, '{' :: rest =>
    match depth, skip rest with
    | 0, _ => .error .tooDeep
    | _ + 1, '}' :: r => .ok (.obj [], r)
    | depth + 1, r => do
      let (ms, r) ← members depth fuel [] r
      return (.obj ms, r)
  | _ + 1, cs => scalar cs

/-- Reads the items of an array up to its closing bracket. -/
def items (depth : Nat) : Nat → List Json → List Char → Except ReadError (List Json × List Char)
  | 0, _, _ => .error .malformed
  | fuel + 1, done, cs => do
    let (v, rest) ← value depth fuel cs
    match skip rest with
    | ',' :: r => items depth fuel (v :: done) (skip r)
    | ']' :: r => return ((v :: done).reverse, r)
    | _ => .error .malformed

/-- Reads the members of an object up to its closing brace. -/
def members (depth : Nat) :
    Nat → List (Str × Json) → List Char → Except ReadError (List (Str × Json) × List Char)
  | 0, _, _ => .error .malformed
  | fuel + 1, done, '"' :: cs => do
    let (name, rest) ← string [] cs
    match skip rest with
    | ':' :: r =>
      let (v, rest) ← value depth fuel (skip r)
      match skip rest with
      | ',' :: r => members depth fuel (setMember done name v) (skip r)
      | '}' :: r => return (setMember done name v, r)
      | _ => .error .malformed
    | _ => .error .malformed
  | _ + 1, _, _ => .error .malformed

end

end Reader

/-- Decodes a JSON document. -/
def parse [Nesting] (text : String) : Except ReadError Json := do
  let cs := text.toList
  let (v, rest) ← Reader.value Nesting.decodable (2 * cs.length + 2) (Reader.skip cs)
  if Reader.skip rest = [] then return v else .error .malformed

end TacFlow.Json
