import Mathlib

/-!
# Library — JSON values and their text

`Json` is a value as a text lists it.  `Json.render` is the compact text of a value.  Reading a
text takes two machines, each one pass over a list: `Scan` turns characters into tokens, and
`Expect`, with a stack of the containers that are open, turns tokens into a value.
`Json.parse` runs one after the other.
-/

namespace Json

/-! ### Number literals -/

/-- A run of digits without a leading zero. -/
def isNatural : List Char → Bool
  | [] => false
  | ['0'] => true
  | c :: cs => c ≠ '0' && (c :: cs).all Char.isDigit

/-- An exponent. -/
def isExponent : List Char → Bool
  | c :: '+' :: ds | c :: '-' :: ds => (c = 'e' || c = 'E') && ds ≠ [] && ds.all Char.isDigit
  | c :: ds => (c = 'e' || c = 'E') && ds ≠ [] && ds.all Char.isDigit
  | [] => false

/-- What may follow the integer part of a number that is not an integer. -/
def isFraction : List Char → Bool
  | '.' :: cs =>
    let rest := cs.dropWhile Char.isDigit
    cs.takeWhile Char.isDigit ≠ [] && (rest = [] || isExponent rest)
  | cs => isExponent cs

/-- A character of a number literal. -/
def isNumberChar (c : Char) : Bool :=
  c.isDigit || c = '-' || c = '+' || c = '.' || c = 'e' || c = 'E'

/-- A number literal without an integer as its value; negative zero is one. -/
def isFloatLiteral (w : List Char) : Bool :=
  w.all isNumberChar && (w = ['-', '0'] ||
    let cs := if w.head? = some '-' then w.tail else w
    isNatural (cs.takeWhile Char.isDigit) && isFraction (cs.dropWhile Char.isDigit))

structure FloatLiteral where
  chars : List Char
  valid : isFloatLiteral chars
  deriving DecidableEq

end Json

/-- A JSON value.  A number that is not an integer keeps its literal; an object keeps its members
as the text lists them. -/
inductive Json where
  | null
  | bool (b : Bool)
  | int (n : Int)
  | float (literal : Json.FloatLiteral)
  | str (s : String)
  | array (items : List Json)
  | object (members : List (String × Json))

namespace Json

/-! ### Printing -/

/-- The digit of a number below 16, as escapes write it. -/
def hexDigit (n : Nat) : Char := Nat.digitChar n

/-- A character inside a string literal. -/
def escape (c : Char) : List Char :=
  if c = '"' then ['\\', '"']
  else if c = '\\' then ['\\', '\\']
  else if c = '\n' then ['\\', 'n']
  else if c = '\r' then ['\\', 'r']
  else if c = '\t' then ['\\', 't']
  else if c = '\x08' then ['\\', 'b']
  else if c = '\x0c' then ['\\', 'f']
  else if c.toNat < 32 then
    ['\\', 'u', '0', '0', hexDigit (c.toNat / 16), hexDigit (c.toNat % 16)]
  else [c]

def renderString (s : String) : List Char := '"' :: (s.toList.flatMap escape ++ ['"'])

def renderInt : Int → List Char
  | .ofNat n => Nat.toDigits 10 n
  | .negSucc n => '-' :: Nat.toDigits 10 (n + 1)

mutual

def renderChars : Json → List Char
  | null => ['n', 'u', 'l', 'l']
  | bool true => ['t', 'r', 'u', 'e']
  | bool false => ['f', 'a', 'l', 's', 'e']
  | int n => renderInt n
  | float l => l.chars
  | str s => renderString s
  | array items => '[' :: renderItems items
  | object members => '\x7b' :: renderMembers members

/-- What follows the bracket that opens an array. -/
def renderItems : List Json → List Char
  | [] => [']']
  | v :: rest => renderChars v ++ renderMoreItems rest

def renderMoreItems : List Json → List Char
  | [] => [']']
  | v :: rest => ',' :: (renderChars v ++ renderMoreItems rest)

/-- What follows the brace that opens an object. -/
def renderMembers : List (String × Json) → List Char
  | [] => ['\x7d']
  | (k, v) :: rest => renderString k ++ ':' :: (renderChars v ++ renderMoreMembers rest)

def renderMoreMembers : List (String × Json) → List Char
  | [] => ['\x7d']
  | (k, v) :: rest => ',' :: (renderString k ++ ':' :: (renderChars v ++ renderMoreMembers rest))

end

/-- The compact text of a value. -/
def render (v : Json) : String := String.ofList v.renderChars

/-! ### Tokens -/

inductive Token where
  | lbrace
  | rbrace
  | lbracket
  | rbracket
  | colon
  | comma
  /-- A literal: null, a truth value, a number or a string. -/
  | lit (v : Json)

def Token.punct : Char → Option Token
  | '\x7b' => some .lbrace
  | '\x7d' => some .rbrace
  | '[' => some .lbracket
  | ']' => some .rbracket
  | ':' => some .colon
  | ',' => some .comma
  | _ => none

def isSpace (c : Char) : Bool := c = ' ' || c = '\n' || c = '\r' || c = '\t'

/-- The value of a run of digits. -/
def digitsValue (ds : List Char) : Nat := ds.foldl (fun acc c => 10 * acc + (c.toNat - 48)) 0

/-- The literal a bare word is. -/
def wordValue (w : List Char) : Option Json :=
  if w = ['n', 'u', 'l', 'l'] then some null
  else if w = ['t', 'r', 'u', 'e'] then some (bool true)
  else if w = ['f', 'a', 'l', 's', 'e'] then some (bool false)
  else if isNatural w then some (int (digitsValue w))
  else if w.head? = some '-' ∧ w.tail ≠ ['0'] ∧ isNatural w.tail then
    some (int (-digitsValue w.tail))
  else if h : isFloatLiteral w then some (float ⟨w, h⟩)
  else none

def hexValue (c : Char) : Option Nat :=
  if '0' ≤ c ∧ c ≤ '9' then some (c.toNat - 48)
  else if 'a' ≤ c ∧ c ≤ 'f' then some (c.toNat - 87)
  else if 'A' ≤ c ∧ c ≤ 'F' then some (c.toNat - 55)
  else none

/-- Where the scanner stands; a string or word so far is kept reversed. -/
inductive Scan where
  | plain
  | word (acc : List Char)
  | str (acc : List Char)
  | esc (acc : List Char)
  /-- Inside an escape by number, after a leading surrogate if there was one. -/
  | hex (acc : List Char) (lead : Option Nat) (left value : Nat)
  /-- After a leading surrogate, whose trailing one has to follow. -/
  | pair (acc : List Char) (lead : Nat) (slash : Bool)

namespace Scan

/-- A character between tokens. -/
def stepPlain (c : Char) : Option (List Token × Scan) :=
  if isSpace c then some ([], plain)
  else match Token.punct c with
    | some t => some ([t], plain)
    | none => if c = '"' then some ([], str []) else some ([], word [c])

/-- The end of an escape by number. -/
def unescape (acc : List Char) (lead : Option Nat) (value : Nat) : Option Scan :=
  match lead with
  | none =>
    if value < 0xD800 ∨ 0xE000 ≤ value then some (str (Char.ofNat value :: acc))
    else if value < 0xDC00 then some (pair acc value false)
    else none
  | some high =>
    if 0xDC00 ≤ value ∧ value < 0xE000 then
      some (str (Char.ofNat (0x10000 + (high - 0xD800) * 0x400 + (value - 0xDC00)) :: acc))
    else none

/-- The character a one-letter escape names. -/
def escaped : Char → Option Char
  | '"' => some '"'
  | '\\' => some '\\'
  | '/' => some '/'
  | 'n' => some '\n'
  | 'r' => some '\r'
  | 't' => some '\t'
  | 'b' => some '\x08'
  | 'f' => some '\x0c'
  | _ => none

def step : Scan → Char → Option (List Token × Scan)
  | plain, c => stepPlain c
  | word acc, c =>
    if isSpace c || (Token.punct c).isSome || c = '"' then do
      let v ← wordValue acc.reverse
      let (ts, s) ← stepPlain c
      return (.lit v :: ts, s)
    else some ([], word (c :: acc))
  | str acc, c =>
    if c = '"' then some ([.lit (.str (String.ofList acc.reverse))], plain)
    else if c = '\\' then some ([], esc acc)
    else if c.toNat < 32 then none
    else some ([], str (c :: acc))
  | esc acc, c =>
    if c = 'u' then some ([], hex acc none 4 0)
    else (escaped c).map fun d => ([], str (d :: acc))
  | hex acc lead left value, c => do
    let d ← hexValue c
    if left = 1 then return ([], ← unescape acc lead (16 * value + d))
    else return ([], hex acc lead (left - 1) (16 * value + d))
  | pair acc lead false, c => if c = '\\' then some ([], pair acc lead true) else none
  | pair acc lead true, c => if c = 'u' then some ([], hex acc (some lead) 4 0) else none

def finish : Scan → Option (List Token)
  | plain => some []
  | word acc => (wordValue acc.reverse).map fun v => [.lit v]
  | _ => none

/-- The tokens of a text. -/
def run : Scan → List Char → Option (List Token)
  | s, [] => s.finish
  | s, c :: cs => do
    let (ts, s') ← s.step c
    return ts ++ (← run s' cs)

end Scan

/-! ### Values from tokens -/

/-- A container that is open, with what it holds so far, reversed. -/
inductive Frame where
  | array (items : List Json)
  | object (members : List (String × Json))
  /-- The name of the member whose value is being read. -/
  | member (key : String)

/-- What the next token has to be. -/
inductive Expect where
  | value
  /-- A value, or the end of an empty array. -/
  | items
  /-- The name of a member, or the end of an empty object. -/
  | members
  | key
  | colon (key : String)
  /-- What follows a value that is complete. -/
  | more (v : Json)

namespace Expect

/-- A token where a value is expected. -/
def stepValue (stack : List Frame) : Token → Option (List Frame × Expect)
  | .lit v => some (stack, more v)
  | .lbracket => some (.array [] :: stack, items)
  | .lbrace => some (.object [] :: stack, members)
  | _ => none

/-- A token after a complete value. -/
def stepMore (v : Json) : List Frame → Token → Option (List Frame × Expect)
  | .array xs :: stack, .comma => some (.array (v :: xs) :: stack, value)
  | .array xs :: stack, .rbracket => some (stack, more (.array (v :: xs).reverse))
  | .member k :: .object ms :: stack, .comma => some (.object ((k, v) :: ms) :: stack, key)
  | .member k :: .object ms :: stack, .rbrace =>
    some (stack, more (.object ((k, v) :: ms).reverse))
  | _, _ => none

def step (stack : List Frame) : Expect → Token → Option (List Frame × Expect)
  | value, t => stepValue stack t
  | items, .rbracket =>
    match stack with
    | .array [] :: stack => some (stack, more (.array []))
    | _ => none
  | items, t => stepValue stack t
  | members, .lit (.str k) | key, .lit (.str k) => some (stack, colon k)
  | members, .rbrace =>
    match stack with
    | .object [] :: stack => some (stack, more (.object []))
    | _ => none
  | colon k, .colon => some (.member k :: stack, value)
  | more v, t => stepMore v stack t
  | _, _ => none

/-- The value of a text that ends here. -/
def finish (stack : List Frame) (e : Expect) : Option Json :=
  match stack, e with
  | [], more v => some v
  | _, _ => none

/-- The value of a text's tokens. -/
def run (stack : List Frame) (e : Expect) : List Token → Option Json
  | [] => e.finish stack
  | t :: ts => do
    let (stack', e') ← e.step stack t
    run stack' e' ts

end Expect

/-- The value a text is, or `none` for a text that is no JSON. -/
def parse (text : String) : Option Json := do Expect.run [] .value (← Scan.plain.run text.toList)

end Json
