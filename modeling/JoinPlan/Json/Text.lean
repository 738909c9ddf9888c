/-!
# Texts in JSON

Between its quotes a text writes quotes, backslashes and the control characters below U+0020 with a
backslash, and everything else as it is. The reader takes every escape of the format, and of a
surrogate pair it makes the character that the pair stands for.
-/
namespace JoinPlan.Json

/-- The digit of `n` below sixteen. -/
def hexDigit (n : Nat) : Char := Nat.digitChar n

/-- How a character is written inside a text. -/
def escape (c : Char) : List Char :=
  if c = '"' then ['\\', '"']
  else if c = '\\' then ['\\', '\\']
  else if c = '\x08' then ['\\', 'b']
  else if c = '\x0c' then ['\\', 'f']
  else if c = '\n' then ['\\', 'n']
  else if c = '\r' then ['\\', 'r']
  else if c = '\t' then ['\\', 't']
  else if c.toNat < 0x20 then
    ['\\', 'u', '0', '0', hexDigit (c.toNat / 16), hexDigit (c.toNat % 16)]
  else [c]

/-- A text with its quotes. -/
def writeText (s : String) : List Char :=
  '"' :: (s.toList.flatMap escape ++ ['"'])

/-- The character that a backslash and a letter stand for. -/
def unescape? : Char → Option Char
  | '"' => some '"'
  | '\\' => some '\\'
  | '/' => some '/'
  | 'b' => some '\x08'
  | 'f' => some '\x0c'
  | 'n' => some '\n'
  | 'r' => some '\r'
  | 't' => some '\t'
  | _ => none

def hexValue? (c : Char) : Option Nat :=
  if c.isDigit then some (c.toNat - '0'.toNat)
  else if 'a' ≤ c ∧ c ≤ 'f' then some (c.toNat - 'a'.toNat + 10)
  else if 'A' ≤ c ∧ c ≤ 'F' then some (c.toNat - 'A'.toNat + 10)
  else none

/-- The number that four hexadecimal digits stand for. -/
def unit? (a b c d : Char) : Option Nat := do
  let a ← hexValue? a
  let b ← hexValue? b
  let c ← hexValue? c
  let d ← hexValue? d
  return ((a * 16 + b) * 16 + c) * 16 + d

/-- The character with a code point, if there is one. -/
def scalar? (n : Nat) : Option Char :=
  if n.isValidChar then some (Char.ofNat n) else none

/-- The character of a surrogate pair. -/
def paired? (high low : Nat) : Option Char :=
  if 0xD800 ≤ high ∧ high < 0xDC00 ∧ 0xDC00 ≤ low ∧ low < 0xE000 then
    scalar? (0x10000 + (high - 0xD800) * 0x400 + (low - 0xDC00))
  else none

/-- The text up to the next quote, with its escapes resolved, and what is left behind the quote. A
surrogate without its partner is no character. -/
def readText? : List Char → Option (List Char × List Char)
  | [] => none
  | '"' :: rest => some ([], rest)
  | '\\' :: 'u' :: a :: b :: c :: d :: '\\' :: 'u' :: a' :: b' :: c' :: d' :: s => do
    let unit ← unit? a b c d
    match scalar? unit with
    | some x =>
      let (text, rest) ← readText? ('\\' :: 'u' :: a' :: b' :: c' :: d' :: s)
      return (x :: text, rest)
    | none =>
      let x ← paired? unit (← unit? a' b' c' d')
      let (text, rest) ← readText? s
      return (x :: text, rest)
  | '\\' :: 'u' :: a :: b :: c :: d :: s => do
    let x ← scalar? (← unit? a b c d)
    let (text, rest) ← readText? s
    return (x :: text, rest)
  | '\\' :: letter :: s => do
    let x ← unescape? letter
    let (text, rest) ← readText? s
    return (x :: text, rest)
  | c :: s =>
    if c = '\\' ∨ c.toNat < 0x20 then none else do
      let (text, rest) ← readText? s
      return (c :: text, rest)

end JoinPlan.Json
