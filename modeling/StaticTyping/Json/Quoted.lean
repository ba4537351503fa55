/-!
# The text of quoted strings

A quote, a backslash and the control characters are escaped, and nothing else is.  Reading
understands every escape of the format: the short ones and four hexadecimal digits, which give
one sixteen-bit unit; two units of a surrogate pair give one character.
-/

namespace StaticTyping
namespace Json

def hexDigit (n : Nat) : Char :=
  if n < 10 then Char.ofNat (48 + n) else Char.ofNat (87 + n)

def hexValue? (c : Char) : Option Nat :=
  if '0' ≤ c ∧ c ≤ '9' then some (c.toNat - 48)
  else if 'a' ≤ c ∧ c ≤ 'f' then some (c.toNat - 87)
  else if 'A' ≤ c ∧ c ≤ 'F' then some (c.toNat - 55)
  else none

def escapeChar (c : Char) : List Char :=
  if c = '"' then ['\\', '"']
  else if c = '\\' then ['\\', '\\']
  else if c = '\x08' then ['\\', 'b']
  else if c = '\x0c' then ['\\', 'f']
  else if c = '\n' then ['\\', 'n']
  else if c = '\r' then ['\\', 'r']
  else if c = '\t' then ['\\', 't']
  else if c < ' ' then ['\\', 'u', '0', '0', hexDigit (c.toNat / 16), hexDigit (c.toNat % 16)]
  else [c]

def escape (s : List Char) : List Char :=
  s.flatMap escapeChar

/-- What a part of a quoted string stands for: a character, or a unit given by four digits. -/
inductive Piece where
  | char (c : Char)
  | unit (n : Nat)
deriving DecidableEq

def shortEscape? : Char → Option Char
  | '"' => some '"'
  | '\\' => some '\\'
  | '/' => some '/'
  | 'b' => some '\x08'
  | 'f' => some '\x0c'
  | 'n' => some '\n'
  | 'r' => some '\r'
  | 't' => some '\t'
  | _ => none

def unit? (a b c d : Char) : Option Nat :=
  match hexValue? a, hexValue? b, hexValue? c, hexValue? d with
  | some a, some b, some c, some d => some (((a * 16 + b) * 16 + c) * 16 + d)
  | _, _, _, _ => none

def pieces? : List Char → Option (List Piece)
  | [] => some []
  | '\\' :: 'u' :: a :: b :: c :: d :: rest =>
      match unit? a b c d, pieces? rest with
      | some n, some ps => some (.unit n :: ps)
      | _, _ => none
  | '\\' :: c :: rest =>
      match shortEscape? c, pieces? rest with
      | some c, some ps => some (.char c :: ps)
      | _, _ => none
  | c :: rest =>
      if c < ' ' ∨ c = '\\' ∨ c = '"' then none else (pieces? rest).map (.char c :: ·)
termination_by structural cs => cs

def isLeading (n : Nat) : Bool :=
  0xD800 ≤ n ∧ n < 0xDC00

def isTrailing (n : Nat) : Bool :=
  0xDC00 ≤ n ∧ n < 0xE000

def join? : List Piece → Option (List Char)
  | [] => some []
  | .char c :: ps => (join? ps).map (c :: ·)
  | .unit m :: .unit n :: ps =>
      if isLeading m then
        if isTrailing n then
          (join? ps).map (Char.ofNat (0x10000 + (m - 0xD800) * 0x400 + (n - 0xDC00)) :: ·)
        else none
      else if isTrailing m then none
      else (join? (.unit n :: ps)).map (Char.ofNat m :: ·)
  | .unit m :: ps =>
      if isLeading m || isTrailing m then none else (join? ps).map (Char.ofNat m :: ·)
termination_by structural ps => ps

/-- What stands between quotes, read: `none` if it is badly written, and no text inside if it
stands for none. -/
def unescape? (cs : List Char) : Option (Option String) :=
  (pieces? cs).map fun ps => (join? ps).map String.ofList

end Json
end StaticTyping
