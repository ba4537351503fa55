import StaticTyping.Json.Quoted
import StaticTyping.Json.Numeral

/-!
# Tokens of the format

A text is cut into tokens character by character.  Between tokens there may be blanks.  In the
format no two values stand side by side, so a word or a numeral is over where the first character
stands that cannot belong to it.
-/

namespace StaticTyping
namespace Json

/-- The parts a document is written with. -/
inductive Token where
  | openBrace
  | closeBrace
  | openBracket
  | closeBracket
  | comma
  | colon
  | null
  | bool (value : Bool)
  | num (digits : String)
  | str (text : Option String)
deriving DecidableEq

inductive Pending where
  | nothing
  | word (cs : List Char)
  | numeral (cs : List Char)
  | quoted (cs : List Char)
  | escaped (cs : List Char)

def isBlank (c : Char) : Bool :=
  c == ' ' || c == '\n' || c == '\t' || c == '\r'

def inNumeral (c : Char) : Bool :=
  c.isDigit || c == '-' || c == '+' || c == '.' || c == 'e' || c == 'E'

def mark? : Char → Option Token
  | '\x7b' => some .openBrace
  | '\x7d' => some .closeBrace
  | '[' => some .openBracket
  | ']' => some .closeBracket
  | ',' => some .comma
  | ':' => some .colon
  | _ => none

def word? (cs : List Char) : Option Token :=
  if cs = ['n', 'u', 'l', 'l'] then some .null
  else if cs = ['t', 'r', 'u', 'e'] then some (.bool true)
  else if cs = ['f', 'a', 'l', 's', 'e'] then some (.bool false)
  else none

def numeral? (cs : List Char) : Option Token :=
  if isNumeral cs then some (.num (String.ofList cs)) else none

/-- The state of a scan: the tokens found, last first, and the one under way. -/
structure Scan where
  tokens : List Token
  pending : Pending

namespace Scan

def start : Scan :=
  ⟨[], .nothing⟩

def begin? (tokens : List Token) (c : Char) : Option Scan :=
  if isBlank c then some ⟨tokens, .nothing⟩
  else if c == '"' then some ⟨tokens, .quoted []⟩
  else if c.isDigit || c == '-' then some ⟨tokens, .numeral [c]⟩
  else if c.isLower then some ⟨tokens, .word [c]⟩
  else (mark? c).map fun t => ⟨t :: tokens, .nothing⟩

def step? (s : Scan) (c : Char) : Option Scan :=
  match s.pending with
  | .nothing => begin? s.tokens c
  | .word cs =>
      if c.isLower then some ⟨s.tokens, .word (c :: cs)⟩
      else (word? cs.reverse).bind fun t => begin? (t :: s.tokens) c
  | .numeral cs =>
      if inNumeral c then some ⟨s.tokens, .numeral (c :: cs)⟩
      else (numeral? cs.reverse).bind fun t => begin? (t :: s.tokens) c
  | .quoted cs =>
      if c == '"' then (unescape? cs.reverse).map fun text => ⟨.str text :: s.tokens, .nothing⟩
      else if c == '\\' then some ⟨s.tokens, .escaped (c :: cs)⟩
      else some ⟨s.tokens, .quoted (c :: cs)⟩
  | .escaped cs => some ⟨s.tokens, .quoted (c :: cs)⟩

def finish? (s : Scan) : Option (List Token) :=
  match s.pending with
  | .nothing => some s.tokens
  | .word cs => (word? cs.reverse).map (· :: s.tokens)
  | .numeral cs => (numeral? cs.reverse).map (· :: s.tokens)
  | .quoted _ | .escaped _ => none

def steps? : Scan → List Char → Option Scan
  | s, [] => some s
  | s, c :: cs => (s.step? c).bind fun s => steps? s cs

end Scan

def tokens? (cs : List Char) : Option (List Token) :=
  ((Scan.start.steps? cs).bind Scan.finish?).map List.reverse

end Json
end StaticTyping
