/-!
# Source positions

A span runs from a start position to an end position, lines and columns both counted from one.
Identifiers are names that remember where they were written.
-/

namespace StaticTyping

/-- A stretch of source text, from its first position to its last. -/
structure Span where
  startLine : UInt32
  startCol : UInt32
  endLine : UInt32
  endCol : UInt32
deriving DecidableEq, Inhabited

namespace Span

def point (line col : UInt32) : Span :=
  ⟨line, col, line, col⟩

def atLine (line : UInt32) : Span :=
  point line 1

def line (s : Span) : UInt32 :=
  s.startLine

def cover (a b : Span) : Span where
  startLine := if a.startLine ≤ b.startLine then a.startLine else b.startLine
  startCol :=
    if a.startLine < b.startLine then a.startCol
    else if b.startLine < a.startLine then b.startCol
    else if a.startCol ≤ b.startCol then a.startCol else b.startCol
  endLine := if b.endLine ≤ a.endLine then a.endLine else b.endLine
  endCol :=
    if b.endLine < a.endLine then a.endCol
    else if a.endLine < b.endLine then b.endCol
    else if b.endCol ≤ a.endCol then a.endCol else b.endCol

def text (s : Span) : String :=
  toString s.startLine.toNat ++ ":" ++ toString s.startCol.toNat

end Span

/-- A name together with the place where it was written. -/
structure Ident where
  name : String
  span : Span
deriving DecidableEq, Inhabited

def Ident.line (i : Ident) : UInt32 :=
  i.span.line

end StaticTyping
