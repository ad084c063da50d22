/-!
# Positions in a style sheet

A span is a pair of byte offsets into the UTF-8 text of a style sheet.

* `Position` is a line and a column, both counted from one; a column counts characters, whatever
  number of bytes they take, and the counters stop at their largest value.
* `Span.position` is the position of the start of a span.
-/

namespace StyleFunctions

/-- A range of byte offsets, the end not included. -/
structure Span where
  start : UInt32
  stop : UInt32
  deriving DecidableEq, Repr

/-- A line and a column, both counted from one. -/
structure Position where
  line : UInt32
  column : UInt32
  deriving DecidableEq, Repr

/-- The counter that follows `n`; the last one follows itself. -/
def nextCount (n : UInt32) : UInt32 := if n = 0xFFFFFFFF then n else n + 1

namespace Position

/-- The start of a text. -/
def origin : Position := ⟨1, 1⟩

/-- The position after a character. -/
def advance (p : Position) (c : Char) : Position :=
  if c = '\n' then ⟨nextCount p.line, 1⟩ else ⟨p.line, nextCount p.column⟩

/-- The position reached over the characters of a text that start before byte `offset`, when
the first character starts at byte `start`. -/
def walk (offset : Nat) : List Char → (start : Nat) → Position → Position
  | [], _, p => p
  | c :: rest, start, p =>
    if offset ≤ start then p else walk offset rest (start + c.utf8Size) (p.advance c)

/-- A line and a column with a colon between them. -/
def text (p : Position) : String := toString p.line.toNat ++ ":" ++ toString p.column.toNat

end Position

namespace Span

/-- The position of the start of a span.  An offset within a character counts as one after it,
and an offset past the end as the end. -/
def position (s : Span) (source : String) : Position :=
  Position.walk (min s.start.toNat source.utf8ByteSize) source.toList 0 Position.origin

/-- The two offsets with two points between them. -/
def text (s : Span) : String := toString s.start.toNat ++ ".." ++ toString s.stop.toNat

end Span

end StyleFunctions
