/-
Source locations. A span runs between two positions of one file; lines and
columns count from one. Trees built by hand carry none.
-/

namespace ObjectMachine

/-- A position in a source file. -/
structure Pos where
  offset : Nat
  line : Nat
  column : Nat
deriving Repr, DecidableEq, Inhabited

/-- A stretch of a source file. -/
structure Span where
  start : Pos
  stop : Pos
deriving Repr, DecidableEq, Inhabited

/-- A position as messages show it. -/
def Pos.text (p : Pos) : String := toString p.line ++ ":" ++ toString p.column

namespace Span

/-- A span as messages show it. -/
def text (s : Span) : String := s.start.text ++ "-" ++ s.stop.text

/-- The smallest span over both, by offset. Of two positions at one offset
the first span's is kept. -/
def cover (s t : Span) : Span where
  start := if t.start.offset < s.start.offset then t.start else s.start
  stop := if s.stop.offset < t.stop.offset then t.stop else s.stop

end Span

end ObjectMachine
