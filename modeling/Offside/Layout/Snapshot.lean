import Offside.Span

namespace Offside.Layout

inductive LongQuote where
  | double | single
  deriving DecidableEq, Inhabited

namespace LongQuote

def mark : LongQuote → Char
  | double => '\x22'
  | single => '\x27'

def name : LongQuote → String
  | double => "TripleDouble"
  | single => "TripleSingle"

def ofName? (text : String) : Option LongQuote := [double, single].find? fun q => q.name == text

def delimiter (q : LongQuote) : String := String.ofList [q.mark, q.mark, q.mark]

end LongQuote

structure Snapshot where
  /-- Open indentation levels, innermost first. -/
  levels : List Nat := [0]
  /-- Open brackets. -/
  depth : Nat := 0
  /-- The string that the line starts in. -/
  string : Option LongQuote := none
  deriving DecidableEq, Inhabited

namespace Snapshot

/-- Scanning can start again anywhere but inside a string. -/
def isResumable (s : Snapshot) : Bool := s.string.isNone

def isTopLevel (s : Snapshot) : Bool := s.levels == [0] && s.depth == 0 && s.string.isNone

end Snapshot

/-- The snapshot at a physical line start, before the line's indentation is looked at. -/
structure LineState where
  offset : Offset
  snapshot : Snapshot
  deriving DecidableEq, Inhabited

def LineState.shift (s : LineState) (delta : Int) : LineState :=
  { s with offset := Offset.shift s.offset delta }

end Offside.Layout
