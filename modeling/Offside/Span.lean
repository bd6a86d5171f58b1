namespace Offside

/-- A byte offset into a text. -/
abbrev Offset := UInt32

/-- Moves an offset, modulo 2^32. -/
def Offset.shift (o : Offset) (delta : Int) : Offset := o + UInt32.ofInt delta

structure Span where
  start : Offset
  stop : Offset
  deriving DecidableEq, Inhabited

namespace Span

def ofNat (start stop : Nat) : Span := ⟨UInt32.ofNat start, UInt32.ofNat stop⟩

def point (o : Offset) : Span := ⟨o, o⟩

def through (a b : Span) : Span := ⟨a.start, b.stop⟩

def length (s : Span) : UInt32 := s.stop - s.start

def isEmpty (s : Span) : Bool := s.start == s.stop

def shift (s : Span) (delta : Int) : Span := ⟨Offset.shift s.start delta, Offset.shift s.stop delta⟩

end Span

end Offside
