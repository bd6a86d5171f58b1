import Offside.Document

namespace Offside

open Layout (LineState Snapshot)

/-- A replacement: the bytes from `start` to `oldStop` of the old text became those from `start` to
`newStop` of the new one. -/
structure Edit where
  start : Offset
  oldStop : Offset
  newStop : Offset
  deriving DecidableEq, Inhabited

namespace Edit

def delta (e : Edit) : Int := (e.newStop.toNat : Int) - e.oldStop.toNat

def replacing (start oldStop length : Nat) : Edit :=
  ⟨UInt32.ofNat start, UInt32.ofNat oldStop, UInt32.ofNat (start + length)⟩

def replace? (source : String) (start oldStop : Nat) (text : String) : Option (String × Edit) :=
  (Text.replaceBytes? start oldStop text.toList source.toList).map fun cs =>
    (String.ofList cs, replacing start oldStop (Text.byteSize text.toList))

def isConsistent (e : Edit) (oldLength newLength : Nat) : Bool :=
  e.start ≤ e.oldStop && e.start ≤ e.newStop && decide (e.oldStop.toNat ≤ oldLength) &&
    decide (e.newStop.toNat ≤ newLength) && decide ((oldLength : Int) + e.delta = newLength)

end Edit

namespace Document

def hasFaultAt (d : Document) (offset : Offset) : Bool :=
  d.diagnostics.any fun fault => fault.span.start == offset

/-- How many leading statements an edit leaves alone, and where the next one starts. A statement is
left alone when the edit begins behind the start of the next one; but a fault at that start may be
the statement's own, so then it is not. -/
def untouched (d : Document) (edit : Edit) : Nat × Offset :=
  let next := d.body.tail.takeWhile fun s => decide (s.span.start < edit.start)
  match next.reverse.dropWhile fun s => d.hasFaultAt s.span.start with
  | [] => (0, 0)
  | s :: earlier => (earlier.length + 1, s.span.start)

def startsLine (source : String) (offset : Offset) : Bool :=
  match Text.splitAtByte? offset.toNat source.toList with
  | some (before, c :: _) =>
    (before.getLast?.getD '\n' == '\n') && !([' ', '\t', '\r', '\n', '#'].contains c)
  | _ => false

def resumePoint? (d : Document) (source : String) (edit : Edit) : Option (Nat × Offset) :=
  let (kept, offset) := d.untouched edit
  if kept = 0 ∨ startsLine source offset then some (kept, offset) else none

def snapshotAt? (d : Document) (offset : Offset) : Option Snapshot :=
  if offset = 0 then some {}
  else
    match d.lineStates.find? fun s => s.offset == offset with
    | some s => if s.snapshot.depth = 0 then some s.snapshot else none
    | none => none

/-- The starts, in the new text, of the statements behind the first affected one that lie wholly
behind the edit. A start with a fault may owe it to the statement before, so it is left out. -/
def stopPoints (d : Document) (edit : Edit) (kept : Nat) : List Offset :=
  (((d.body.drop (kept + 1)).filter fun s => !s.isError).map fun s => s.span.start).filterMap
    fun start =>
      if edit.oldStop ≤ start ∧ !d.hasFaultAt start then some (Offset.shift start edit.delta)
      else none

def keptPart (d : Document) (kept : Nat) (offset : Offset) : Part :=
  { body := d.body.take kept
    diagnostics := d.diagnostics.filter fun fault => decide (fault.span.start < offset)
    comments := d.comments.filter fun t => decide (t.span.start < offset)
    lineStates := d.lineStates.filter fun s => decide (s.offset < offset) }

/-- The part of a document from the statement at an offset on, moved. The line state at the offset
itself is not in it. -/
def movedPart (d : Document) (offset : Offset) (delta : Int) : Part :=
  { body := (d.body.dropWhile fun s => s.span.start != offset).map fun s => s.shift delta
    diagnostics :=
      (d.diagnostics.filter fun fault => decide (offset ≤ fault.span.start)).map fun fault =>
        fault.shift delta
    comments :=
      (d.comments.filter fun t => decide (offset ≤ t.span.start)).map fun t => t.shift delta
    lineStates :=
      (d.lineStates.filter fun s => decide (offset < s.offset)).map fun s => s.shift delta }

/-- The old statements behind a scan that stopped. They can be taken over if a statement started
there and all faults found lie before. -/
def takenOver? (d : Document) (edit : Edit) (stop : Offset) (fresh : Part) : Option Part :=
  let oldStop := Offset.shift stop (-edit.delta)
  if (fresh.diagnostics.all fun fault => decide (fault.span.start < stop)) ∧
      (d.body.any fun s => s.span.start == oldStop) then
    some (d.movedPart oldStop edit.delta)
  else none

/-- The scan of the text from the first affected statement on, with what is kept before it. -/
def rescan? (cfg : Config) (d : Document) (source : String) (edit : Edit) :
    Option ((Nat × Offset) × Scan.Result) :=
  if d.cancelled ∨ d.body.isEmpty ∨
      !edit.isConsistent d.span.stop.toNat (Text.byteSize source.toList) then none
  else do
    let (kept, offset) ← d.resumePoint? source edit
    let snapshot ← d.snapshotAt? offset
    let state ← Scan.State.resume? source offset.toNat snapshot
    return ((kept, offset), Scan.run cfg (d.stopPoints edit kept) state)

/-- The tokens of a scan that resumed, without the dedents that close what stands before it. -/
def ownTokens (scan : Scan.Result) : List Token := scan.tokens.dropWhile fun t => t.kind == .dedent

def reuse? (cfg : Config) (d : Document) (source : String) (edit : Edit) : Option Document := do
  let ((kept, offset), scan) ← d.rescan? cfg source edit
  let parsed := Grammar.parse cfg (ownTokens scan)
  let fresh := Part.ofScan scan parsed
  let behind ← match scan.stoppedAt with
    | some stop => if parsed.cancelled then some {} else d.takenOver? edit stop fresh
    | none => some {}
  return ofPart source (d.keptPart kept offset ++ fresh ++ behind) parsed.cancelled

/-- How often the flag that cancels a parse has been looked at where a document cannot be reused. -/
def pollsBefore (cfg : Config) (d : Document) (source : String) (edit : Edit) : Nat :=
  match d.rescan? cfg source edit with
  | some (_, scan) => (Grammar.topLevel cfg (ownTokens scan)).2.polls
  | none => 0

def reparse (cfg : Config) (d : Document) (source : String) (edit : Edit) : Document :=
  (d.reuse? cfg source edit).getD (parse (cfg.spend (d.pollsBefore cfg source edit)) source)

end Document

end Offside
