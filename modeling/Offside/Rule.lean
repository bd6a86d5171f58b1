import Offside.Cursor

namespace Offside

abbrev Rule (α : Type) := EStateM Diagnostic Cursor α

section Loops

variable {ε σ α : Type}

def many (size : σ → Nat) (step : EStateM ε σ (Option α)) : EStateM ε σ (List α) := fun s =>
  match step s with
  | .error e s' => .error e s'
  | .ok none s' => .ok [] s'
  | .ok (some a) s' =>
    if size s' < size s then
      match many size step s' with
      | .ok as s'' => .ok (a :: as) s''
      | .error e s'' => .error e s''
    else .ok [a] s'
termination_by s => size s

def iterate (size : σ → Nat) (step : α → EStateM ε σ (Option α)) (a : α) : EStateM ε σ α := fun s =>
  match step a s with
  | .error e s' => .error e s'
  | .ok none s' => .ok a s'
  | .ok (some b) s' => if size s' < size s then iterate size step b s' else .ok b s'
termination_by s => size s

end Loops

namespace Rule

def fail {α : Type} (cause : Cause) (span : Span) : Rule α := fun c => .error ⟨cause, span⟩ c

def current : Rule Token := fun c => .ok c.current c

def kind : Rule Kind := fun c => .ok c.kind c

def peek (n : Nat) : Rule Kind := fun c => .ok (c.peek n) c

def previousEnd : Rule Offset := fun c => .ok c.previousEnd c

def here : Rule Offset := fun c => .ok c.current.span.start c

def advance : Rule Token := fun c => .ok c.current c.advance

def unexpected {α : Type} : Rule α := fun c => .error c.unexpected c

def unexpectedDetailed {α : Type} (message : String) : Rule α := fun c =>
  .error (c.unexpectedDetailed message) c

def eat (k : Kind) : Rule Bool := fun c =>
  if c.kind = k then .ok true c.advance else .ok false c

def expect (k : Kind) : Rule Token := fun c =>
  if c.kind = k then .ok c.current c.advance else .error c.unexpected c

def expectDetailed (k : Kind) (message : String) : Rule Token := fun c =>
  if c.kind = k then .ok c.current c.advance else .error (c.unexpectedDetailed message) c

section Runs

variable {α : Type} {c : Cursor} {k : Kind}

theorem current_run {g : Token → Rule α} : (current >>= g) c = g c.current c := rfl

theorem kind_run {g : Kind → Rule α} : (kind >>= g) c = g c.kind c := rfl

theorem peek_run {n : Nat} {g : Kind → Rule α} : (peek n >>= g) c = g (c.peek n) c := rfl

theorem here_run {g : Offset → Rule α} : (here >>= g) c = g c.current.span.start c := rfl

theorem advance_run {g : Token → Rule α} : (advance >>= g) c = g c.current c.advance := rfl

theorem expect_ok (h : c.kind = k) : expect k c = .ok c.current c.advance := if_pos h

theorem expectDetailed_ok {message : String} (h : c.kind = k) :
    expectDetailed k message c = .ok c.current c.advance := if_pos h

theorem eat_ok (h : c.kind = k) : eat k c = .ok true c.advance := if_pos h

theorem eat_not (h : c.kind ≠ k) : eat k c = .ok false c := if_neg h

end Runs

def repeated {α : Type} (step : Rule (Option α)) : Rule (List α) := many Cursor.remaining step

def introduced {α : Type} (k : Kind) (value : Rule α) : Rule (Option α) := do
  if ← eat k then some <$> value else return none

/-- A comma and the item behind it, where a comma stands. Behind the comma the list may end before a
token that `stop` picks out. -/
def commaRound {α : Type} (stop : Kind → Bool) (item : Rule α) : Rule (Option α) := do
  if ← eat .comma then
    if stop (← kind) then return none else some <$> item
  else return none

def commaTail {α : Type} (stop : Kind → Bool) (item : Rule α) : Rule (List α) :=
  repeated (commaRound stop item)

def commaList {α : Type} (stop : Kind → Bool) (item : Rule α) : Rule (List α) := do
  let first ← item
  let rest ← commaTail stop item
  return first :: rest

def listUpTo {α : Type} (close : Kind) (item : Rule α) : Rule (List α) := do
  if (← kind) = close then return [] else commaList (· == close) item

end Rule

end Offside
