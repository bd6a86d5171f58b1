namespace Offside.Layout

inductive Change where
  | indent
  | same
  /-- Levels closed, and whether the line's width is then the innermost level. -/
  | dedent (count : Nat) (matched : Bool)
  deriving DecidableEq, Inhabited

/-- Closes the levels wider than `width`: how many, and what stays open. -/
def closeWider (width : Nat) : List Nat → Nat × List Nat
  | level :: outer :: rest =>
    if width < level then
      let (count, levels) := closeWider width (outer :: rest)
      (count + 1, levels)
    else (0, level :: outer :: rest)
  | levels => (0, levels)

/-- Compares a width with the innermost level and opens or closes levels. -/
def enter (width : Nat) (levels : List Nat) : Change × List Nat :=
  let top := levels.headD 0
  if top < width then (.indent, width :: levels)
  else if width = top then (.same, levels)
  else
    let (count, left) := closeWider width levels
    (.dedent count (left.headD 0 == width), left)

end Offside.Layout
