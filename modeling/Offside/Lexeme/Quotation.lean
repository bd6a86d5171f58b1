namespace Offside.Lexeme

/-- A string within a line: it ends at its quote or, unclosed, before the line feed, which a
backslash does not hide. -/
def shortTail (quote : Char) : List Char → Nat × Bool
  | [] => (0, false)
  | ['\\'] => (1, false)
  | '\\' :: c :: cs =>
    if c = '\n' then (1, false)
    else
      let (n, terminated) := shortTail quote cs
      (n + 2, terminated)
  | c :: cs =>
    if c = '\n' then (0, false)
    else if c = quote then (1, true)
    else
      let (n, terminated) := shortTail quote cs
      (n + 1, terminated)

/-- A string over lines: it ends at three quotes or at the end of the text. -/
def longTail (quote : Char) : List Char → Nat × Bool
  | [] => (0, false)
  | ['\\'] => (1, false)
  | '\\' :: _ :: cs =>
    let (n, terminated) := longTail quote cs
    (n + 2, terminated)
  | c :: cs =>
    if c = quote ∧ [quote, quote].isPrefixOf cs then (3, true)
    else
      let (n, terminated) := longTail quote cs
      (n + 1, terminated)

end Offside.Lexeme
