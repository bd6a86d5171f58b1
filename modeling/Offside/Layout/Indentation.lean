namespace Offside.Layout

structure Indentation where
  width : Nat
  /-- How many characters, each one byte long. -/
  length : Nat
  /-- Tabs and spaces both occur. -/
  mixed : Bool
  deriving DecidableEq, Inhabited

def isIndent (c : Char) : Bool := c == ' ' || c == '\t' || c == '\x0c'

def columns (tabWidth : Nat) (c : Char) : Nat :=
  if c = ' ' then 1 else if c = '\t' then tabWidth else 0

def widthOf (tabWidth : Nat) : List Char → Nat
  | [] => 0
  | c :: cs => columns tabWidth c + widthOf tabWidth cs

def Indentation.ofBlanks (tabWidth : Nat) (blanks : List Char) : Indentation where
  width := widthOf tabWidth blanks
  length := blanks.length
  mixed := blanks.contains ' ' && blanks.contains '\t'

def indentation (tabWidth : Nat) (text : List Char) : Indentation :=
  .ofBlanks tabWidth (text.takeWhile isIndent)

def isSpace (c : Char) : Bool := isIndent c || c == '\r'

def startsBlankLine (text : List Char) : Bool :=
  match text.dropWhile isSpace with
  | [] => true
  | c :: _ => c == '\n'

def startsCommentLine (text : List Char) : Bool :=
  match text.dropWhile isSpace with
  | [] => false
  | c :: _ => c == '#'

end Offside.Layout
