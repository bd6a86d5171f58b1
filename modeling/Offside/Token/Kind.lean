namespace Offside

inductive Kind where
  | eof
  | newline | indent | dedent
  | comment
  | integer | float | string | identifier
  | openBracket | closeBracket | openCurly | closeCurly | openParen | closeParen
  | assignment | equals | notEquals | less | lessEquals | greater | greaterEquals
  | dot | comma | colon | semicolon | arrow | atSign
  | plus | dash | star | starStar | slash | slashSlash | percent | pipe | caret | ampersand
  | tilde | shiftLeft | shiftRight
  | plusEquals | minusEquals | starEquals | starStarEquals | slashEquals | slashSlashEquals
  | percentEquals | pipeEquals | caretEquals | ampersandEquals | shiftLeftEquals
  | shiftRightEquals
  | kwImport | kwFrom | kwAs | kwVar | kwAlias | kwReturn | kwPass | kwBreak | kwContinue
  | kwRaise | kwDef | kwFn | kwStruct | kwTrait | kwIf | kwElif | kwElse | kwFor | kwWhile | kwIn
  | kwIs | kwAnd | kwOr | kwNot | kwTrue | kwFalse | kwNone
  deriving DecidableEq, Inhabited

namespace Kind

def all : List Kind :=
  [.eof, .newline, .indent, .dedent, .comment, .integer, .float, .string, .identifier,
   .openBracket, .closeBracket, .openCurly, .closeCurly, .openParen, .closeParen, .assignment,
   .equals, .notEquals, .less, .lessEquals, .greater, .greaterEquals, .dot, .comma, .colon,
   .semicolon, .arrow, .atSign, .plus, .dash, .star, .starStar, .slash, .slashSlash, .percent,
   .pipe, .caret, .ampersand, .tilde, .shiftLeft, .shiftRight, .plusEquals, .minusEquals,
   .starEquals, .starStarEquals, .slashEquals, .slashSlashEquals, .percentEquals, .pipeEquals,
   .caretEquals, .ampersandEquals, .shiftLeftEquals, .shiftRightEquals, .kwImport, .kwFrom,
   .kwAs, .kwVar, .kwAlias, .kwReturn, .kwPass, .kwBreak, .kwContinue, .kwRaise, .kwDef, .kwFn,
   .kwStruct, .kwTrait, .kwIf, .kwElif, .kwElse, .kwFor, .kwWhile, .kwIn, .kwIs, .kwAnd, .kwOr,
   .kwNot, .kwTrue, .kwFalse, .kwNone]

def name : Kind → String
  | .eof => "EOF"
  | .newline => "Newline"
  | .indent => "Indent"
  | .dedent => "Dedent"
  | .comment => "Comment"
  | .integer => "Integer"
  | .float => "Float"
  | .string => "String"
  | .identifier => "Identifier"
  | .openBracket => "OpenBracket"
  | .closeBracket => "CloseBracket"
  | .openCurly => "OpenCurly"
  | .closeCurly => "CloseCurly"
  | .openParen => "OpenParen"
  | .closeParen => "CloseParen"
  | .assignment => "Assignment"
  | .equals => "Equals"
  | .notEquals => "NotEquals"
  | .less => "Less"
  | .lessEquals => "LessEquals"
  | .greater => "Greater"
  | .greaterEquals => "GreaterEquals"
  | .dot => "Dot"
  | .comma => "Comma"
  | .colon => "Colon"
  | .semicolon => "Semicolon"
  | .arrow => "Arrow"
  | .atSign => "At"
  | .plus => "Plus"
  | .dash => "Dash"
  | .star => "Star"
  | .starStar => "StarStar"
  | .slash => "Slash"
  | .slashSlash => "SlashSlash"
  | .percent => "Percent"
  | .pipe => "Pipe"
  | .caret => "Caret"
  | .ampersand => "Ampersand"
  | .tilde => "Tilde"
  | .shiftLeft => "ShiftLeft"
  | .shiftRight => "ShiftRight"
  | .plusEquals => "PlusEquals"
  | .minusEquals => "MinusEquals"
  | .starEquals => "StarEquals"
  | .starStarEquals => "StarStarEquals"
  | .slashEquals => "SlashEquals"
  | .slashSlashEquals => "SlashSlashEquals"
  | .percentEquals => "PercentEquals"
  | .pipeEquals => "PipeEquals"
  | .caretEquals => "CaretEquals"
  | .ampersandEquals => "AmpersandEquals"
  | .shiftLeftEquals => "ShiftLeftEquals"
  | .shiftRightEquals => "ShiftRightEquals"
  | .kwImport => "Import"
  | .kwFrom => "From"
  | .kwAs => "As"
  | .kwVar => "Var"
  | .kwAlias => "Alias"
  | .kwReturn => "Return"
  | .kwPass => "Pass"
  | .kwBreak => "Break"
  | .kwContinue => "Continue"
  | .kwRaise => "Raise"
  | .kwDef => "Def"
  | .kwFn => "Fn"
  | .kwStruct => "Struct"
  | .kwTrait => "Trait"
  | .kwIf => "If"
  | .kwElif => "Elif"
  | .kwElse => "Else"
  | .kwFor => "For"
  | .kwWhile => "While"
  | .kwIn => "In"
  | .kwIs => "Is"
  | .kwAnd => "And"
  | .kwOr => "Or"
  | .kwNot => "Not"
  | .kwTrue => "True"
  | .kwFalse => "False"
  | .kwNone => "NoneKw"

def ofName? (text : String) : Option Kind := all.find? fun k => k.name == text

def spelling : Kind → String
  | .openBracket => "["
  | .closeBracket => "]"
  | .openCurly => "\x7b"
  | .closeCurly => "\x7d"
  | .openParen => "("
  | .closeParen => ")"
  | .assignment => "="
  | .equals => "=="
  | .notEquals => "!="
  | .less => "<"
  | .lessEquals => "<="
  | .greater => ">"
  | .greaterEquals => ">="
  | .dot => "."
  | .comma => ","
  | .colon => ":"
  | .semicolon => ";"
  | .arrow => "->"
  | .atSign => "@"
  | .plus => "+"
  | .dash => "-"
  | .star => "*"
  | .starStar => "**"
  | .slash => "/"
  | .slashSlash => "//"
  | .percent => "%"
  | .pipe => "|"
  | .caret => "^"
  | .ampersand => "&"
  | .tilde => "~"
  | .shiftLeft => "<<"
  | .shiftRight => ">>"
  | .plusEquals => "+="
  | .minusEquals => "-="
  | .starEquals => "*="
  | .starStarEquals => "**="
  | .slashEquals => "/="
  | .slashSlashEquals => "//="
  | .percentEquals => "%="
  | .pipeEquals => "|="
  | .caretEquals => "^="
  | .ampersandEquals => "&="
  | .shiftLeftEquals => "<<="
  | .shiftRightEquals => ">>="
  | .kwImport => "import"
  | .kwFrom => "from"
  | .kwAs => "as"
  | .kwVar => "var"
  | .kwAlias => "alias"
  | .kwReturn => "return"
  | .kwPass => "pass"
  | .kwBreak => "break"
  | .kwContinue => "continue"
  | .kwRaise => "raise"
  | .kwDef => "def"
  | .kwFn => "fn"
  | .kwStruct => "struct"
  | .kwTrait => "trait"
  | .kwIf => "if"
  | .kwElif => "elif"
  | .kwElse => "else"
  | .kwFor => "for"
  | .kwWhile => "while"
  | .kwIn => "in"
  | .kwIs => "is"
  | .kwAnd => "and"
  | .kwOr => "or"
  | .kwNot => "not"
  | .kwTrue => "True"
  | .kwFalse => "False"
  | .kwNone => "None"
  | _ => ""

def words : List Kind :=
  [.kwImport, .kwFrom, .kwAs, .kwVar, .kwAlias, .kwReturn, .kwPass, .kwBreak, .kwContinue,
   .kwRaise, .kwDef, .kwFn, .kwStruct, .kwTrait, .kwIf, .kwElif, .kwElse, .kwFor, .kwWhile,
   .kwIn, .kwIs, .kwAnd, .kwOr, .kwNot, .kwTrue, .kwFalse, .kwNone]

def ofWord? (text : String) : Option Kind := words.find? fun k => k.spelling == text

/-- The operators and separators, longer spellings first. -/
def operators : List Kind :=
  [.starStarEquals, .slashSlashEquals, .shiftLeftEquals, .shiftRightEquals, .equals, .notEquals,
   .lessEquals, .greaterEquals, .arrow, .starStar, .slashSlash, .shiftLeft, .shiftRight,
   .plusEquals, .minusEquals, .starEquals, .slashEquals, .percentEquals, .pipeEquals,
   .caretEquals, .ampersandEquals, .assignment, .less, .greater, .dot, .comma, .colon,
   .semicolon, .atSign, .plus, .dash, .star, .slash, .percent, .pipe, .caret, .ampersand, .tilde]

def isLayout : Kind → Bool
  | .newline | .indent | .dedent | .eof => true
  | _ => false

def isAugmentedAssignment : Kind → Bool
  | .plusEquals | .minusEquals | .starEquals | .starStarEquals | .slashEquals | .slashSlashEquals
  | .percentEquals | .pipeEquals | .caretEquals | .ampersandEquals | .shiftLeftEquals
  | .shiftRightEquals => true
  | _ => false

def startsOperand : Kind → Bool
  | .identifier | .integer | .float | .string | .kwTrue | .kwFalse | .kwNone | .openParen
  | .openBracket | .openCurly | .plus | .dash | .tilde | .kwNot => true
  | _ => false

end Kind

end Offside
