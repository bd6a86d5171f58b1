import Offside.Span
import Offside.Text.Quoted

namespace Offside

inductive Cause where
  | unrecognisedToken (token : String)
  | inconsistentDedent (width : Nat)
  | mixedIndentation
  | unterminatedString
  | unclosedBracket (bracket : String)
  | unexpectedToken (token : String)
  | unexpectedTokenDetailed (token message : String)
  | expectedIndentedBlock
  | invalidNumber (token : String)
  | invalidVariadicParameter (reason : String)
  | decoratorWithoutDefinition (token : String)
  | keywordArgumentOutsideCall (name : String)
  | conventionNotEnabled (convention : String)
  | invalidAssignmentTarget
  | emptyTypeParameterList
  deriving DecidableEq, Inhabited

inductive Stage where
  | scan | parse
  deriving DecidableEq

namespace Cause

def name : Cause → String
  | unrecognisedToken _ => "UnrecognisedToken"
  | inconsistentDedent _ => "InconsistentDedent"
  | mixedIndentation => "MixedIndentation"
  | unterminatedString => "UnterminatedString"
  | unclosedBracket _ => "UnclosedBracket"
  | unexpectedToken _ => "UnexpectedToken"
  | unexpectedTokenDetailed _ _ => "UnexpectedTokenDetailed"
  | expectedIndentedBlock => "ExpectedIndentedBlock"
  | invalidNumber _ => "NumberParseError"
  | invalidVariadicParameter _ => "InvalidVariadicParameter"
  | decoratorWithoutDefinition _ => "DecoratorWithoutDefinition"
  | keywordArgumentOutsideCall _ => "KeywordArgumentOutsideCall"
  | conventionNotEnabled _ => "ConventionNotEnabled"
  | invalidAssignmentTarget => "InvalidAssignmentTarget"
  | emptyTypeParameterList => "EmptyTypeParameterList"

def stage : Cause → Stage
  | unrecognisedToken _ | inconsistentDedent _ | mixedIndentation | unterminatedString
  | unclosedBracket _ => .scan
  | _ => .parse

def category : Cause → String
  | inconsistentDedent _ | mixedIndentation => "indentation-error"
  | unterminatedString => "unterminated-string"
  | unclosedBracket _ => "unclosed-bracket"
  | _ => "unexpected-token"

def message : Cause → String
  | unrecognisedToken token => "unrecognised token: " ++ Text.quoted token
  | inconsistentDedent width =>
    "indentation does not match any enclosing block (width " ++ toString width ++ ")"
  | mixedIndentation => "inconsistent use of tabs and spaces in indentation"
  | unterminatedString => "unterminated string literal"
  | unclosedBracket bracket => "unclosed bracket " ++ Text.quoted bracket
  | unexpectedToken token => "unexpected token: " ++ Text.quoted token
  | unexpectedTokenDetailed token message =>
    "unexpected token (" ++ message ++ "): " ++ Text.quoted token
  | expectedIndentedBlock => "expected an indented block"
  | invalidNumber token => "error parsing number: " ++ Text.quoted token
  | invalidVariadicParameter reason => "invalid variadic parameter: " ++ reason
  | decoratorWithoutDefinition token =>
    "decorator must precede a definition, found " ++ Text.quoted token
  | keywordArgumentOutsideCall name =>
    "keyword argument " ++ Text.quoted name ++ " outside a call argument list"
  | conventionNotEnabled convention =>
    "argument convention " ++ Text.quoted convention ++ " is not enabled"
  | invalidAssignmentTarget => "invalid assignment target"
  | emptyTypeParameterList => "empty type parameter list"

def tip? : Cause → Option String
  | unrecognisedToken _ => none
  | inconsistentDedent width =>
    some ("Indentation of width " ++ toString width ++ " does not match any enclosing block")
  | mixedIndentation => some "Indent with either tabs or spaces, not both"
  | unterminatedString => some "Missing closing quote"
  | unclosedBracket bracket => some ("`" ++ bracket ++ "` is never closed")
  | unexpectedToken token => some ("Unexpected token: `" ++ token ++ "`")
  | unexpectedTokenDetailed token message =>
    some ("Unexpected token: `" ++ token ++ "`, " ++ message)
  | expectedIndentedBlock => some "Expected an indented block or a statement after `:`"
  | invalidNumber token =>
    some ("Invalid number: `" ++ token ++ "`, is it above the integer limit?")
  | invalidVariadicParameter reason => some ("Variadic parameters " ++ reason)
  | decoratorWithoutDefinition token =>
    some ("Decorators must be followed by `def`, `fn`, `struct` or `trait`, found `" ++ token ++
      "`")
  | keywordArgumentOutsideCall name =>
    some ("Keyword argument `" ++ name ++ "` is only allowed in a call argument list")
  | conventionNotEnabled convention =>
    some ("Argument convention `" ++ convention ++ "` is not enabled by the parser configuration")
  | invalidAssignmentTarget =>
    some "Only names, tuples, lists, attributes and subscripts can be assigned to"
  | emptyTypeParameterList => some "Parameter lists in `[...]` need at least one parameter"

end Cause

structure Diagnostic where
  cause : Cause
  span : Span
  deriving DecidableEq, Inhabited

namespace Diagnostic

def shift (d : Diagnostic) (delta : Int) : Diagnostic := { d with span := d.span.shift delta }

def summary (d : Diagnostic) : String :=
  d.cause.category ++ " at " ++ toString d.span.start.toNat ++ ".." ++
    toString d.span.stop.toNat ++ ": " ++ d.cause.message

/-- By position; at one position the faults keep their order. -/
def sort (ds : List Diagnostic) : List Diagnostic :=
  ds.mergeSort fun a b => a.span.start ≤ b.span.start

end Diagnostic

end Offside
