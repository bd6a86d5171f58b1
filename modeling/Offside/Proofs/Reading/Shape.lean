import Offside.Grammar.Extension
import Offside.Proofs.Reading

namespace Offside

section Pieces

mutual

def Expr.pieces : Expr → List Piece
  | .integer _ text value => [.integer text value]
  | .float _ value => [.float value]
  | .string _ value => [.strings value]
  | .boolean _ value => [.fixed (if value then .kwTrue else .kwFalse)]
  | .noneLiteral _ => [.fixed .kwNone]
  | .symbol _ name => [.name name]
  | .list _ elements =>
    .fixed .openBracket :: (Piece.commaList (Expr.piecesAll elements) ++ [.fixed .closeBracket])
  | .tuple _ elements =>
    .fixed .openParen :: (Piece.tupleList (Expr.piecesAll elements) ++ [.fixed .closeParen])
  | .set _ elements =>
    .fixed .openCurly :: (Piece.commaList (Expr.piecesAll elements) ++ [.fixed .closeCurly])
  | .dict _ entries =>
    .fixed .openCurly :: (Piece.commaList (Expr.piecesEntries entries) ++ [.fixed .closeCurly])
  | .parenthesized _ inner => .fixed .openParen :: (inner.pieces ++ [.fixed .closeParen])
  | .call _ callee arguments =>
    callee.pieces ++
      .fixed .openParen :: (Piece.commaList (Argument.piecesAll arguments) ++ [.fixed .closeParen])
  | .genericCall _ callee typeArguments arguments =>
    callee.pieces ++
      .fixed .openBracket :: (Piece.commaList (Argument.piecesAll typeArguments) ++
        .fixed .closeBracket ::
        .fixed .openParen :: (Piece.commaList (Argument.piecesAll arguments) ++ [.fixed .closeParen]))
  | .member _ object name => object.pieces ++ [.fixed .dot, .name name]
  | .subscript _ object indices =>
    object.pieces ++
      .fixed .openBracket :: (Piece.commaList (Expr.piecesAll indices) ++ [.fixed .closeBracket])
  | .slice _ lower upper step =>
    Expr.piecesOpt lower ++ .fixed .colon :: (Expr.piecesOpt upper ++ Expr.stepPieces step)
  | .transfer _ value => value.pieces ++ [.transfer]
  | .unary _ op operand => .fixed op.kind :: operand.pieces
  | .binary _ op left right => left.pieces ++ .fixed op.kind :: right.pieces
  | .comparison _ first links => first.pieces ++ Expr.piecesLinks links
  | .conditional _ thenValue condition elseValue =>
    thenValue.pieces ++ .fixed .kwIf :: (condition.pieces ++ .fixed .kwElse :: elseValue.pieces)

def Argument.pieces : Argument → List Piece
  | .positional value => value.pieces
  | .keyword _ name value => .name name :: .fixed .assignment :: value.pieces

def Expr.piecesAll : List Expr → List (List Piece)
  | [] => []
  | e :: es => e.pieces :: Expr.piecesAll es

def Expr.piecesEntries : List (Expr × Expr) → List (List Piece)
  | [] => []
  | (key, value) :: rest =>
    (key.pieces ++ .fixed .colon :: value.pieces) :: Expr.piecesEntries rest

def Expr.piecesLinks : List (ComparisonOp × Expr) → List Piece
  | [] => []
  | (op, operand) :: rest => op.kinds.map .fixed ++ operand.pieces ++ Expr.piecesLinks rest

def Expr.piecesOpt : Option Expr → List Piece
  | none => []
  | some e => e.pieces

def Expr.stepPieces : Option Expr → List Piece
  | none => [.optional .colon]
  | some e => .fixed .colon :: e.pieces

def Argument.piecesAll : List Argument → List (List Piece)
  | [] => []
  | a :: as => a.pieces :: Argument.piecesAll as

end

def Expr.entryPieces (entry : Expr × Expr) : List Piece :=
  entry.1.pieces ++ .fixed .colon :: entry.2.pieces

def Expr.linkPieces (link : ComparisonOp × Expr) : List Piece :=
  link.1.kinds.map .fixed ++ link.2.pieces

theorem Expr.piecesAll_eq_map (es : List Expr) : Expr.piecesAll es = es.map Expr.pieces := by
  induction es with
  | nil => rfl
  | cons e es ih => rw [Expr.piecesAll, ih, List.map_cons]

theorem Expr.piecesEntries_eq_map (entries : List (Expr × Expr)) :
    Expr.piecesEntries entries = entries.map Expr.entryPieces := by
  induction entries with
  | nil => rfl
  | cons entry entries ih => rw [Expr.piecesEntries, ih, List.map_cons, Expr.entryPieces]

theorem Expr.piecesLinks_eq_flatMap (links : List (ComparisonOp × Expr)) :
    Expr.piecesLinks links = links.flatMap Expr.linkPieces := by
  induction links with
  | nil => rfl
  | cons link links ih => rw [Expr.piecesLinks, ih, List.flatMap_cons, Expr.linkPieces]

theorem Argument.piecesAll_eq_map (as : List Argument) : Argument.piecesAll as = as.map Argument.pieces := by
  induction as with
  | nil => rfl
  | cons a as ih => rw [Argument.piecesAll, ih, List.map_cons]

end Pieces

namespace Expr

/-- How tightly the outermost operator of an expression binds. -/
def level : Expr → Level
  | unary _ op _ => op.level
  | binary _ op _ _ => op.level
  | comparison .. => .comparison
  | conditional .. => .conditional
  | call .. | genericCall .. | member .. | subscript .. | transfer .. => .trailer
  | slice .. => .lowest
  | _ => .primary

def isPrefix : Expr → Bool
  | unary .. => true
  | _ => false

def isSubscript : Expr → Bool
  | subscript .. => true
  | _ => false

end Expr

/-- Where a part of an expression stands. -/
inductive Place where
  /-- Before an operator that groups to the left. -/
  | left (level : Level)
  /-- Behind an operator that groups to the left. -/
  | right (level : Level)
  | base
  | exponent
  /-- First in a comparison. -/
  | first
  /-- Behind an operator of a comparison. -/
  | compared
  | negated
  | signed
  /-- Before a name, brackets or a caret. -/
  | object
  /-- Before the parentheses of a call. -/
  | callee
  /-- A value or the condition before the `else` of a conditional, or an argument. -/
  | value
  /-- In brackets, or behind `else`. -/
  | free
  deriving DecidableEq

namespace BinaryOp

def leftPlace (op : BinaryOp) : Place := if op = power then .base else .left op.level

def rightPlace (op : BinaryOp) : Place := if op = power then .exponent else .right op.level

end BinaryOp

def UnaryOp.place (op : UnaryOp) : Place := if op = not then .negated else .signed

/-- An expression whose parts can all stand in their places, by a rule for places. -/
inductive Expr.Shaped (ok : Place → Expr → Prop) : Expr → Prop where
  | integer {s text value} : Shaped ok (.integer s text value)
  | float {s value} : Shaped ok (.float s value)
  | string {s value} : Shaped ok (.string s value)
  | boolean {s value} : Shaped ok (.boolean s value)
  | noneLiteral {s} : Shaped ok (.noneLiteral s)
  | symbol {s name} : Shaped ok (.symbol s name)
  | list {s elements} (shaped : ∀ e ∈ elements, Shaped ok e) (placed : ∀ e ∈ elements, ok .free e) :
      Shaped ok (.list s elements)
  | tuple {s elements} (shaped : ∀ e ∈ elements, Shaped ok e) (placed : ∀ e ∈ elements, ok .free e) :
      Shaped ok (.tuple s elements)
  | set {s elements} (ne_nil : elements ≠ []) (shaped : ∀ e ∈ elements, Shaped ok e)
      (placed : ∀ e ∈ elements, ok .free e) : Shaped ok (.set s elements)
  | dict {s entries} (keys : ∀ entry ∈ entries, Shaped ok (Prod.fst entry))
      (values : ∀ entry ∈ entries, Shaped ok (Prod.snd entry))
      (placed : ∀ entry ∈ entries, ok .free (Prod.fst entry) ∧ ok .free (Prod.snd entry)) :
      Shaped ok (.dict s entries)
  | parenthesized {s inner} (shaped : Shaped ok inner) (placed : ok .free inner) :
      Shaped ok (.parenthesized s inner)
  | call {s callee arguments} (shaped : Shaped ok callee) (placed : ok .callee callee)
      (values : ∀ a ∈ arguments, Shaped ok (Argument.value a))
      (valuesPlaced : ∀ a ∈ arguments, ok .value (Argument.value a)) :
      Shaped ok (.call s callee arguments)
  | genericCall {s callee typeArguments arguments} (shaped : Shaped ok callee)
      (placed : ok .object callee) (ne_nil : typeArguments ≠ [])
      (types : ∀ a ∈ typeArguments, Shaped ok (Argument.value a))
      (typesPlaced : ∀ a ∈ typeArguments, ok .value (Argument.value a))
      (values : ∀ a ∈ arguments, Shaped ok (Argument.value a))
      (valuesPlaced : ∀ a ∈ arguments, ok .value (Argument.value a)) :
      Shaped ok (.genericCall s callee typeArguments arguments)
  | member {s object name} (shaped : Shaped ok object) (placed : ok .object object) :
      Shaped ok (.member s object name)
  | subscript {s object indices} (shaped : Shaped ok object) (placed : ok .object object)
      (ne_nil : indices ≠ []) (parts : ∀ e ∈ indices, Shaped ok e)
      (partsPlaced : ∀ e ∈ indices, Expr.isSlice e = false → ok .free e) :
      Shaped ok (.subscript s object indices)
  | slice {s lower upper step} (shaped : ∀ bound ∈ [lower, upper, step], ∀ e ∈ bound, Shaped ok e)
      (placed : ∀ bound ∈ [lower, upper, step], ∀ e ∈ bound, ok .free e) :
      Shaped ok (.slice s lower upper step)
  | transfer {s value} (shaped : Shaped ok value) (placed : ok .object value) :
      Shaped ok (.transfer s value)
  | unary {s op operand} (shaped : Shaped ok operand) (placed : ok (UnaryOp.place op) operand) :
      Shaped ok (.unary s op operand)
  | binary {s op left right} (left_shaped : Shaped ok left) (right_shaped : Shaped ok right)
      (left_placed : ok (BinaryOp.leftPlace op) left)
      (right_placed : ok (BinaryOp.rightPlace op) right) : Shaped ok (.binary s op left right)
  | comparison {s first links} (ne_nil : links ≠ []) (shaped : Shaped ok first)
      (operands : ∀ link ∈ links, Shaped ok (Prod.snd link)) (placed : ok .first first)
      (operandsPlaced : ∀ link ∈ links, ok .compared (Prod.snd link)) :
      Shaped ok (.comparison s first links)
  | conditional {s thenValue condition elseValue} (then_shaped : Shaped ok thenValue)
      (condition_shaped : Shaped ok condition) (else_shaped : Shaped ok elseValue)
      (then_placed : ok .value thenValue) (condition_placed : ok .value condition)
      (else_placed : ok .free elseValue) : Shaped ok (.conditional s thenValue condition elseValue)

end Offside
