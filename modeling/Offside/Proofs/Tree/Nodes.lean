import Mathlib
import Offside.Proofs.Tree.Valid

namespace Offside

mutual

/-- The statements inside a statement, at every depth and in the order of the source. -/
def Stmt.inside : Stmt → List Stmt
  | .function _ _ body => body.nodes
  | .typeDecl _ _ body => body.nodes
  | .conditional _ _ body elifs otherwise =>
    body.nodes ++ ElifClause.nodesAll elifs ++ Block.nodesOpt otherwise
  | .forLoop _ _ _ body => body.nodes
  | .whileLoop _ _ body => body.nodes
  | .decorated _ _ definition => definition :: definition.inside
  | _ => []

def Block.nodes : Block → List Stmt
  | .mk _ _ body => Stmt.nodesAll body

def ElifClause.nodes : ElifClause → List Stmt
  | .mk _ _ body => body.nodes

def Stmt.nodesAll : List Stmt → List Stmt
  | [] => []
  | s :: ss => s :: (s.inside ++ Stmt.nodesAll ss)

def ElifClause.nodesAll : List ElifClause → List Stmt
  | [] => []
  | c :: cs => c.nodes ++ ElifClause.nodesAll cs

def Block.nodesOpt : Option Block → List Stmt
  | none => []
  | some b => b.nodes

end

def Stmt.nodes (s : Stmt) : List Stmt := s :: s.inside

theorem Stmt.nodesAll_eq_flatMap (ss : List Stmt) : Stmt.nodesAll ss = ss.flatMap Stmt.nodes := by
  induction ss with
  | nil => rfl
  | cons s ss ih =>
    rw [Stmt.nodesAll, ih]
    rfl

theorem Block.nodes_eq_flatMap (b : Block) : b.nodes = b.body.flatMap Stmt.nodes := by
  obtain ⟨s, inline, body⟩ := b
  exact Stmt.nodesAll_eq_flatMap body

theorem ElifClause.nodesAll_eq_flatMap (cs : List ElifClause) :
    ElifClause.nodesAll cs = cs.flatMap ElifClause.nodes := by
  induction cs with
  | nil => rfl
  | cons c cs ih =>
    rw [ElifClause.nodesAll, ih]
    rfl

/-- A statement of one line holds no other one. -/
theorem Stmt.inside_of_isSimple {s : Stmt} (h : s.isSimple = true) : s.inside = [] := by
  cases s
  all_goals first | rfl | contradiction

section Everywhere

variable {P : Stmt → Prop}

theorem Stmt.forall_nodes {s : Stmt} :
    (∀ t ∈ s.nodes, P t) ↔ P s ∧ ∀ t ∈ s.inside, P t :=
  List.forall_mem_cons

theorem Block.forall_nodes {b : Block} :
    (∀ t ∈ b.nodes, P t) ↔ ∀ s ∈ b.body, ∀ t ∈ s.nodes, P t := by
  rw [Block.nodes_eq_flatMap]
  exact List.forall_mem_flatMap

theorem Stmt.forall_inside_conditional {span : Span} {condition : Expr} {body : Block}
    {elifs : List ElifClause} {otherwise : Option Block} :
    (∀ t ∈ (Stmt.conditional span condition body elifs otherwise).inside, P t) ↔
      (∀ t ∈ body.nodes, P t) ∧ (∀ c ∈ elifs, ∀ t ∈ c.nodes, P t) ∧
        ∀ b ∈ otherwise, ∀ t ∈ b.nodes, P t := by
  rw [Stmt.inside, List.forall_mem_append, List.forall_mem_append, ElifClause.nodesAll_eq_flatMap,
    List.forall_mem_flatMap, and_assoc]
  cases otherwise with
  | none => simp [Block.nodesOpt]
  | some b => simp [Block.nodesOpt]

end Everywhere

def Stmt.marks (s : Stmt) : Nat := s.nodes.countP Stmt.isError

def Block.marks (b : Block) : Nat := b.nodes.countP Stmt.isError

def ElifClause.marks (c : ElifClause) : Nat := c.nodes.countP Stmt.isError

section Marks

variable {span : Span} {body : Block}

theorem Block.marks_eq_sum (b : Block) : b.marks = (b.body.map Stmt.marks).sum := by
  rw [Block.marks, Block.nodes_eq_flatMap, List.countP_flatMap]
  rfl

@[simp] theorem Stmt.marks_error : (Stmt.error span).marks = 1 := rfl

@[simp] theorem Stmt.marks_function {head : FunctionHead} :
    (Stmt.function span head body).marks = body.marks :=
  List.countP_cons_of_neg Bool.false_ne_true

@[simp] theorem Stmt.marks_typeDecl {head : TypeHead} :
    (Stmt.typeDecl span head body).marks = body.marks :=
  List.countP_cons_of_neg Bool.false_ne_true

@[simp] theorem Stmt.marks_forLoop {target : Pattern} {iterable : Expr} :
    (Stmt.forLoop span target iterable body).marks = body.marks :=
  List.countP_cons_of_neg Bool.false_ne_true

@[simp] theorem Stmt.marks_whileLoop {condition : Expr} :
    (Stmt.whileLoop span condition body).marks = body.marks :=
  List.countP_cons_of_neg Bool.false_ne_true

@[simp] theorem Stmt.marks_decorated {decorators : List Decorator} {definition : Stmt} :
    (Stmt.decorated span decorators definition).marks = definition.marks :=
  List.countP_cons_of_neg Bool.false_ne_true

@[simp] theorem ElifClause.marks_mk {condition : Expr} :
    (ElifClause.mk span condition body).marks = body.marks := rfl

@[simp] theorem Stmt.marks_conditional {condition : Expr} {elifs : List ElifClause}
    {otherwise : Option Block} :
    (Stmt.conditional span condition body elifs otherwise).marks =
      body.marks + (elifs.map ElifClause.marks).sum + (otherwise.toList.map Block.marks).sum := by
  have hclauses : (ElifClause.nodesAll elifs).countP Stmt.isError =
      (elifs.map ElifClause.marks).sum := by
    rw [ElifClause.nodesAll_eq_flatMap, List.countP_flatMap]
    rfl
  have hlast : (Block.nodesOpt otherwise).countP Stmt.isError =
      (otherwise.toList.map Block.marks).sum := by
    cases otherwise <;> rfl
  rw [Stmt.marks, Stmt.nodes, List.countP_cons_of_neg Bool.false_ne_true, Stmt.inside,
    List.countP_append, List.countP_append, hclauses, hlast]
  rfl

/-- There is no mark at a statement of one line. -/
theorem Stmt.marks_of_isSimple {s : Stmt} (h : s.isSimple = true) : s.marks = 0 := by
  rw [Stmt.marks, Stmt.nodes, Stmt.inside_of_isSimple h]
  cases s
  all_goals first | rfl | contradiction

end Marks

end Offside
