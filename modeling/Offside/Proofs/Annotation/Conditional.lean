import Offside.Proofs.Annotation.Agree
import Offside.Proofs.Building
import Offside.Proofs.Tree.Nodes

namespace Offside

def TypeArgument.isConditional : TypeArgument → Bool
  | .type _ => false
  | .value e => e.isConditional
  | .keyword _ _ argument => argument.isConditional

mutual

def TypeExpr.parts : TypeExpr → List TypeExpr
  | .symbol s name => [.symbol s name]
  | .qualified s base member => .qualified s base member :: base.parts
  | .generic s base arguments =>
    .generic s base arguments :: (base.parts ++ TypeArgument.partsAll arguments)

def TypeArgument.parts : TypeArgument → List TypeExpr
  | .type t => t.parts
  | .value _ => []
  | .keyword _ _ argument => argument.parts

def TypeArgument.partsAll : List TypeArgument → List TypeExpr
  | [] => []
  | a :: as => a.parts ++ TypeArgument.partsAll as

end

namespace TypeExpr

/-- A type and what it is a member of or gives arguments to. -/
def chain : TypeExpr → List TypeExpr
  | .symbol s name => [.symbol s name]
  | .qualified s base member => .qualified s base member :: base.chain
  | .generic s base arguments => .generic s base arguments :: base.chain

def arguments : TypeExpr → List TypeArgument
  | .generic _ _ arguments => arguments
  | _ => []

def Read (t : TypeExpr) : Prop := ∃ e, ofExpr? e = some t

end TypeExpr

theorem TypeArgument.partsAll_eq_flatMap (as : List TypeArgument) :
    TypeArgument.partsAll as = as.flatMap TypeArgument.parts := by
  induction as with
  | nil => rfl
  | cons a as ih =>
    rw [TypeArgument.partsAll, ih]
    rfl

section Reading

open TypeExpr (ofExpr?)

/-- What is read in the place of an expression is a conditional if the expression is one. -/
theorem TypeArgument.isConditional_ofExpr (e : Expr) :
    (TypeArgument.ofExpr e).isConditional = e.isConditional := by
  unfold TypeArgument.ofExpr
  split
  · next t ht =>
    cases e with
    | conditional => cases ht
    | _ => rfl
  · rfl

theorem TypeArgument.ofExpr_conditional {e : Expr} (h : e.isConditional = true) :
    TypeArgument.ofExpr e = .value e := by
  cases e with
  | conditional => rfl
  | _ => cases h

theorem TypeArgument.parts_ofExpr (e : Expr) :
    (TypeArgument.ofExpr e).parts = ((ofExpr? e).map TypeExpr.parts).getD [] := by
  unfold TypeArgument.ofExpr
  cases ofExpr? e <;> rfl

mutual

/-- The types inside what an expression reads as are readings themselves. -/
theorem TypeExpr.parts_read : ∀ {e : Expr} {t : TypeExpr}, ofExpr? e = some t → ∀ u ∈ t.parts, u.Read
  | .symbol s name, _, h => by
    cases h
    exact List.forall_mem_singleton.mpr ⟨.symbol s name, rfl⟩
  | .noneLiteral s, _, h => by
    cases h
    exact List.forall_mem_singleton.mpr ⟨.noneLiteral s, rfl⟩
  | .member s object name, t, h => by
    have hread : t.Read := ⟨_, h⟩
    obtain ⟨base, hbase, rfl⟩ := Option.map_eq_some_iff.mp h
    exact List.forall_mem_cons.mpr ⟨hread, TypeExpr.parts_read hbase⟩
  | .subscript s object indices, t, h => by
    have hread : t.Read := ⟨_, h⟩
    rw [ofExpr?] at h
    -- with a slice among the indices there is no type
    split at h
    · cases h
    obtain ⟨base, hbase, rfl⟩ := Option.map_eq_some_iff.mp h
    refine List.forall_mem_cons.mpr ⟨hread, List.forall_mem_append.mpr ?_⟩
    exact ⟨TypeExpr.parts_read hbase, TypeArgument.parts_read indices⟩

theorem TypeArgument.parts_read : ∀ es : List Expr,
    ∀ u ∈ TypeArgument.partsAll (TypeArgument.ofExprs es), u.Read
  | [] => List.forall_mem_nil _
  | e :: es => by
    refine List.forall_mem_append.mpr ⟨?_, TypeArgument.parts_read es⟩
    split
    · next t ht => exact TypeExpr.parts_read ht
    · exact List.forall_mem_nil _

end

/-- A conditional among the arguments of a type is an index of the subscript that is read there. -/
def TypeExpr.Traced (t : TypeExpr) : Prop :=
  ∀ a ∈ t.arguments, a.isConditional = true → ∃ span object indices,
    ofExpr? (.subscript span object indices) = some t ∧
      ∃ e ∈ indices, e.isConditional = true ∧ a = .value e

theorem TypeExpr.Read.traced {t : TypeExpr} (h : t.Read) : t.Traced := by
  intro a ha htrue
  obtain ⟨e, he⟩ := h
  cases e with
  | symbol | noneLiteral =>
    cases he
    exact absurd ha List.not_mem_nil
  | member s object name =>
    obtain ⟨base, -, rfl⟩ := Option.map_eq_some_iff.mp he
    exact absurd ha List.not_mem_nil
  | subscript s object indices =>
    refine ⟨s, object, indices, he, ?_⟩
    rw [ofExpr?] at he
    split at he
    · cases he
    obtain ⟨base, -, rfl⟩ := Option.map_eq_some_iff.mp he
    rw [arguments, TypeExpr.ofExprs_eq_map] at ha
    obtain ⟨i, hi, rfl⟩ := List.mem_map.mp ha
    rw [TypeArgument.isConditional_ofExpr] at htrue
    exact ⟨i, hi, htrue, TypeArgument.ofExpr_conditional htrue⟩
  | _ => cases he

end Reading

/-- An argument as the grammar of types reads it: an expression that is no conditional, read as a
type where it can be, alone or behind a keyword. -/
inductive TypeArgument.Declared : TypeArgument → Prop where
  | positional {e} (h : Expr.isConditional e = false) : Declared (.ofExpr e)
  | keyword {s name e} (h : Expr.isConditional e = false) : Declared (.keyword s name (.ofExpr e))

inductive TypeExpr.Declared : TypeExpr → Prop where
  | symbol {s name} : Declared (.symbol s name)
  | qualified {s base member} (h : Declared base) : Declared (.qualified s base member)
  | generic {s base arguments} (h : Declared base) (hs : ∀ a ∈ arguments, TypeArgument.Declared a) :
      Declared (.generic s base arguments)

namespace TypeArgument.Declared

variable {a : TypeArgument}

theorem isConditional_eq_false (h : a.Declared) : a.isConditional = false := by
  cases h with
  | positional he => exact (isConditional_ofExpr _).trans he
  | keyword he => exact (isConditional_ofExpr _).trans he

theorem parts_read (h : a.Declared) : ∀ u ∈ a.parts, u.Read := by
  have hread (e : Expr) : ∀ u ∈ (TypeArgument.ofExpr e).parts, u.Read := by
    rw [parts_ofExpr]
    cases ht : TypeExpr.ofExpr? e with
    | none => exact List.forall_mem_nil _
    | some t => exact TypeExpr.parts_read ht
  cases h with
  | positional => exact hread _
  | keyword => exact hread _

end TypeArgument.Declared

namespace TypeExpr.Declared

variable {t : TypeExpr}

/-- No conditional stands in the brackets of a declared type, and of what it is a member of. -/
theorem chain_unconditional (h : t.Declared) :
    ∀ u ∈ t.chain, ∀ a ∈ u.arguments, a.isConditional = false := by
  induction h with
  | symbol => exact List.forall_mem_singleton.mpr (List.forall_mem_nil _)
  | qualified _ ih => exact List.forall_mem_cons.mpr ⟨List.forall_mem_nil _, ih⟩
  | generic _ hs ih =>
    exact List.forall_mem_cons.mpr ⟨fun a ha => (hs a ha).isConditional_eq_false, ih⟩

theorem parts_traced (h : t.Declared) : ∀ u ∈ t.parts, u.Traced := by
  induction h with
  | symbol => exact List.forall_mem_singleton.mpr fun _ ha => absurd ha List.not_mem_nil
  | qualified _ ih => exact List.forall_mem_cons.mpr ⟨fun _ ha => absurd ha List.not_mem_nil, ih⟩
  | generic _ hs ih =>
    refine List.forall_mem_cons.mpr ⟨fun a ha htrue => ?_, List.forall_mem_append.mpr ⟨ih, ?_⟩⟩
    · rw [(hs a ha).isConditional_eq_false] at htrue
      contradiction
    · rw [TypeArgument.partsAll_eq_flatMap]
      refine List.forall_mem_flatMap.mpr fun a ha u hu => ?_
      exact ((hs a ha).parts_read u hu).traced

end TypeExpr.Declared

section Statements

def TypeParameter.types : TypeParameter → List TypeExpr
  | .named _ _ declaredType _ => declaredType.toList
  | .inferOnly _ => []

def FunctionHead.types (h : FunctionHead) : List TypeExpr :=
  h.typeParameters.flatMap TypeParameter.types ++
    h.parameters.flatMap (fun p => p.declaredType.toList) ++ h.returnType.toList

def TypeHead.types (h : TypeHead) : List TypeExpr :=
  h.typeParameters.flatMap TypeParameter.types ++ h.bases

def Stmt.declaredTypes : Stmt → List TypeExpr
  | .assignment _ _ _ declaredType _ => declaredType.toList
  | .declaration _ _ _ declaredType => declaredType.toList
  | .aliasing _ _ typeParameters _ => typeParameters.flatMap TypeParameter.types
  | .function _ head _ => head.types
  | .typeDecl _ head _ => head.types
  | _ => []

def Stmt.aliasedTypes : Stmt → List TypeExpr
  | .aliasing _ _ _ (.type t) => [t]
  | _ => []

def Stmt.types (s : Stmt) : List TypeExpr := s.declaredTypes ++ s.aliasedTypes

/-- All types in a statement come from the grammar of types, and an alias's from an expression. -/
def Stmt.Sourced (s : Stmt) : Prop :=
  (∀ t ∈ s.declaredTypes, t.Declared) ∧ ∀ t ∈ s.aliasedTypes, t.Read

theorem Option.forall_mem_toList {α : Type} {o : Option α} {V : α → Prop} (h : ∀ a ∈ o, V a) :
    ∀ a ∈ o.toList, V a :=
  fun a ha => h a (Option.mem_toList.mp ha)

end Statements

namespace Grammar

open Rule Cursor

section Types

theorem expr_unconditional : Makes Live (fun e => e.isConditional = false) (expr .conditional) := by
  intro c e d hc hr
  obtain ⟨hread, htaken⟩ := expr_reading .conditional c hc [] c e d (.refl c) hr
  exact ⟨(congrArg Token.kind hread.last_eq).trans hc, Expr.isConditional_of_lt htaken.fits.value⟩

theorem typeArgument_declared : Makes Live TypeArgument.Declared typeArgument := by
  refine makes_after atKeyword_makes fun _ => Yields.ite (fun _ => ?_) fun _ => ?_
  · refine makes_after advance_makes fun _ => makes_after advance_makes fun _ => ?_
    exact expr_unconditional.bind fun _ he => Makes.pure (.keyword he)
  · exact expr_unconditional.bind fun _ he => Makes.pure (.positional he)

theorem genericType_declared {left : TypeExpr} (h : left.Declared) :
    Makes Live TypeExpr.Declared (genericType left) := by
  refine makes_after advance_makes fun _ => yields_kind fun _ => ?_
  refine Yields.ite (fun _ => yields_unexpectedDetailed) fun _ => ?_
  refine (commaList_makes _ typeArgument_declared).bind fun _ has => ?_
  exact makes_after expect_makes fun _ => Makes.pure (.generic h has.2)

theorem extendType?_declared (level : Level) {left : TypeExpr} (h : left.Declared) :
    Makes Live (fun o => ∀ t ∈ o, t.Declared) (extendType? level left) := by
  refine Yields.ite (fun _ => yields_kind fun _ => ?_) fun _ => Makes.pure Option.forall_mem_none
  unfold typeTrailerAt
  split
  · refine Makes.map (makes_after advance_makes fun _ => ?_) fun _ => Option.forall_mem_some
    exact makes_after expect_makes fun _ => Makes.pure (.qualified h)
  · exact Makes.map (genericType_declared h) fun _ => Option.forall_mem_some
  · exact Makes.pure Option.forall_mem_none

theorem symbolType_declared : Makes Live TypeExpr.Declared symbolType := by
  refine makes_after advance_makes fun t => ?_
  unfold symbolTypeBy
  split
  · exact Makes.pure .symbol
  · exact Makes.pure .symbol
  · exact yields_fail

theorem typeExpr_declared (level : Level) : Makes Live TypeExpr.Declared (typeExpr level) := by
  refine yields_kind fun _ => ?_
  split
  · exact symbolType_declared.bind fun _ ht => Makes.iterate (fun _ => extendType?_declared level) ht
  · exact symbolType_declared.bind fun _ ht => Makes.iterate (fun _ => extendType?_declared level) ht
  · exact yields_unexpectedDetailed

theorem declaredType?_declared : Makes Live (fun o => ∀ t ∈ o, t.Declared) declaredType? :=
  introduced_makes (typeExpr_declared .lowest)

theorem typeParameter_declared : Makes Live (fun p => ∀ t ∈ p.types, t.Declared) typeParameter := by
  refine yields_kind fun _ => Yields.ite (fun _ => ?_) fun _ => ?_
  · exact makes_after advance_makes fun _ => Makes.pure (List.forall_mem_nil _)
  · refine makes_after expectDetailed_makes fun _ => declaredType?_declared.bind fun _ ht => ?_
    refine default?_makes.bind fun _ _ => yields_previousEnd_bind fun _ => ?_
    exact Makes.pure (Option.forall_mem_toList ht)

theorem typeParameters?_declared :
    Makes Live (fun ps => ∀ t ∈ ps.flatMap TypeParameter.types, t.Declared) typeParameters? := by
  refine yields_kind fun _ => Yields.ite (fun _ => ?_) fun _ => Makes.pure (List.forall_mem_nil _)
  refine makes_after expect_makes fun _ => yields_kind fun _ => Yields.ite (fun _ => ?_) fun _ => ?_
  · exact makes_after advance_makes fun _ => yields_fail
  · refine (commaList_makes _ typeParameter_declared).bind fun _ hps => ?_
    exact makes_after expect_makes fun _ => Makes.pure (List.forall_mem_flatMap.mpr hps.2)

end Types

section Lines

abbrev SourcesLine (x : Rule Stmt) : Prop := Makes Live Stmt.Sourced x

theorem ended_sourced {x : Rule Stmt} (h : SourcesLine x) : SourcesLine (ended x) :=
  Makes.bind h fun _ hs => makes_after (makes_of_moves (endOfStatement_along track_ahead)) fun _ =>
    Makes.pure hs

/-- A line without types. -/
theorem sourced_of_untyped {s : Stmt} (hdeclared : s.declaredTypes = []) (haliased : s.aliasedTypes = []) :
    s.Sourced := by
  rw [Stmt.Sourced, hdeclared, haliased]
  exact ⟨List.forall_mem_nil _, List.forall_mem_nil _⟩

theorem target_anyhow (e : Expr) : Makes Live (fun _ => True) (target e) := by
  unfold target
  split
  · exact Makes.pure trivial
  · exact yields_fail

theorem binding_sourced {start : Offset} {isVar : Bool} {left : Expr} {declaredType : Option TypeExpr}
    (h : ∀ t ∈ declaredType, t.Declared) : SourcesLine (binding start isVar left declaredType) := by
  refine makes_after eat_makes fun _ => Yields.ite (fun _ => ?_) fun _ => ?_
  · refine exprList_makes.bind fun _ _ => makes_after (target_anyhow left) fun _ => ?_
    refine yields_previousEnd_bind fun _ => Makes.pure ?_
    exact ⟨Option.forall_mem_toList h, List.forall_mem_nil _⟩
  · refine makes_after (Inner.makes (declaredName_inner left)) fun _ => ?_
    refine yields_previousEnd_bind fun _ => Makes.pure ?_
    exact ⟨Option.forall_mem_toList h, List.forall_mem_nil _⟩

theorem augmented_sourced {start : Offset} {left : Expr} (op : BinaryOp) :
    SourcesLine (augmented start left op) := by
  refine makes_after advance_makes fun _ => makes_after (target_anyhow left) fun p => ?_
  cases p with
  | tuple s ps | list s ps => exact yields_fail
  | _ =>
    exact exprList_makes.bind fun _ _ => yields_previousEnd_bind fun _ =>
      Makes.pure (sourced_of_untyped rfl rfl)

theorem afterExprList_sourced (start : Offset) (first : Expr) :
    SourcesLine (afterExprList start first) := by
  refine yields_kind fun _ => ?_
  split
  · refine makes_after advance_makes fun _ => (typeExpr_declared .lowest).bind fun t ht => ?_
    exact binding_sourced (Option.forall_mem_some ht)
  · refine makes_after advance_makes fun _ => makes_after (target_anyhow first) fun _ => ?_
    refine exprList_makes.bind fun _ _ => yields_previousEnd_bind fun _ => ?_
    exact Makes.pure (sourced_of_untyped rfl rfl)
  · split
    · next op _ => exact augmented_sourced op
    · exact Makes.pure (sourced_of_untyped rfl rfl)

theorem varBinding_sourced {start : Offset} : SourcesLine (varBinding start) :=
  exprList_makes.bind fun _ _ => declaredType?_declared.bind fun _ ht => binding_sourced ht

theorem varStmt_sourced : SourcesLine varStmt := by
  refine ended_sourced <| makes_after advance_makes fun _ => yields_kind fun _ => ?_
  split
  · exact varBinding_sourced
  · exact varBinding_sourced
  · exact yields_unexpectedDetailed

theorem aliasStmt_sourced : SourcesLine aliasStmt := by
  refine ended_sourced <| makes_after advance_makes fun _ => makes_after expectDetailed_makes fun _ => ?_
  refine typeParameters?_declared.bind fun _ hps => makes_after expect_makes fun _ => ?_
  refine (expr_makes .lowest).bind fun e _ => yields_previousEnd_bind fun _ => ?_
  refine Makes.pure ⟨hps, ?_⟩
  cases ht : TypeExpr.ofExpr? e with
  | none => exact List.forall_mem_nil _
  | some t => exact List.forall_mem_singleton.mpr ⟨e, ht⟩

theorem leaveStmt_sourced (word : LeaveWord) : SourcesLine (leaveStmt word) := by
  refine ended_sourced <| makes_after advance_makes fun t => yields_kind fun k => ?_
  refine makes_after (Inner.makes (leaveValueAt_inner k)) fun value => ?_
  exact yields_previousEnd_bind fun _ => Makes.pure (sourced_of_untyped rfl rfl)

theorem bareStmt_sourced : SourcesLine bareStmt := by
  refine ended_sourced <| makes_after advance_makes fun t => ?_
  cases t using bare_cases with
  | word => exact Makes.pure (sourced_of_untyped rfl rfl)
  | other => exact yields_fail

theorem importStmt_sourced : SourcesLine importStmt := by
  refine ended_sourced <| makes_after advance_makes fun _ => ?_
  refine makes_after (Inner.makes (commaList_inner importName_inner)) fun _ => ?_
  exact yields_previousEnd_bind fun _ => Makes.pure (sourced_of_untyped rfl rfl)

theorem importFromStmt_sourced : SourcesLine importFromStmt := by
  refine ended_sourced <| makes_after advance_makes fun t => makes_after (Inner.makes dots_inner) fun dots => ?_
  have hend (path : List String) : SourcesLine (importingFrom t.span.start dots.length path) :=
    makes_after expect_makes fun _ => makes_after (Inner.makes importTargets_inner) fun _ =>
      yields_previousEnd_bind fun _ => Makes.pure (sourced_of_untyped rfl rfl)
  refine yields_kind fun k => Yields.ite (fun _ => ?_) fun _ => ?_
  · exact makes_after (Inner.makes (dottedName_inner _)) hend
  · exact makes_after (Makes.pure trivial) hend

theorem simpleStmt_sourced (k : Kind) : SourcesLine (simpleStmt k) := by
  cases k using simpleStmt_cases with
  | modules => exact importStmt_sourced
  | names => exact importFromStmt_sourced
  | var => exact varStmt_sourced
  | aliasing => exact aliasStmt_sourced
  | leave word => exact leaveStmt_sourced word
  | bare => exact bareStmt_sourced
  | expression =>
    exact ended_sourced <| yields_here fun start => exprList_makes.bind fun first _ =>
      afterExprList_sourced start first

end Lines

section Headers

variable {allowed : ConventionSet}

theorem variadicTail_declared (start : Offset) (convention : Option Convention) :
    Makes Live (fun p => ∀ t ∈ p.declaredType.toList, t.Declared) (variadicTail start convention) := by
  refine makes_after expect_makes fun _ => Yields.ite (fun _ => yields_fail) fun _ => ?_
  refine declaredType?_declared.bind fun _ ht => yields_kind fun _ => Yields.ite (fun _ => ?_) fun _ => ?_
  · exact yields_current_bind fun _ => yields_fail
  · exact yields_previousEnd_bind fun _ => Makes.pure (Option.forall_mem_toList ht)

theorem parameter_declared :
    Makes Live (fun p => ∀ t ∈ p.declaredType.toList, t.Declared) (parameter allowed) := by
  refine yields_here fun start => convention?_makes.bind fun convention _ => ?_
  refine makes_after eat_makes fun _ => Yields.ite (fun _ => variadicTail_declared _ _) fun _ => ?_
  refine makes_after expectDetailed_makes fun _ => declaredType?_declared.bind fun _ ht => ?_
  refine default?_makes.bind fun _ _ => yields_previousEnd_bind fun _ => ?_
  exact Makes.pure (Option.forall_mem_toList ht)

theorem parameters_declared : Makes Live
    (fun ps => ∀ t ∈ ps.flatMap fun p => p.declaredType.toList, t.Declared) (parameters allowed) :=
  makes_after expect_makes fun _ => (listUpTo_makes _ parameter_declared).bind fun _ hps =>
    makes_after expect_makes fun _ => Makes.pure (List.forall_mem_flatMap.mpr hps)

theorem result?_declared : Makes Live (fun r => ∀ t ∈ r.2.toList, t.Declared) (result? allowed) := by
  refine makes_after eat_makes fun _ => Yields.ite (fun _ => ?_) fun _ => Makes.pure (List.forall_mem_nil _)
  refine convention?_makes.bind fun _ _ => (typeExpr_declared .lowest).bind fun _ ht => ?_
  exact Makes.pure (List.forall_mem_singleton.mpr ht)

theorem functionHead_declared :
    Makes Live (fun v => ∀ t ∈ v.2.types, t.Declared) (functionHead allowed) := by
  refine makes_after advance_makes fun _ => makes_after expectDetailed_makes fun _ => ?_
  refine typeParameters?_declared.bind fun _ hts => parameters_declared.bind fun _ hps => ?_
  refine makes_after (Inner.makes raises?_inner) fun _ => result?_declared.bind fun _ hr => ?_
  refine makes_after (Inner.makes raises?_inner) fun _ => Makes.pure ?_
  exact List.forall_mem_append.mpr ⟨List.forall_mem_append.mpr ⟨hts, hps⟩, hr⟩

theorem bases?_declared : Makes Live (fun ts => ∀ t ∈ ts, t.Declared) bases? := by
  refine makes_after eat_makes fun _ => Yields.ite (fun _ => ?_) fun _ =>
    Makes.pure (List.forall_mem_nil _)
  exact (listUpTo_makes _ (typeExpr_declared .lowest)).bind fun _ hts =>
    makes_after expect_makes fun _ => Makes.pure hts

theorem typeHead_declared (word : TypeWord) :
    Makes Live (fun v => ∀ t ∈ v.2.types, t.Declared) (typeHead word) := by
  refine makes_after advance_makes fun _ => makes_after expectDetailed_makes fun _ => ?_
  refine typeParameters?_declared.bind fun _ hts => bases?_declared.bind fun _ hbs => ?_
  exact Makes.pure (List.forall_mem_append.mpr ⟨hts, hbs⟩)

end Headers

section Streams

/-- In a tree built by the parser, the types of all statements are sourced. -/
theorem sourcedBuilds (cfg : Config) : Builds cfg (fun s => ∀ t ∈ s.nodes, t.Sourced)
    (fun b => ∀ t ∈ b.nodes, t.Sourced) (fun c => ∀ t ∈ c.nodes, t.Sourced) where
  error _ := List.forall_mem_singleton.mpr (sourced_of_untyped rfl rfl)
  line k := by
    intro c s d hc hr
    have hline : MakesLine cfg.conventions (simpleStmt k) := simpleStmt_makes k
    -- a line is simple, so it holds no statements besides itself
    obtain ⟨hlive, hsourced⟩ := simpleStmt_sourced k c s d hc hr
    obtain ⟨-, -, hsimple⟩ := hline c s d hc hr
    refine ⟨hlive, Stmt.forall_nodes.mpr ⟨hsourced, ?_⟩, hsimple⟩
    rw [Stmt.inside_of_isSimple hsimple]
    exact List.forall_mem_nil _
  block _ _ _ hbody _ := Block.forall_nodes.mpr hbody
  function := functionHead_declared.of fun _ hv _ _ hb =>
    Stmt.forall_nodes.mpr ⟨⟨hv, List.forall_mem_nil _⟩, hb⟩
  typeDecl word := (typeHead_declared word).of fun _ hv _ _ hb =>
    Stmt.forall_nodes.mpr ⟨⟨hv, List.forall_mem_nil _⟩, hb⟩
  clause := conditionHead_makes.of fun _ _ _ _ hb => hb
  conditional := conditionHead_makes.of fun _ _ _ _ _ _ hb helifs hlast =>
    Stmt.forall_nodes.mpr ⟨sourced_of_untyped rfl rfl,
      Stmt.forall_inside_conditional.mpr ⟨hb, helifs, hlast⟩⟩
  forLoop := forHead_makes.of fun _ _ _ _ hb =>
    Stmt.forall_nodes.mpr ⟨sourced_of_untyped rfl rfl, hb⟩
  whileLoop := conditionHead_makes.of fun _ _ _ _ hb =>
    Stmt.forall_nodes.mpr ⟨sourced_of_untyped rfl rfl, hb⟩
  decorated _ _ _ _ _ _ hs := Stmt.forall_nodes.mpr ⟨sourced_of_untyped rfl rfl, hs⟩

def Parsed.Unconditional (p : Parsed) : Prop :=
  ∀ s ∈ p.body.flatMap Stmt.nodes, ∀ t ∈ s.types, ∀ u ∈ t.parts, ∀ a ∈ u.arguments,
    a.isConditional = false

/-- The lists of a declared type, and of what it is a member of, hold no conditional without
parentheses. At any depth one stands in a list of type arguments only where a subscript with that
index is read as a type; so it never stands behind a keyword. -/
def Parsed.ConditionalOnlyRead (p : Parsed) : Prop :=
  ∀ s ∈ p.body.flatMap Stmt.nodes,
    (∀ t ∈ s.declaredTypes, ∀ u ∈ t.chain, ∀ a ∈ u.arguments, a.isConditional = false) ∧
    ∀ t ∈ s.types, ∀ u ∈ t.parts, ∀ a ∈ u.arguments, a.isConditional = true →
      ∃ span object indices, TypeExpr.ofExpr? (.subscript span object indices) = some u ∧
        ∃ e ∈ indices, e.isConditional = true ∧ a = .value e

theorem parse_conditionalOnlyRead (cfg : Config) (tokens : List Token) :
    (parse cfg tokens).ConditionalOnlyRead := by
  intro s hs
  obtain ⟨r, hr, hs⟩ := List.mem_flatMap.mp hs
  obtain ⟨hdeclared, haliased⟩ := parse_built (sourcedBuilds cfg) tokens r hr s hs
  refine ⟨fun t ht => (hdeclared t ht).chain_unconditional, fun t ht u hu => ?_⟩
  -- declared types are traced by the grammar of types, aliased ones as readings
  rcases List.mem_append.mp ht with ht | ht
  · exact (hdeclared t ht).parts_traced u hu
  · obtain ⟨e, he⟩ := haliased t ht
    exact (TypeExpr.parts_read he u hu).traced

/-- In `x: A[B[c if d else e]]` the inner brackets are read as those of a subscript, and the subscript
becomes a type with its index for an argument. -/
theorem not_unconditional_each : ¬∀ cfg tokens, (parse cfg tokens).Unconditional := by
  intro h
  let tokens : List Token := [⟨.identifier, "x", ⟨0, 1⟩⟩, ⟨.colon, ":", ⟨1, 2⟩⟩,
    ⟨.identifier, "A", ⟨3, 4⟩⟩, ⟨.openBracket, "[", ⟨4, 5⟩⟩, ⟨.identifier, "B", ⟨5, 6⟩⟩,
    ⟨.openBracket, "[", ⟨6, 7⟩⟩, ⟨.identifier, "c", ⟨7, 8⟩⟩, ⟨.kwIf, "if", ⟨9, 11⟩⟩,
    ⟨.identifier, "d", ⟨12, 13⟩⟩, ⟨.kwElse, "else", ⟨14, 18⟩⟩, ⟨.identifier, "e", ⟨19, 20⟩⟩,
    ⟨.closeBracket, "]", ⟨20, 21⟩⟩, ⟨.closeBracket, "]", ⟨21, 22⟩⟩, ⟨.newline, "", ⟨22, 23⟩⟩,
    ⟨.eof, "", ⟨23, 23⟩⟩]
  let choice : Expr := .conditional ⟨7, 20⟩ (.symbol ⟨7, 8⟩ "c") (.symbol ⟨12, 13⟩ "d")
    (.symbol ⟨19, 20⟩ "e")
  let inner : TypeExpr := .generic ⟨5, 21⟩ (.symbol ⟨5, 6⟩ "B") [.value choice]
  let outer : TypeExpr := .generic ⟨3, 22⟩ (.symbol ⟨3, 4⟩ "A") [.type inner]
  let s : Stmt := .declaration ⟨0, 22⟩ false "x" (some outer)
  have hparse : parse {} tokens = ⟨[s], [], false⟩ := by
    refine Seam.parse_of_stmt (r := { cursor := ⟨some ⟨.newline, "", ⟨22, 23⟩⟩, [], ⟨.eof, "", ⟨23, 23⟩⟩⟩ }) rfl rfl
      ?_ rfl (by decide)
    rw [Seam.stmt_eq_statement]
    change lifted expressionStmt _ = _
    cbv
  have hunconditional := h {} tokens
  rw [hparse] at hunconditional
  have hs : s ∈ [s].flatMap Stmt.nodes := .head _
  have hinner : inner ∈ outer.parts := .tail _ (.tail _ (.head _))
  have hallowed := hunconditional s hs outer (.head _) inner hinner (.value choice) (.head _)
  cases hallowed

end Streams

end Grammar

end Offside
