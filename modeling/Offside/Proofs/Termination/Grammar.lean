import Offside.Proofs.Termination.Stmt

namespace Offside.Grammar

inductive TokenRule : {α : Type} → Rule α → Prop
  | advance : TokenRule Rule.advance
  | eat (k) : TokenRule (Rule.eat k)
  | expect (k) : TokenRule (Rule.expect k)
  | expectDetailed (k message) : TokenRule (Rule.expectDetailed k message)
  | adjacentStrings (t) : TokenRule (adjacentStrings t)
  | floatLiteral (t) : TokenRule (floatLiteral t)
  | primary : TokenRule primary
  | sign : TokenRule (sign expr)
  | negation : TokenRule (negation expr)
  | atKeyword : TokenRule atKeyword
  | element : TokenRule (element expr)
  | grouping : TokenRule (grouping expr)
  | listDisplay : TokenRule (listDisplay expr)
  | entry : TokenRule (entry expr)
  | dictOrSet : TokenRule (dictOrSet expr)
  | operand : TokenRule (operand expr)
  | binary (e level) : TokenRule (binary expr e level)
  | power (e) : TokenRule (power expr e)
  | caret (e level) : TokenRule (caret expr e level)
  | comparisonOp? : TokenRule comparisonOp?
  | comparison (e) : TokenRule (comparison expr e)
  | conditional (e) : TokenRule (conditional expr e)
  | member (e) : TokenRule (member e)
  | argument (level) : TokenRule (argument expr level)
  | callArguments : TokenRule (callArguments expr)
  | call (e) : TokenRule (call expr e)
  | sliceBound : TokenRule (sliceBound expr)
  | sliceTail (start lower) : TokenRule (sliceTail expr start lower)
  | bracketItem : TokenRule (bracketItem expr)
  | bracket (e) : TokenRule (bracket expr e)
  | extension (e level) : TokenRule (extension expr e level)
  | extend? (level e) : TokenRule (extend? expr level e)
  | expr (level) : TokenRule (expr level)
  | exprList : TokenRule exprList
  | symbolType : TokenRule symbolType
  | qualifiedType (t) : TokenRule (qualifiedType t)
  | typeArgument : TokenRule typeArgument
  | genericType (t) : TokenRule (genericType t)
  | extendType? (level t) : TokenRule (extendType? level t)
  | typeExpr (level) : TokenRule (typeExpr level)
  | declaredType? : TokenRule declaredType?
  | default? : TokenRule default?
  | typeParameter : TokenRule typeParameter
  | typeParameters : TokenRule typeParameters
  | typeParameters? : TokenRule typeParameters?
  | endOfStatement : TokenRule endOfStatement
  | target (e) : TokenRule (target e)
  | declaredName (e) : TokenRule (declaredName e)
  | binding (start isVar e t) : TokenRule (binding start isVar e t)
  | augmented (start e op) : TokenRule (augmented start e op)
  | afterExprList (start e) : TokenRule (afterExprList start e)
  | expressionStmt : TokenRule expressionStmt
  | varStmt : TokenRule varStmt
  | aliasStmt : TokenRule aliasStmt
  | leaveStmt (word) : TokenRule (leaveStmt word)
  | bareStmt : TokenRule bareStmt
  | dottedName (expected) : TokenRule (dottedName expected)
  | asName? : TokenRule asName?
  | importName : TokenRule importName
  | importStmt : TokenRule importStmt
  | importedName : TokenRule importedName
  | importTargets : TokenRule importTargets
  | importFromStmt : TokenRule importFromStmt
  | simpleStmt (k) : TokenRule (simpleStmt k)
  | raises? : TokenRule raises?
  | convention? (allowed) : TokenRule (convention? allowed)
  | variadicTail (start convention) : TokenRule (variadicTail start convention)
  | parameter (allowed) : TokenRule (parameter allowed)
  | parameters (allowed) : TokenRule (parameters allowed)
  | result? (allowed) : TokenRule (result? allowed)
  | functionHead (allowed) : TokenRule (functionHead allowed)
  | bases? : TokenRule bases?
  | typeHead (word) : TokenRule (typeHead word)
  | decorator? : TokenRule decorator?
  | forTarget : TokenRule forTarget
  | forHead : TokenRule forHead
  | conditionHead : TokenRule conditionHead
  | commaTail {α} {item : Rule α} (stop) (h : TokenRule item) : TokenRule (Rule.commaTail stop item)
  | commaList {α} {item : Rule α} (stop) (h : TokenRule item) : TokenRule (Rule.commaList stop item)
  | listUpTo {α} {item : Rule α} (close) (h : TokenRule item) : TokenRule (Rule.listUpTo close item)

inductive StatementRule (cfg : Config) : {α : Type} → StmtRule α → Prop
  | blockBody : StatementRule cfg (blockBody cfg (stmt cfg))
  | inlineStmt : StatementRule cfg (inlineStmt (stmt cfg))
  | inlineBody : StatementRule cfg (inlineBody (stmt cfg))
  | suite : StatementRule cfg (suite cfg (stmt cfg))
  | functionStmt : StatementRule cfg (functionStmt cfg (stmt cfg))
  | typeStmt (word) : StatementRule cfg (typeStmt cfg (stmt cfg) word)
  | elifClause? : StatementRule cfg (elifClause? cfg (stmt cfg))
  | elseBody? : StatementRule cfg (elseBody? cfg (stmt cfg))
  | ifStmt : StatementRule cfg (ifStmt cfg (stmt cfg))
  | forStmt : StatementRule cfg (forStmt cfg (stmt cfg))
  | whileStmt : StatementRule cfg (whileStmt cfg (stmt cfg))
  | definition : StatementRule cfg (definition cfg (stmt cfg))
  | decoratedStmt : StatementRule cfg (decoratedStmt cfg (stmt cfg))
  | statement : StatementRule cfg (statement cfg (stmt cfg))
  | stmt : StatementRule cfg (stmt cfg)

inductive TokenLoop : {α : Type} → Rule (Option α) → Prop
  | strings : TokenLoop stringRound
  | links : TokenLoop (linkRound expr)
  | commas {α} {item : Rule α} (stop) (h : TokenRule item) : TokenLoop (Rule.commaRound stop item)
  | names : TokenLoop nameRound
  | dots : TokenLoop dotRound
  | decorators : TokenLoop decorator?

inductive TokenChain : {α : Type} → (α → Rule (Option α)) → Prop
  | trailers (level) : TokenChain (extend? expr level)
  | typeTrailers (level) : TokenChain (extendType? level)

inductive StatementLoop (cfg : Config) : {α : Type} → StmtRule (Option α) → Prop
  | bodies : StatementLoop cfg (bodyRound (stmt cfg))
  | elifs : StatementLoop cfg (elifClause? cfg (stmt cfg))

section

variable {cfg : Config} {α : Type}

theorem TokenRule.forward {x : Rule α} (h : TokenRule x) : Forward x := by
  induction h <;> infer_instance

theorem StatementRule.forward {x : StmtRule α} (h : StatementRule cfg x) : Forward x := by
  cases h <;> infer_instance

theorem TokenLoop.forward_rounds {step : Rule (Option α)} (h : TokenLoop step) :
    Forward step ∧ Rounds step := by
  cases h with
  | commas stop h =>
    have := h.forward
    constructor <;> infer_instance
  | _ => constructor <;> infer_instance

theorem TokenChain.forward_rounds {step : α → Rule (Option α)} (h : TokenChain step) :
    (∀ a, Forward (step a)) ∧ ∀ a, Rounds (step a) := by
  cases h <;> constructor <;> infer_instance

theorem StatementLoop.forward_rounds {step : StmtRule (Option α)} (h : StatementLoop cfg step) :
    Forward step ∧ Rounds step := by
  cases h <;> constructor <;> infer_instance

end

/-- A whole parse with the recursion between statements and the loop over the stream unrolled. -/
def parseWithin (stuck : StmtRule Stmt) (stuckLoop : Progress → List Stmt × Progress) (n : Nat)
    (cfg : Config) (tokens : List Token) : Parsed :=
  let (body, p) := statementsWithin cfg stuckLoop (· == .eof) (fun k => k == .newline || k == .dedent)
    (recovering (stmtWithin cfg stuck n)) n { cursor := .ofTokens tokens }
  ⟨body, p.diagnostics, p.cancelled cfg⟩

/-- What it means for the grammar to make progress and to end, with any tokens in any order. What
is unrolled has a rule called `stuck` at the bottom, which may do anything. -/
structure Progressive (cfg : Config) : Prop where
  /-- A stream has an end mark at its end, whether or not it was given one. -/
  starts (tokens : List Token) : (Cursor.ofTokens tokens).last.kind = .eof
  /-- No rule goes back or over an end mark, whether it returns or fails. -/
  forth {α : Type} {x : Rule α} (h : TokenRule x) (c : Cursor) : c.Forth (endState (x c))
  stmtForth {α : Type} {x : StmtRule α} (h : StatementRule cfg x) (q : Progress) :
    q.cursor.Forth (endState (x q)).cursor
  recoveryForth (q : Progress) : q.cursor.Forth (recovering (stmt cfg) q).2.cursor
  /-- A round of the loop over a stream takes at least one token: a token that means nothing there,
  a statement, or what is passed over in its place. -/
  advances {c : Cursor} (hl : c.last.kind = .eof) (he : c.kind ≠ .eof) : c.advance.remaining < c.remaining
  recovers {q : Progress} (hl : q.cursor.last.kind = .eof) (he : q.cursor.kind ≠ .eof)
    (hd : q.cursor.kind ≠ .dedent) : (recovering (stmt cfg) q).2.remaining < q.remaining
  /-- No round of a loop leaves as many tokens as it found, so that no loop is cut short. -/
  loops {α : Type} {step : Rule (Option α)} (h : TokenLoop step) (stuck : Rule (Option α)) {n : Nat}
    {c : Cursor} (hl : c.last.kind = .eof) (hn : c.remaining < n) :
    manyWithin stuck step n c = many Cursor.remaining step c
  chains {α : Type} {step : α → Rule (Option α)} (h : TokenChain step) (stuck : α → Rule (Option α))
    {n : Nat} {a : α} {c : Cursor} (hl : c.last.kind = .eof) (hn : c.remaining < n) :
    iterateWithin stuck step n a c = iterate Cursor.remaining step a c
  stmtLoops {α : Type} {step : StmtRule (Option α)} (h : StatementLoop cfg step)
    (stuck : StmtRule (Option α)) {n : Nat} {q : Progress} (hl : q.cursor.last.kind = .eof)
    (hn : q.remaining < n) : manyWithin stuck step n q = many Progress.remaining step q
  blocks (stuck : Progress → List Stmt × Progress) {n : Nat} {q : Progress}
    (hl : q.cursor.last.kind = .eof) (hn : q.remaining < n) :
    statementsWithin cfg stuck (fun k => k == .dedent || k == .eof) (· == .newline)
      (recovering (stmt cfg)) n q = Seam.blockLoop cfg (stmt cfg) q
  /-- The recursion between expressions, and between statements, ends. -/
  exprs (stuck : ExprRule) {n : Nat} (level : Level) {c : Cursor} (hl : c.last.kind = .eof)
    (hn : c.remaining < n) : exprWithin stuck n level c = expr level c
  stmts (stuck : StmtRule Stmt) {n : Nat} {q : Progress} (hl : q.cursor.last.kind = .eof)
    (hn : q.remaining < n) : stmtWithin cfg stuck n q = stmt cfg q
  /-- A parse takes one round more than there are tokens at most. -/
  parses (stuck : StmtRule Stmt) (stuckLoop : Progress → List Stmt × Progress) {n : Nat}
    (tokens : List Token) (hn : tokens.length < n) :
    parseWithin stuck stuckLoop n cfg tokens = parse cfg tokens

theorem remaining_ofTokens_le (tokens : List Token) :
    (Cursor.ofTokens tokens).remaining ≤ tokens.length := by
  unfold Cursor.ofTokens Cursor.remaining
  split
  · exact Nat.zero_le _
  · split
    · rw [List.length_dropLast]
      exact Nat.sub_le _ _
    · exact Nat.le_refl _

theorem parseWithin_eq (stuck : StmtRule Stmt) (stuckLoop : Progress → List Stmt × Progress) {n : Nat}
    (cfg : Config) (tokens : List Token) (hn : tokens.length < n) :
    parseWithin stuck stuckLoop n cfg tokens = parse cfg tokens := by
  have hlt := Nat.lt_of_le_of_lt (remaining_ofTokens_le tokens) hn
  have hloop : statementsWithin cfg stuckLoop (· == .eof) (fun k => k == .newline || k == .dedent)
      (recovering (stmtWithin cfg stuck n)) n { cursor := .ofTokens tokens } = topLevel cfg tokens :=
    statementsWithin_eq stuckLoop
      (fun q hl hq => (recovering_same (stmtWithin_same stuck n) hl hq).symm) rfl (Or.inr rfl)
      (Cursor.last_ofTokens tokens) hlt
  rw [parse, parseWithin, hloop]

theorem progressive (cfg : Config) : Progressive cfg where
  starts := Cursor.last_ofTokens
  forth h c :=
    have := h.forward
    Forward.forth c
  stmtForth h q :=
    have := h.forward
    Forward.forth q
  recoveryForth := forth_recovering (stmt cfg)
  advances := Cursor.remaining_advance_lt
  recovers := recovering_lt
  loops h stuck _ _ hl hn :=
    have ⟨_, _⟩ := h.forward_rounds
    manyWithin_eq stuck hl hn
  chains h stuck _ _ _ hl hn :=
    have ⟨_, _⟩ := h.forward_rounds
    iterateWithin_eq stuck hl hn
  stmtLoops h stuck _ _ hl hn :=
    have ⟨_, _⟩ := h.forward_rounds
    manyWithin_eq stuck hl hn
  blocks stuck _ _ hl hn := statementsWithin_eq stuck (fun _ _ _ => rfl) rfl (Or.inl rfl) hl hn
  exprs stuck _ level _ hl hn := exprWithin_eq stuck level hl hn
  stmts stuck n q hl hn := (stmtWithin_same stuck n q hl hn).symm
  parses stuck stuckLoop _ tokens hn := parseWithin_eq stuck stuckLoop cfg tokens hn

/-- An indent out of place, in front of an end mark with tokens behind it. -/
theorem progressive_misplaced :
    (recovering (stmt {})
      { cursor := .ofTokens [⟨.indent, "", 0, 2⟩, ⟨.eof, "", 2, 2⟩, ⟨.kwPass, "pass", 2, 6⟩] }).2.remaining < 3 :=
  (progressive {}).recovers rfl (by decide) (by decide)

end Offside.Grammar
