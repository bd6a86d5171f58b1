import Offside.Proofs.Building

namespace Offside.Grammar

open Rule Cursor

/-- Lines, headers and blocks give valid statements. -/
theorem validBuilds (cfg : Config) : Builds cfg (Stmt.Valid cfg.conventions)
    (Block.Valid cfg.conventions) (ElifClause.Valid cfg.conventions) where
  error _ := .error
  line k := simpleStmt_makes k
  block _ _ _ hbody hsimple := .mk hbody hsimple
  function := functionHead_makes.of fun _ hv _ _ hb => .function hv hb
  typeDecl word := (typeHead_makes word).of fun _ hv _ _ hb => .typeDecl hv hb
  clause := conditionHead_makes.of fun _ hv _ _ hb => .mk hv hb
  conditional := conditionHead_makes.of fun _ hv _ _ _ _ hb helifs hlast => .conditional hv hb helifs hlast
  forLoop := forHead_makes.of fun _ hv _ _ hb => .forLoop hv.1 hv.2 hb
  whileLoop := conditionHead_makes.of fun _ hv _ _ hb => .whileLoop hv hb
  decorated _ _ _ hne hds hdefines hs := .decorated hne hds hdefines hs

def Parsed.Valid (allowed : ConventionSet) (p : Parsed) : Prop := ∀ s ∈ p.body, s.Valid allowed

/-- Whatever the tokens are, the statements that the parser returns are valid at every depth. -/
theorem parse_valid (cfg : Config) (tokens : List Token) :
    (parse cfg tokens).Valid cfg.conventions :=
  parse_built (validBuilds cfg) tokens

end Offside.Grammar
