import Offside.Convention

namespace Offside

structure Config where
  /-- Columns that a tab adds to an indentation. -/
  tabWidth : Nat := 8
  conventions : ConventionSet := .both
  /-- There is a flag that cancels the parse once it is raised. -/
  cancel : Bool := false
  /-- How often a parse finds the flag down before it finds it raised. -/
  patience : Nat := 0
  deriving DecidableEq, Inhabited

/-- What is left when the flag has been looked at so often. -/
def Config.spend (cfg : Config) (polls : Nat) : Config :=
  if cfg.cancel then { cfg with patience := cfg.patience - polls } else cfg

end Offside
