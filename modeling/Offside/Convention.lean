namespace Offside

inductive Convention where
  | mutable | owned | reference | out | read | inout
  deriving DecidableEq, Inhabited

namespace Convention

def all : List Convention := [.mutable, .owned, .reference, .out, .read, .inout]

def word : Convention → String
  | .mutable => "mut"
  | .owned => "owned"
  | .reference => "ref"
  | .out => "out"
  | .read => "read"
  | .inout => "inout"

def ofWord? (text : String) : Option Convention := all.find? fun c => c.word == text

end Convention

inductive ConventionSet where
  | modern | legacy | both
  deriving DecidableEq, Inhabited

namespace ConventionSet

def all : List ConventionSet := [.modern, .legacy, .both]

def name : ConventionSet → String
  | .modern => "modern"
  | .legacy => "legacy"
  | .both => "both"

def ofName? (text : String) : Option ConventionSet := all.find? fun s => s.name == text

/-- The modern set leaves out `inout`; the legacy set has only `inout`, `owned` and `ref`. -/
def accepts : ConventionSet → Convention → Bool
  | .both, _ => true
  | .modern, c => c != .inout
  | .legacy, c => c == .inout || c == .owned || c == .reference

end ConventionSet

end Offside
