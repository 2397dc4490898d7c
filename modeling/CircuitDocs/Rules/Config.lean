import CircuitDocs.Text.Basic

/-! # Rules and their selection -/

namespace CircuitDocs

/-- The rules for a documented circuit that can be switched on and off. -/
inductive Rule where
  | title
  | description
  | remarks
  | circuitInfo
  | params
  | throws
  | returns
deriving DecidableEq, Repr

namespace Rule

/-- Every rule, in the order in which findings are reported. -/
def all : List Rule := [title, description, remarks, circuitInfo, params, throws, returns]

def field : Rule → Text
  | title => "@title".toList
  | description => "@description".toList
  | remarks => "@remarks".toList
  | circuitInfo => "@circuitInfo".toList
  | params => "@param".toList
  | throws => "@throws".toList
  | returns => "@returns".toList

end Rule

/-- Which circuits are checked, and by which rules. -/
structure Config where
  exportedOnly : Bool := true
  requireTitle : Bool := false
  requireDescription : Bool := true
  requireRemarks : Bool := false
  requireCircuitInfo : Bool := true
  requireParams : Bool := true
  requireThrows : Bool := false
  requireReturns : Bool := true
deriving DecidableEq, Repr

namespace Config

def strict : Config := { requireTitle := true, requireRemarks := true, requireThrows := true }

def requires (c : Config) : Rule → Bool
  | .title => c.requireTitle
  | .description => c.requireDescription
  | .remarks => c.requireRemarks
  | .circuitInfo => c.requireCircuitInfo
  | .params => c.requireParams
  | .throws => c.requireThrows
  | .returns => c.requireReturns

end Config

end CircuitDocs
