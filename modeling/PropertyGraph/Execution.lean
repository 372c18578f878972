import PropertyGraph.Store

/-! Why a query fails. -/

namespace PropertyGraph

/-- Why a pattern is refused before any search. -/
inductive PatternFault where
  | unknownLabel (label : String)
  | unknownKind (kind : String)
  | conflictingLabels (name : String)
  | conflictingKinds (name : String)
  | nodeAndRelationship (name : String)
  | undeclared (name : String)
deriving DecidableEq

def PatternFault.message : PatternFault → String
  | .unknownLabel l => "unknown node label '" ++ l ++ "'"
  | .unknownKind k => "unknown relationship type '" ++ k ++ "'"
  | .conflictingLabels x => "node variable '" ++ x ++ "' is declared with conflicting labels"
  | .conflictingKinds x =>
    "relationship variable '" ++ x ++ "' is declared with conflicting types"
  | .nodeAndRelationship x => "variable '" ++ x ++ "' is used for both a node and a relationship"
  | .undeclared x => "condition references undeclared variable '" ++ x ++ "'"

inductive ExecutionError where
  | store (cause : StoreError)
  | pattern (fault : PatternFault)
  | tooManyHops (requested limit : Nat)
deriving DecidableEq

def ExecutionError.message : ExecutionError → String
  | .store cause => "Graph error: " ++ cause.message
  | .pattern fault => "Invalid pattern: " ++ fault.message
  | .tooManyHops requested limit =>
    s!"Traversal of {requested} hops exceeds the limit of {limit}"

end PropertyGraph
