import PropertyGraph.Command.Token

/-! The grammar of commands and conditions: what each rule matches, written with ordered
choices and greedy repetitions. It says nothing of the values that texts stand for. -/

namespace PropertyGraph.Grammar

inductive Rule where
  | command | soleCondition | statement
  | createNode | createRelationship | getNode | getNeighbors | updateNode | deleteNode
  | updateRelationship | deleteRelationship | traverse | findMatches | exportTo | importFrom
  | kindFilter | directionClause | direction | nodeRef
  | step | outArrow | inArrow
  | nodeSlot | segment | outEdge | inEdge
  | filePath | barePath
  | whereClause | condition | term | joint | and | or | comparison | propertyRef | operator
  | properties | property | value | array | boolean | float | exponent | integer
  | string | doubleInner | singleInner
  | wordChar | word | label | kind | variable | key | nodeId | relationshipId
  | keyword (w : String)
  | finish
deriving DecidableEq

inductive Expr where
  | text (w : String)
  /-- A text in any letter case. -/
  | folded (w : String)
  | char (p : Char → Bool)
  /-- Nothing, and the end of the text. -/
  | nothing
  | ending
  | rule (r : Rule)
  | seq (a b : Expr)
  | choice (a b : Expr)
  | optional (a : Expr)
  | star (a : Expr)
  /-- The items of a repetition that come after the first. -/
  | again (a : Expr)
  | not (a : Expr)

namespace Expr

/-- One after the other. -/
def all : List Expr → Expr
  | [] => .nothing
  | [e] => e
  | e :: rest => .seq e (all rest)

/-- The first that matches. -/
def any : List Expr → Expr
  | [] => .not .nothing
  | [e] => e
  | e :: rest => .choice e (any rest)

def plus (e : Expr) : Expr := .seq e (.star e)

def rules (rs : List Rule) : Expr := any (rs.map .rule)

def keyword (w : String) : Expr := .rule (.keyword w)

/-- A word in any letter case, with nothing of a longer word behind it. -/
def alone (e : Expr) : Expr := .seq e (.not (.rule .wordChar))

/-- Items with commas between them, or none. -/
def listed (item : Expr) : Expr := .optional (.seq item (.star (.seq (.text ",") item)))

def digits : Expr := .plus (.char Char.isDigit)

def anyChar : Expr := .char fun _ => true

/-- A character of a quoted text, or a backslash and the character after it. -/
def piece (quote : String) : Expr :=
  .choice (.seq (.not (.choice (.text quote) (.text "\\"))) .anyChar) (.seq (.text "\\") .anyChar)

end Expr

namespace Rule

open Grammar.Expr

def body : Rule → Expr
  | .command => all [.nothing, .rule .statement, .optional (.text ";"), .rule .finish]
  | .soleCondition => all [.nothing, .rule .condition, .rule .finish]
  | .finish => .ending
  | .statement => rules [.createNode, .createRelationship, .getNode, .getNeighbors, .updateNode,
      .deleteNode, .updateRelationship, .deleteRelationship, .traverse, .findMatches, .exportTo,
      .importFrom]
  -- Statements
  | .createNode => all [.keyword "CREATE", .keyword "NODE", .rule .label,
      .optional (.rule .properties)]
  | .createRelationship => all [.keyword "CREATE", .keyword "RELATIONSHIP", .rule .kind,
      .keyword "FROM", .rule .nodeRef, .keyword "TO", .rule .nodeRef,
      .optional (.rule .properties)]
  | .getNode => all [.keyword "GET", .keyword "NODE", .rule .label, .rule .nodeId]
  | .getNeighbors => all [.keyword "GET", .keyword "NEIGHBORS", .rule .label, .rule .nodeId,
      .optional (.rule .kindFilter), .optional (.rule .directionClause)]
  | .updateNode => all [.keyword "UPDATE", .keyword "NODE", .rule .label, .rule .nodeId,
      .rule .properties]
  | .deleteNode => all [.keyword "DELETE", .keyword "NODE", .rule .label, .rule .nodeId]
  | .updateRelationship => all [.keyword "UPDATE", .keyword "RELATIONSHIP", .rule .kind,
      .keyword "FROM", .rule .nodeRef, .keyword "TO", .rule .nodeRef, .rule .properties]
  | .deleteRelationship => all [.keyword "DELETE", .keyword "RELATIONSHIP",
      .rule .relationshipId]
  | .traverse => all [.keyword "TRAVERSE", .rule .nodeRef, .plus (.rule .step),
      .optional (.rule .whereClause)]
  | .findMatches => all [.keyword "MATCH", .rule .nodeSlot, .star (.rule .segment),
      .optional (.rule .whereClause)]
  | .exportTo => all [.keyword "EXPORT", .keyword "TO", .keyword "JSON", .rule .filePath]
  | .importFrom => all [.keyword "IMPORT", .keyword "FROM", .keyword "JSON", .rule .filePath]
  -- Parts of statements
  | .kindFilter => all [.keyword "WITH", .keyword "RELATIONSHIP", .rule .kind]
  | .directionClause => .seq (.keyword "DIRECTION") (.rule .direction)
  | .direction => alone (any [.folded "OUTGOING", .folded "INCOMING", .folded "BOTH"])
  | .nodeRef => all [.rule .label, .text "(", .folded "id", .text "=", .rule .nodeId, .text ")"]
  | .step => .seq (.choice (.rule .outArrow) (.rule .inArrow)) (.rule .label)
  | .outArrow => all [.text "-[", .rule .kind, .text "]->"]
  | .inArrow => all [.text "<-[", .rule .kind, .text "]-"]
  | .nodeSlot => all [.text "(", .optional (.rule .variable), .text ":", .rule .label, .text ")"]
  | .segment => .seq (.choice (.rule .outEdge) (.rule .inEdge)) (.rule .nodeSlot)
  | .outEdge => all [.text "-[", .optional (.rule .variable), .text ":", .rule .kind, .text "]->"]
  | .inEdge => all [.text "<-[", .optional (.rule .variable), .text ":", .rule .kind, .text "]-"]
  | .filePath => .choice (.rule .string) (.rule .barePath)
  | .barePath => .plus (.seq (.not (.choice (.char Blank.isBlank) (.text ";"))) .anyChar)
  -- Conditions
  | .whereClause => .seq (.keyword "WHERE") (.rule .condition)
  | .condition => .seq (.rule .term) (.star (.seq (.rule .joint) (.rule .term)))
  | .term => .choice (.rule .comparison) (all [.text "(", .rule .condition, .text ")"])
  | .joint => .choice (.rule .and) (.rule .or)
  | .and => alone (.folded "AND")
  | .or => alone (.folded "OR")
  | .comparison => all [.rule .propertyRef, .rule .operator, .rule .value]
  | .propertyRef => all [.rule .variable, .text ".", .rule .key]
  | .operator => any [.text "<=", .text ">=", .text "==", .text "!=", .text "<>", .text "<",
      .text ">", .text "="]
  -- Properties and literals
  | .properties => all [.text "\x7b", listed (.rule .property), .text "\x7d"]
  | .property => all [.choice (.rule .key) (.rule .string), .text ":", .rule .value]
  | .value => rules [.string, .float, .integer, .boolean, .array]
  | .array => all [.text "[", listed (.rule .value), .text "]"]
  | .boolean => alone (any [.folded "true", .folded "false"])
  | .float => .choice
      (all [.optional (.text "-"), digits, .text ".", digits, .optional (.rule .exponent)])
      (all [.optional (.text "-"), digits, .rule .exponent])
  | .exponent => all [.folded "e", .optional (.choice (.text "+") (.text "-")), digits]
  | .integer => .seq (.optional (.text "-")) digits
  | .string => .choice (all [.text "\"", .rule .doubleInner, .text "\""])
      (all [.text "'", .rule .singleInner, .text "'"])
  | .doubleInner => .star (piece "\"")
  | .singleInner => .star (piece "'")
  -- Names and keywords
  | .wordChar => .choice (.char Char.isAlphanum) (.text "_")
  | .word => .seq (.choice (.char Char.isAlpha) (.text "_")) (.star (.rule .wordChar))
  | .label | .kind | .variable | .key => .rule .word
  | .nodeId | .relationshipId => digits
  | .keyword w => alone (.folded w)

/-- How a rule treats the blanks inside its text, and whether it shows in the tree: a silent
rule does not, and nothing inside an atomic one does. Neither an atomic nor a compound rule
allows blanks between its parts. -/
inductive Style where
  | plain
  | silent
  | atomic
  | compound
deriving DecidableEq

def style : Rule → Style
  | .statement | .kindFilter | .directionClause | .term | .joint | .exponent | .wordChar
  | .word => .silent
  | .direction | .barePath | .and | .or | .operator | .boolean | .float | .integer
  | .doubleInner | .singleInner | .label | .kind | .variable | .key | .nodeId
  | .relationshipId | .keyword _ => .atomic
  | .propertyRef | .string => .compound
  | _ => .plain

end Rule

end PropertyGraph.Grammar
