import FileIndex.Error

/-!
# Queries

* `Query`: an exact term, all terms with a given beginning, or operands joined by a connective.
* `Query.compose`, `Query.phraseOf`: building a composite, with its rules checked: it has an
  operand, and a phrase is made of exact terms.
-/

namespace FileIndex

/-- How a composite query joins its operands. -/
inductive Connective
  /-- Documents that match every operand. -/
  | and
  /-- Documents that match some operand. -/
  | or
  /-- Documents in which the operands, which are terms, stand one after the other. -/
  | phrase
  deriving DecidableEq, Repr, Hashable

/-- What documents are looked for. -/
inductive Query
  /-- Documents with the term. -/
  | term (term : Bytes)
  /-- Documents with a term that begins so. -/
  | startsWith (beginning : Bytes)
  /-- Documents that match the operands as the connective says. -/
  | composite (how : Connective) (operands : List Query)
  deriving BEq, Repr, Hashable, Inhabited

namespace Query

/-- Whether the query is no composite. -/
def isLeaf : Query → Bool
  | term _ | startsWith _ => true
  | composite .. => false

/-- Whether the query asks for an exact term. -/
def isTerm : Query → Bool
  | term _ => true
  | startsWith _ | composite .. => false

/-- The term, or the beginning of terms, that a leaf asks for. -/
def leafTerm? : Query → Option Bytes
  | term t | startsWith t => some t
  | composite .. => none

/-- Joins operands: there is one at least, and those of a phrase are exact terms. -/
def compose (how : Connective) (operands : List Query) : Except Error Query :=
  if operands.isEmpty then .error .noOperands
  else if how = .phrase ∧ !operands.all isTerm then .error .phraseOperand
  else .ok (composite how operands)

/-- The phrase of the given terms. -/
def phraseOf (terms : List Bytes) : Except Error Query := compose .phrase (terms.map term)

end Query
end FileIndex
