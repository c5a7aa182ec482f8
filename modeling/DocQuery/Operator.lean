/-!
# Operators

Comparisons stand between a field and a value, connectives between two
conditions.  A connective may negate the condition behind it.
-/

namespace DocQuery

/-- An operator between a field and a value. -/
inductive Comparison where
  | equal | notEqual | less | greater | lessEqual | greaterEqual
  deriving DecidableEq, Repr

/-- An operator between two conditions. -/
inductive Connective where
  | and | andNot | or | orNot
  deriving DecidableEq, Repr

/-- Any operator. -/
inductive Operator where
  | compare (comparison : Comparison)
  | connect (connective : Connective)
  deriving DecidableEq, Repr

namespace Comparison

/-- Every comparison once. -/
def all : List Comparison :=
  [equal, notEqual, less, greater, lessEqual, greaterEqual]

/-- The comparison as canonical text writes it. -/
def text : Comparison → String
  | equal => "="
  | notEqual => "!="
  | less => "<"
  | greater => ">"
  | lessEqual => "<="
  | greaterEqual => ">="

/-- The name of the comparison. -/
def name : Comparison → String
  | equal => "Equal"
  | notEqual => "NotEqual"
  | less => "LessThan"
  | greater => "GreaterThan"
  | lessEqual => "LessThanEqual"
  | greaterEqual => "GreaterThanEqual"

/-- The comparison that holds exactly where this one does not. -/
def negated : Comparison → Comparison
  | equal => notEqual
  | notEqual => equal
  | less => greaterEqual
  | greater => lessEqual
  | lessEqual => greater
  | greaterEqual => less

@[simp]
theorem negated_negated (c : Comparison) : c.negated.negated = c := by
  cases c <;> rfl

end Comparison

namespace Connective

/-- Every connective once. -/
def all : List Connective := [and, andNot, or, orNot]

/-- The connective as canonical text writes it. -/
def text : Connective → String
  | and => "AND"
  | andNot => "AND NOT"
  | or => "OR"
  | orNot => "OR NOT"

/-- The name of the connective. -/
def name : Connective → String
  | and => "And"
  | andNot => "AndNot"
  | or => "Or"
  | orNot => "OrNot"

/-- The connective is a conjunction, which binds tighter than the others. -/
def isAnd : Connective → Bool
  | and | andNot => true
  | or | orNot => false

/-- The connective negates the condition behind it. -/
def isNegated : Connective → Bool
  | andNot | orNot => true
  | and | or => false

/-- The other connective with the same negation. -/
def swapped : Connective → Connective
  | and => or
  | andNot => orNot
  | or => and
  | orNot => andNot

@[simp]
theorem swapped_swapped (c : Connective) : c.swapped.swapped = c := by
  cases c <;> rfl

end Connective

namespace Operator

/-- Every operator once. -/
def all : List Operator :=
  Comparison.all.map compare ++ Connective.all.map connect

/-- The operator as canonical text writes it. -/
def text : Operator → String
  | compare c => c.text
  | connect c => c.text

/-- The name of the operator. -/
def name : Operator → String
  | compare c => c.name
  | connect c => c.name

/-- The operator with a name. -/
def ofName? (name : String) : Option Operator :=
  all.find? fun operator => operator.name == name

/-- The operator stands between a field and a value. -/
def isComparison : Operator → Bool
  | compare _ => true
  | connect _ => false

/-- The operator stands between two conditions. -/
def isConnective (operator : Operator) : Bool :=
  !operator.isComparison

/-- The operator is a conjunction. -/
def isAnd : Operator → Bool
  | compare _ => false
  | connect c => c.isAnd

/-- The operator of the opposite: comparisons are negated, connectives swapped. -/
def opposite : Operator → Operator
  | compare c => compare c.negated
  | connect c => connect c.swapped

end Operator

end DocQuery
