import DocQuery.Operator
import DocQuery.Value

/-!
# Expressions

Conditions, values and calls share one type, because the arguments of a call may
be any of them.  The subject of a comparison that stands behind a call is left
out; it is then the last argument of that call, with the implicit path as its
subject.
-/

namespace DocQuery

/-- A condition, a field, a value or a call. -/
inductive Expr where
  | field (path : Path)
  | value (value : Value)
  | binary (operator : Operator) (left right : Expr)
  | between (subject : Path) (low high : Value)
  | within (subject : Path) (values : List Value) (all : Bool)
  | call (name : Path) (arguments : List Expr)
  | truth
  deriving Inhabited

namespace Expr

/-! ## Construction -/

/-- The comparison of an expression with a value. -/
def compare (left : Expr) (comparison : Comparison) (right : Value) : Expr :=
  .binary (.compare comparison) left (.value right)

/-- Two conditions with a connective between them. -/
def connect (connective : Connective) (left right : Expr) : Expr :=
  .binary (.connect connective) left right

/-! ## Classification -/

/-- The expression joins two conditions. -/
def isConnective : Expr → Bool
  | .binary operator _ _ => operator.isConnective
  | _ => false

/-- The expression is the implicit path. -/
def isImplicitField : Expr → Bool
  | .field path => path.isImplicit
  | _ => false

/-- The expression tests a subject that is left out. -/
def hasImplicitSubject : Expr → Bool
  | .binary _ left _ => left.isImplicitField
  | .between subject _ _ => subject.isImplicit
  | .within subject _ _ => subject.isImplicit
  | _ => false

/-- The test behind a call, if its last argument is one. -/
def trailing? (arguments : List Expr) : Option Expr :=
  arguments.getLast?.filter hasImplicitSubject

/-! ## Sameness -/

mutual

/-- The expressions are the same up to positions. -/
def same : Expr → Expr → Bool
  | .field p, .field q => p == q
  | .value v, .value w => v == w
  | .binary o l r, .binary o' l' r' => o == o' && l.same l' && r.same r'
  | .between s a b, .between s' a' b' => s == s' && a == a' && b == b'
  | .within s vs all, .within s' vs' all' => s == s' && vs == vs' && all == all'
  | .call n as, .call n' as' => n == n' && sameAll as as'
  | .truth, .truth => true
  | _, _ => false

/-- The lists have the same expressions in the same order, up to positions. -/
def sameAll : List Expr → List Expr → Bool
  | [], [] => true
  | e :: es, d :: ds => e.same d && sameAll es ds
  | _, _ => false

end

instance : BEq Expr := ⟨same⟩

end Expr

end DocQuery
