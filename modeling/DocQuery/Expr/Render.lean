import DocQuery.Expr.Basic

/-!
# Canonical text of an expression

A tree of connectives is written as a chain with only the parentheses that the
chain needs to be read back as the same tree.  A conjunction with a single
condition on its right goes on with the chain that starts on its left, so that
side is grouped only if it is another connective.  The right side of a
disjunction is never grouped, and the right side of a conjunction is grouped if
it is a connective whose own text does not start with a group.
-/

namespace DocQuery.Expr

/-- Two texts around an operator. -/
def joinOperator (left operator right : String) : String :=
  left ++ " " ++ operator ++ " " ++ right

/-- The text, in parentheses if they are wanted. -/
def inParens (wanted : Bool) (text : String) : String :=
  if wanted then "(" ++ text ++ ")" else text

/-- The expression is a conjunction with a single condition on its right. -/
def isRun : Expr → Bool
  | .binary operator _ right => operator.isAnd && !right.isConnective
  | _ => false

/-- The expression is grouped when it stands on the left of a connective. -/
def groupedLeft (e : Expr) : Bool :=
  e.isConnective && !e.isRun

/-- The text of the chain starts with a group. -/
def startsWithGroup : Expr → Bool
  | .binary (.connect _) left _ => left.groupedLeft || left.startsWithGroup
  | _ => false

/-- The expression is grouped when it stands on the right of this connective. -/
def groupedRight (connective : Connective) (e : Expr) : Bool :=
  e.isConnective && connective.isAnd && !e.startsWithGroup

/-- The texts with commas between them. -/
def commaSeparated (texts : List String) : String :=
  ", ".intercalate texts

/-- The subject and a space, or nothing for a subject that is left out. -/
def renderSubject (subject : Path) : String :=
  if subject.isImplicit then "" else subject.render ++ " "

/-- The range test on a subject. -/
def renderBetween (subject : Path) (low high : Value) : String :=
  renderSubject subject ++ "BETWEEN " ++ low.render ++ " AND " ++ high.render

/-- The membership test on a subject. -/
def renderWithin (subject : Path) (values : List Value) (all : Bool) : String :=
  renderSubject subject ++ (if all then "ALL IN (" else "IN (") ++
    commaSeparated (values.map Value.render) ++ ")"

/-- A call with the texts of its arguments, the last behind it if it is a test. -/
def renderCall (name : Path) (texts : List String) (trailing : Bool) : String :=
  if trailing then
    name.render ++ "(" ++ commaSeparated texts.dropLast ++ ") " ++ texts.getLast?.getD ""
  else name.render ++ "(" ++ commaSeparated texts ++ ")"

mutual

/-- The canonical text of an expression. -/
def render : Expr → String
  | .field path => path.render
  | .value v => v.render
  | .binary (.compare comparison) left right =>
      (if left.isImplicitField then "" else left.render ++ " ") ++
        comparison.text ++ " " ++ right.render
  | .binary (.connect connective) left right =>
      joinOperator (inParens left.groupedLeft left.render) connective.text
        (inParens (right.groupedRight connective) right.render)
  | .between subject low high => renderBetween subject low high
  | .within subject values all => renderWithin subject values all
  | .call name arguments =>
      renderCall name (renderAll arguments) (trailing? arguments).isSome
  | .truth => "true"

/-- The canonical texts of several expressions. -/
def renderAll : List Expr → List String
  | [] => []
  | e :: es => e.render :: renderAll es

end

end DocQuery.Expr
