import DocQuery.Chain

/-!
# Conditions as they are written

A condition is read as a tree, but it is written as a chain of operands, some of
them groups in parentheses.  The types of this module keep what is written:
which operands were grouped, and where.  `Condition.tree` is the tree that is
read from it, and `Condition.cost` is what the limits of a reader bound.
-/

namespace DocQuery

/-- What the limits bound: groups and calls inside one another, and connectives. -/
structure Complexity where
  depth : Nat
  connectives : Nat
  deriving DecidableEq, Repr

namespace Complexity

/-- Nothing that a limit bounds. -/
def zero : Complexity := ⟨0, 0⟩

/-- One connective. -/
def link : Complexity := ⟨0, 1⟩

/-- Two pieces side by side: the deeper one counts, and the connectives of both. -/
def join (left right : Complexity) : Complexity :=
  ⟨max left.depth right.depth, left.connectives + right.connectives⟩

/-- A piece inside a pair of parentheses. -/
def nest (inner : Complexity) : Complexity :=
  ⟨inner.depth + 1, inner.connectives⟩

/-- Depth and connectives together. -/
def total (c : Complexity) : Nat :=
  c.depth + c.connectives

@[simp]
theorem total_zero : zero.total = 0 := rfl

theorem total_join_le (left right : Complexity) :
    (left.join right).total ≤ left.total + right.total := by
  simp only [total, join]
  omega

theorem total_link_join_le (right : Complexity) : (link.join right).total ≤ right.total + 1 := by
  simp only [total, join, link]
  omega

theorem total_nest (inner : Complexity) : inner.nest.total = inner.total + 1 := by
  simp only [total, nest]
  omega

@[simp]
theorem join_zero (c : Complexity) : c.join zero = c := by
  simp [join, zero]

@[simp]
theorem zero_join (c : Complexity) : zero.join c = c := by
  simp [join, zero]

theorem join_assoc (a b c : Complexity) : (a.join b).join c = a.join (b.join c) := by
  simp [join, Nat.add_assoc, Nat.max_assoc]

end Complexity

namespace Syntax

mutual

/-- A first operand and those that connectives join to it. -/
inductive Condition where
  | chain (first : Operand) (links : Links)

/-- The operands behind the first one, each with its connective in front. -/
inductive Links where
  | nil
  | cons (connective : Connective) (operand : Operand) (links : Links)

/-- `true` or a test on a field, a call, or a group in parentheses. -/
inductive Operand where
  | test (e : Expr)
  | call (name : Path) (arguments : Arguments) (trailing : Option Expr)
  | group (inner : Condition)

/-- The arguments of a call without the test that may trail it. -/
inductive Arguments where
  | nil
  | cons (first : Argument) (others : Arguments)

/-- A value or a field by itself, or a condition. -/
inductive Argument where
  | leaf (e : Expr)
  | condition (inner : Condition)

end

/-- The operand was written in parentheses. -/
def Operand.isGroup : Operand → Bool
  | .group _ => true
  | _ => false

/-! ## What is read -/

mutual

/-- The tree that the condition is read as. -/
def Condition.tree : Condition → Expr
  | .chain first links => Chain.fold ⟨first.tree, links.toList⟩

/-- The links of the chain, each operand read. -/
def Links.toList : Links → List Link
  | .nil => []
  | .cons connective operand links =>
      ⟨connective, operand.tree, operand.isGroup⟩ :: links.toList

/-- The tree that the operand is read as. -/
def Operand.tree : Operand → Expr
  | .test e => e
  | .call name arguments trailing => .call name (arguments.trees ++ trailing.toList)
  | .group inner => inner.tree

/-- The trees of the arguments. -/
def Arguments.trees : Arguments → List Expr
  | .nil => []
  | .cons first others => first.tree :: others.trees

/-- The tree of an argument. -/
def Argument.tree : Argument → Expr
  | .leaf e => e
  | .condition inner => inner.tree

end

/-! ## What is counted -/

mutual

/-- The complexity of a condition. -/
def Condition.cost : Condition → Complexity
  | .chain first links => first.cost.join links.cost

/-- The complexity of the further operands and of their connectives. -/
def Links.cost : Links → Complexity
  | .nil => .zero
  | .cons _ operand links => Complexity.link.join (operand.cost.join links.cost)

/-- The complexity of an operand: a group and the arguments of a call are nested. -/
def Operand.cost : Operand → Complexity
  | .test _ => .zero
  | .call _ arguments _ => arguments.cost.nest
  | .group inner => inner.cost.nest

/-- The complexity of arguments side by side. -/
def Arguments.cost : Arguments → Complexity
  | .nil => .zero
  | .cons first others => first.cost.join others.cost

/-- The complexity of an argument. -/
def Argument.cost : Argument → Complexity
  | .leaf _ => .zero
  | .condition inner => inner.cost

end

end Syntax

end DocQuery
