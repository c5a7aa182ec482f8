import DocQuery.Expr.Basic

/-!
# Chains of conditions

Conditions joined by connectives are read as a chain in the order of the text
and only then made a tree.  The tree grows from the right end of the chain.  A
conjunction whose right condition is not in parentheses is grafted onto the
bottom of the left spine of the tree so far, so that conjunctions group to the
left and bind tighter; any other link makes a new root, with the tree so far on
its right.
-/

namespace DocQuery

/-- A connective and the condition behind it. -/
structure Link where
  connective : Connective
  condition : Expr
  /-- The condition was written in parentheses. -/
  grouped : Bool

/-- A first condition and those linked to it, in the order of the text. -/
structure Chain where
  first : Expr
  links : List Link

/-- A tree with the number of connectives down its left spine, as far as it grew. -/
structure Growth where
  tree : Expr
  spine : Nat

namespace Link

/-- The link binds the conditions on both sides more tightly than a disjunction. -/
def isTight (link : Link) : Bool :=
  link.connective.isAnd && !link.grouped

end Link

namespace Growth

/--
Put `left connective` in front of the leftmost condition below so many
connectives of the left spine.
-/
def graft (connective : Connective) (left : Expr) : Nat → Expr → Expr
  | 0, .binary operator condition right =>
      .binary operator (.connect connective left condition) right
  | depth + 1, .binary operator inner right =>
      .binary operator (graft connective left depth inner) right
  | _, tree => tree

/-- The growth after one more link, with the condition on its left. -/
def extend (left : Expr) (link : Link) (growth : Growth) : Growth :=
  if link.isTight && decide (0 < growth.spine) then
    ⟨graft link.connective left (growth.spine - 1) growth.tree, growth.spine + 1⟩
  else ⟨.connect link.connective left growth.tree, 1⟩

/-- The growth of a whole chain from its right end. -/
def ofChain (first : Expr) : List Link → Growth
  | [] => ⟨first, 0⟩
  | link :: links => extend first link (ofChain link.condition links)

end Growth

namespace Chain

/-- The tree that a chain is read as. -/
def fold (chain : Chain) : Expr :=
  (Growth.ofChain chain.first chain.links).tree

end Chain

end DocQuery
