import DocQuery.Proofs.Erase
import DocQuery.Proofs.Spine

/-!
# Chains that give a tree back

The canonical text of a tree is a chain.  A link that binds tightly joins its
condition to all that stands in front of it, and any other link takes all that
stands behind it; these two laws tell what is read from such a chain.  Whatever
tree is read, it has the conditions and connectives of the chain in the order of
the text.
-/

namespace DocQuery

open Spine

namespace Chain

/-! ## Laws of the tree of a chain -/

@[simp]
theorem fold_nil (e : Expr) : fold ⟨e, []⟩ = e := rfl

/-- A link that binds tightly joins its condition to what stands in front. -/
theorem fold_tight {link : Link} (e : Expr) (links : List Link) (h : link.isTight = true) :
    fold ⟨e, link :: links⟩ = fold ⟨.connect link.connective e link.condition, links⟩ := by
  rw [fold_eq, fold_eq, ofLinks, h, Bool.true_and]
  cases hspine : ofLinks links with
  | nil => rfl
  | cons top spine => rfl

/-- Any other link takes the rest of the chain to its right. -/
theorem fold_loose {link : Link} (e : Expr) (links : List Link) (h : link.isTight = false) :
    fold ⟨e, link :: links⟩ = .connect link.connective e (fold ⟨link.condition, links⟩) := by
  rw [fold_eq, fold_eq, ofLinks, h, Bool.false_and]
  rfl

end Chain

/-! ## Positions -/

namespace Link

/-- The link without positions. -/
def erase (link : Link) : Link :=
  { link with condition := link.condition.erase }

@[simp]
theorem isTight_erase (link : Link) : link.erase.isTight = link.isTight := rfl

end Link

namespace Chain

theorem erase_fold (e : Expr) (links : List Link) :
    (fold ⟨e, links⟩).erase = fold ⟨e.erase, links.map Link.erase⟩ := by
  induction links generalizing e with
  | nil => rfl
  | cons link links ih =>
      rw [List.map_cons]
      cases htight : link.isTight with
      | true => rw [fold_tight e links htight, fold_tight _ _ (by simpa using htight), ih,
          Expr.erase_connect]; rfl
      | false => rw [fold_loose e links htight, fold_loose _ _ (by simpa using htight),
          Expr.erase_connect, ih]; rfl

/-- What is read from a chain depends on its parts up to positions. -/
theorem fold_congr {e e' : Expr} (he : e.erase = e'.erase) (links : List Link) :
    (fold ⟨e, links⟩).erase = (fold ⟨e', links⟩).erase := by
  rw [erase_fold, erase_fold, he]

end Chain

/-! ## The order of the text -/

namespace Expr

/-- The connectives and the other conditions of a tree, from left to right. -/
def sequence : Expr → List (Connective ⊕ Expr)
  | .binary (.connect connective) left right =>
      left.sequence ++ .inl connective :: right.sequence
  | e => [.inr e]

theorem sequence_connect (connective : Connective) (left right : Expr) :
    (connect connective left right).sequence =
      left.sequence ++ .inl connective :: right.sequence := rfl

end Expr

/-- The connectives and the conditions of links, from left to right. -/
def Link.sequence (links : List Link) : List (Connective ⊕ Expr) :=
  links.flatMap fun link => .inl link.connective :: link.condition.sequence

namespace Chain

/-- A chain is read as a tree in the order of its text. -/
theorem sequence_fold (e : Expr) (links : List Link) :
    (fold ⟨e, links⟩).sequence = e.sequence ++ Link.sequence links := by
  induction links generalizing e with
  | nil => simp [Link.sequence]
  | cons link links ih =>
      cases htight : link.isTight with
      | true =>
          rw [fold_tight e links htight, ih, Expr.sequence_connect]
          simp [Link.sequence]
      | false =>
          rw [fold_loose e links htight, Expr.sequence_connect, ih]
          simp [Link.sequence]

end Chain

end DocQuery
