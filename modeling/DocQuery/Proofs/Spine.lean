import DocQuery.Chain

/-!
# The left spine of a chain

The tree of a chain is its first condition with conditions hung to its right,
one above the other.  A conjunction that binds tightly goes to the bottom of
what the chain behind it made, and any other link takes all of that as the one
condition on its right.  So the shape of the tree is a list that is made by
recursion over the links, and what holds of every tree of a chain is shown by
induction over that list.  The main statement is `Chain.fold_eq`.
-/

namespace DocQuery

/-- Conditions to the right of a tree, the innermost first, with their connectives. -/
abbrev Spine : Type :=
  List (Connective × Expr)

namespace Spine

/-- The tree with the conditions hung to the right of an expression. -/
def plug (e : Expr) : Spine → Expr
  | [] => e
  | (connective, right) :: spine => plug (.connect connective e right) spine

/-- The spine that the links of a chain make. -/
def ofLinks : List Link → Spine
  | [] => []
  | link :: links =>
      if link.isTight && !(ofLinks links).isEmpty then
        (link.connective, link.condition) :: ofLinks links
      else [(link.connective, plug link.condition (ofLinks links))]

end Spine

open Spine

/-- A graft below a spine is a graft on what the spine hangs from. -/
theorem Growth.graft_below (connective : Connective) (left : Expr) (depth : Nat) (e : Expr)
    (spine : Spine) : graft connective left (depth + spine.length) (plug e spine) =
      plug (graft connective left depth e) spine := by
  induction spine generalizing depth e with
  | nil => rfl
  | cons top spine ih =>
      obtain ⟨c, right⟩ := top
      have hroot : graft connective left (depth + 1) (.connect c e right) =
          .connect c (graft connective left depth e) right := rfl
      have hlength : depth + ((c, right) :: spine).length = depth + 1 + spine.length := by
        rw [List.length_cons]
        omega
      rw [hlength, plug, ih (depth + 1), hroot, plug]

/-- A condition grafted onto the bottom of a spine is in front of all that hangs there. -/
theorem Growth.graft_plug (connective : Connective) (left e : Expr) {spine : Spine}
    (hspine : spine ≠ []) : graft connective left (spine.length - 1) (plug e spine) =
      plug left ((connective, e) :: spine) := by
  cases spine with
  | nil => exact absurd rfl hspine
  | cons top spine =>
      obtain ⟨c, right⟩ := top
      have hbelow := graft_below connective left 0 (.connect c e right) spine
      rw [Nat.zero_add] at hbelow
      exact hbelow

/-- A chain grows to its first condition with the spine of its links. -/
theorem Growth.ofChain_eq (first : Expr) (links : List Link) :
    ofChain first links = ⟨plug first (ofLinks links), (ofLinks links).length⟩ := by
  induction links generalizing first with
  | nil => rfl
  | cons link links ih =>
      rw [ofChain, ih link.condition, extend, ofLinks]
      cases htight : link.isTight with
      | false => rfl
      | true =>
          cases hspine : ofLinks links with
          | nil => rfl
          | cons top spine =>
              have hgraft := graft_plug link.connective first link.condition
                (List.cons_ne_nil top spine)
              simp only [List.length_cons] at hgraft
              simp only [List.length_cons, Nat.zero_lt_succ, decide_true, Bool.and_self, if_true,
                hgraft, List.isEmpty_cons, Bool.not_false]

/-- The tree of a chain is its first condition with the spine of its links. -/
theorem Chain.fold_eq (first : Expr) (links : List Link) :
    Chain.fold ⟨first, links⟩ = plug first (ofLinks links) := by
  rw [Chain.fold, Growth.ofChain_eq]

/-! ## What holds of every tree of a chain -/

section Induction

variable {P : Expr → Prop}
  (hconnect : ∀ {connective left right}, P left → P right → P (.connect connective left right))

include hconnect

theorem Spine.plug_induction {e : Expr} {spine : Spine} (he : P e) (h : ∀ top ∈ spine, P top.2) :
    P (plug e spine) := by
  induction spine generalizing e with
  | nil => exact he
  | cons top spine ih =>
      obtain ⟨connective, right⟩ := top
      obtain ⟨hright, h⟩ := List.forall_mem_cons.mp h
      exact ih (hconnect he hright) h

theorem Spine.ofLinks_induction {links : List Link} (h : ∀ link ∈ links, P link.condition) :
    ∀ top ∈ ofLinks links, P top.2 := by
  induction links with
  | nil => exact fun _ hmem => by cases hmem
  | cons link links ih =>
      obtain ⟨hlink, h⟩ := List.forall_mem_cons.mp h
      rw [ofLinks]
      split
      · exact List.forall_mem_cons.mpr ⟨hlink, ih h⟩
      · exact List.forall_mem_singleton.mpr (plug_induction hconnect hlink (ih h))

/-- What connectives keep holds of the tree if it holds of all conditions of the chain. -/
theorem Chain.fold_induction {first : Expr} {links : List Link} (hfirst : P first)
    (h : ∀ link ∈ links, P link.condition) : P (Chain.fold ⟨first, links⟩) := by
  rw [Chain.fold_eq]
  exact plug_induction hconnect hfirst (ofLinks_induction hconnect h)

end Induction

end DocQuery
