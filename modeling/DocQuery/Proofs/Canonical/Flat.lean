import DocQuery.Proofs.Canonical.Condition

/-!
# The chain that canonical text writes

Canonical text is a chain of conditions, each of them a predicate or a group in
parentheses.  Which conditions the chain has is decided by looking down left
spines and at right sides, and which of its links bind tightly is decided by
parentheses alone.  The two agree: the chain that is written for a tree is read
as that tree, and so is the chain in each of its groups.  The main statement is
`Expr.refolds`.
-/

namespace DocQuery

/-! ## Chains and their text -/

/-- The text of the links behind a condition. -/
def Link.renderAll : List Link → String
  | [] => ""
  | link :: links =>
      " " ++ link.connective.text ++ " " ++
        Expr.inParens link.grouped link.condition.render ++ renderAll links

namespace Chain

/-- The text of a chain, whose first condition is in parentheses if it is a connective. -/
def render (chain : Chain) : String :=
  Expr.inParens chain.first.isConnective chain.first.render ++ Link.renderAll chain.links

/-- The conditions of a chain. -/
def conditions (chain : Chain) : List Expr :=
  chain.first :: chain.links.map Link.condition

/-- A connective and another chain behind a chain, with the mark for a group. -/
def append (front : Chain) (connective : Connective) (behind : Chain) : Chain :=
  ⟨front.first, front.links ++
    ⟨connective, behind.first, behind.first.isConnective⟩ :: behind.links⟩

/-- The chain of a piece, which is one condition if it is written as a group. -/
def inGroup (wanted : Bool) (e : Expr) (chain : Chain) : Chain :=
  if wanted then ⟨e, []⟩ else chain

/-- Just the links to connectives are marked as links to groups. -/
def IsMarked (chain : Chain) : Prop :=
  ∀ link ∈ chain.links, link.grouped = link.condition.isConnective

end Chain

/-- The chain that the canonical text of an expression is, with its groups as conditions. -/
def Expr.chain : Expr → Chain
  | .binary (.connect connective) left right =>
      (Chain.inGroup left.groupedLeft left left.chain).append connective
        (Chain.inGroup (right.groupedRight connective) right right.chain)
  | e => ⟨e, []⟩

namespace Expr

/-- The chain of an expression on the left of a connective. -/
def front (e : Expr) : Chain :=
  Chain.inGroup e.groupedLeft e e.chain

/-- The chain of an expression on the right of a connective. -/
def behind (connective : Connective) (e : Expr) : Chain :=
  Chain.inGroup (e.groupedRight connective) e e.chain

/--
The chain of an expression has its canonical text, is marked where that text has
a group and is read as the expression, and the same holds inside each group.
-/
inductive Refolds : Expr → Prop where
  | mk {e : Expr} : e.chain.render = e.render → e.chain.IsMarked → e.chain.fold = e →
      (∀ group ∈ e.chain.conditions, group.isConnective = true → group.Refolds) → e.Refolds

end Expr

/-! ## The text of a chain -/

theorem Link.renderAll_append (links others : List Link) :
    renderAll (links ++ others) = renderAll links ++ renderAll others := by
  induction links with
  | nil => simp [renderAll]
  | cons link links ih => simp only [List.cons_append, renderAll, ih, String.append_assoc]

namespace Chain

variable {connective : Connective} {front behind chain : Chain} {wanted : Bool} {e : Expr}

theorem render_append :
    (front.append connective behind).render =
      Expr.joinOperator front.render connective.text behind.render := by
  simp only [append, render, Link.renderAll_append, Link.renderAll, Expr.joinOperator,
    String.append_assoc]

theorem render_single (e : Expr) : render ⟨e, []⟩ = Expr.inParens e.isConnective e.render := by
  simp [render, Link.renderAll]

theorem render_inGroup (hwanted : wanted = true → e.isConnective = true)
    (hchain : chain.render = e.render) :
    (inGroup wanted e chain).render = Expr.inParens wanted e.render := by
  cases wanted with
  | true => rw [inGroup, if_pos rfl, render_single, hwanted rfl]
  | false => exact hchain

theorem conditions_append :
    (front.append connective behind).conditions = front.conditions ++ behind.conditions := by
  simp [append, conditions]

/-! ## The marks of a chain -/

theorem isMarked_single (e : Expr) : IsMarked ⟨e, []⟩ :=
  List.forall_mem_nil _

theorem IsMarked.append (hfront : front.IsMarked) (hbehind : behind.IsMarked) :
    (front.append connective behind).IsMarked := by
  exact List.forall_mem_append.mpr ⟨hfront, List.forall_mem_cons.mpr ⟨rfl, hbehind⟩⟩

theorem IsMarked.inGroup (h : chain.IsMarked) : (inGroup wanted e chain).IsMarked := by
  cases wanted with
  | true => exact isMarked_single e
  | false => exact h

end Chain

namespace Expr

variable {connective : Connective} {left right e : Expr}

theorem chain_connect :
    (connect connective left right).chain =
      left.front.append connective (right.behind connective) := by
  rw [connect, chain, front, behind]

theorem chain_of_not_connective (h : e.isConnective = false) : e.chain = ⟨e, []⟩ := by
  unfold chain
  split
  · cases h
  · rfl

/-- An expression is a single condition or two conditions with a connective. -/
theorem connect_induction {P : Expr → Prop} (hsingle : ∀ e, e.isConnective = false → P e)
    (hconnect : ∀ connective left right, P left → P right → P (.connect connective left right))
    (e : Expr) : P e := by
  induction e using chain.induct with
  | case1 connective left right hleft hright => exact hconnect connective left right hleft hright
  | case2 e hother =>
      refine hsingle e ?_
      cases hconnective : e.isConnective with
      | false => rfl
      | true =>
          cases e with
          | binary operator left right =>
              cases operator with
              | connect connective => exact (hother connective left right rfl).elim
              | compare comparison => exact hconnective.symm
          | _ => exact hconnective.symm

theorem isConnective_of_groupedLeft (h : e.groupedLeft = true) : e.isConnective = true :=
  (Bool.and_eq_true_iff.mp h).1

theorem isConnective_of_groupedRight (h : e.groupedRight connective = true) :
    e.isConnective = true :=
  (Bool.and_eq_true_iff.mp (Bool.and_eq_true_iff.mp h).1).1

/-! ## The chain of an expression -/

/-- The chain of an expression has the canonical text of the expression. -/
theorem render_chain (e : Expr) : e.chain.render = e.render := by
  induction e using connect_induction with
  | hsingle e hsingle =>
      rw [chain_of_not_connective hsingle, Chain.render_single, hsingle]
      rfl
  | hconnect connective left right hleft hright =>
      rw [chain_connect, Chain.render_append, front, behind,
        Chain.render_inGroup isConnective_of_groupedLeft hleft,
        Chain.render_inGroup isConnective_of_groupedRight hright, connect, render]

theorem isMarked_chain (e : Expr) : e.chain.IsMarked := by
  induction e using connect_induction with
  | hsingle e hsingle =>
      rw [chain_of_not_connective hsingle]
      exact Chain.isMarked_single e
  | hconnect connective left right hleft hright =>
      rw [chain_connect]
      exact hleft.inGroup.append hright.inGroup

/-- The chain starts with a group exactly if the canonical text does. -/
theorem isConnective_first_chain (e : Expr) :
    e.chain.first.isConnective = e.startsWithGroup := by
  induction e using connect_induction with
  | hsingle e hsingle =>
      rw [chain_of_not_connective hsingle, startsWithGroup_of_not_connective hsingle, hsingle]
  | hconnect connective left right hleft _ =>
      rw [chain_connect, Chain.append, front, connect, startsWithGroup]
      cases hgrouped : left.groupedLeft with
      | true => exact isConnective_of_groupedLeft hgrouped
      | false => exact hleft

/-! ## Reading the chain back -/

/-- What stands on the left of a connective is read before the links that follow. -/
theorem fold_front (e : Expr) (links : List Link) :
    Chain.fold ⟨e.front.first, e.front.links ++ links⟩ = Chain.fold ⟨e, links⟩ := by
  induction e using connect_induction generalizing links with
  | hsingle e hsingle =>
      rw [front, chain_of_not_connective hsingle]
      cases e.groupedLeft <;> rfl
  | hconnect connective left right hleft _ =>
      cases hgrouped : (connect connective left right).groupedLeft with
      | true =>
          rw [front, hgrouped]
          rfl
      | false =>
          -- only a run is not grouped, and its last link binds tightly
          have hrun : (connective.isAnd && !right.isConnective) = true := by
            rw [← Bool.not_eq_false']
            exact hgrouped
          obtain ⟨hand, hsingle⟩ := Bool.and_eq_true_iff.mp hrun
          rw [Bool.not_eq_true'] at hsingle
          have hchain : (connect connective left right).front =
              ⟨left.front.first, left.front.links ++ [⟨connective, right, false⟩]⟩ := by
            rw [front, hgrouped, chain_connect, behind, groupedRight, hsingle,
              chain_of_not_connective hsingle]
            simp [Chain.inGroup, Chain.append, hsingle]
          rw [hchain, List.append_assoc, hleft, List.singleton_append]
          exact Chain.fold_tight left links (by simp [Link.isTight, hand])

/-- What stands on the right of a connective is read as its right side. -/
theorem fold_behind (connective : Connective) (left : Expr) (hright : right.chain.fold = right) :
    Chain.fold ⟨left, ⟨connective, (right.behind connective).first,
      (right.behind connective).first.isConnective⟩ :: (right.behind connective).links⟩ =
        connect connective left right := by
  have hsingle (grouped : Bool) :
      Chain.fold ⟨left, [⟨connective, right, grouped⟩]⟩ = connect connective left right := by
    cases htight : Link.isTight ⟨connective, right, grouped⟩ with
    | true => exact Chain.fold_tight left [] htight
    | false => exact Chain.fold_loose left [] htight
  cases hconnective : right.isConnective with
  | false =>
      rw [behind, groupedRight, hconnective, chain_of_not_connective hconnective]
      exact hsingle _
  | true =>
      cases hgrouped : right.groupedRight connective with
      | true =>
          rw [behind, hgrouped]
          exact hsingle _
      | false =>
          -- it is not grouped after a conjunction because it starts with a group
          have hloose : Link.isTight ⟨connective, right.chain.first,
              right.chain.first.isConnective⟩ = false := by
            rw [Link.isTight, isConnective_first_chain]
            simpa [groupedRight, hconnective] using hgrouped
          rw [behind, hgrouped]
          exact (Chain.fold_loose left _ hloose).trans (congrArg (connect connective left) hright)

theorem fold_chain (e : Expr) : e.chain.fold = e := by
  induction e using connect_induction with
  | hsingle e hsingle => rw [chain_of_not_connective hsingle, Chain.fold_nil]
  | hconnect connective left right _ hright =>
      rw [chain_connect]
      exact (fold_front left _).trans (fold_behind connective left hright)

/-! ## The chains in groups -/

theorem Refolds.of_groups
    (h : ∀ group ∈ e.chain.conditions, group.isConnective = true → group.Refolds) : e.Refolds :=
  .mk (render_chain e) (isMarked_chain e) (fold_chain e) h

theorem Refolds.inGroup {wanted : Bool} (h : e.Refolds) :
    ∀ group ∈ (Chain.inGroup wanted e e.chain).conditions, group.isConnective = true →
      group.Refolds := by
  cases wanted with
  | true => exact List.forall_mem_singleton.mpr fun _ => h
  | false =>
      cases h with
      | mk _ _ _ hgroups => exact hgroups

/-- Each expression is read back from the chain that is written for it, and so is each group. -/
theorem refolds (e : Expr) : e.Refolds := by
  induction e using connect_induction with
  | hsingle e hsingle =>
      refine .of_groups ?_
      rw [chain_of_not_connective hsingle]
      exact List.forall_mem_singleton.mpr fun hconnective => by simp [hsingle] at hconnective
  | hconnect connective left right hleft hright =>
      refine .of_groups ?_
      rw [chain_connect, Chain.conditions_append]
      exact List.forall_mem_append.mpr ⟨hleft.inGroup, hright.inGroup⟩

end Expr

end DocQuery
