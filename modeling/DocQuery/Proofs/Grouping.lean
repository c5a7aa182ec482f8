import DocQuery.Proofs.Canonical.Chain

/-!
# How a chain is grouped

Cut a chain in front of every link that does not bind tightly.  Each piece is a
run, whose conditions are joined from the left, and the runs are joined from the
right by the links between them.  The tree of a chain is grown from its right
end by grafts on a left spine, and yet it is grouped just so: the spine that the
growth counts is made of connectives of the chain alone, and no graft goes into
a condition.  The main statement is `Chain.fold_eq_tree_grouping`.
-/

namespace DocQuery

/-- A tree over conditions that are not looked into. -/
inductive Grouping where
  | condition (e : Expr)
  | join (connective : Connective) (left right : Grouping)

namespace Grouping

/-- The expression that the grouping makes of its conditions. -/
def tree : Grouping → Expr
  | condition e => e
  | join connective left right => .connect connective left.tree right.tree

/-- The conditions from left to right. -/
def conditions : Grouping → List Expr
  | condition e => [e]
  | join _ left right => left.conditions ++ right.conditions

/-- The connectives of the grouping down its left spine. -/
def spine : Grouping → Nat
  | condition _ => 0
  | join _ left _ => left.spine + 1

/--
Put a condition and a connective in front of what is on the left of a connective,
so many connectives down the left spine.  A condition has no connective to offer.
-/
def graft? (connective : Connective) (e : Expr) : Nat → Grouping → Option Grouping
  | _, condition _ => none
  | 0, join top left right => some (join top (join connective (condition e) left) right)
  | depth + 1, join top left right =>
      (graft? connective e depth left).map fun grown => join top grown right

/-- A run: conditions joined from the left to what stands in front of them. -/
def run (first : Grouping) (links : List Link) : Grouping :=
  links.foldl (fun sofar link => join link.connective sofar (condition link.condition)) first

/-- A run as long as links are tight, and all behind the next link joined to its right. -/
def ofLinks (first : Grouping) (links : List Link) : Grouping :=
  match _h : links.dropWhile Link.isTight with
  | [] => run first (links.takeWhile Link.isTight)
  | loose :: others =>
      join loose.connective (run first (links.takeWhile Link.isTight))
        (ofLinks (condition loose.condition) others)
termination_by links.length
decreasing_by
  have hlength := (List.dropWhile_suffix (l := links) Link.isTight).length_le
  rw [_h, List.length_cons] at hlength
  exact hlength

end Grouping

/-- The grouping of a chain, run by run. -/
def Chain.grouping (chain : Chain) : Grouping :=
  .ofLinks (.condition chain.first) chain.links

/-! ## One link after the other -/

namespace Grouping

variable {link : Link} {links : List Link}

theorem ofLinks_eq_run (first : Grouping) (h : links.dropWhile Link.isTight = []) :
    ofLinks first links = run first (links.takeWhile Link.isTight) := by
  rw [ofLinks]
  split
  · rfl
  · next heq =>
      rw [h] at heq
      cases heq

theorem ofLinks_eq_join (first : Grouping) {loose : Link} {others : List Link}
    (h : links.dropWhile Link.isTight = loose :: others) : ofLinks first links =
      join loose.connective (run first (links.takeWhile Link.isTight))
        (ofLinks (condition loose.condition) others) := by
  rw [ofLinks]
  split
  · next heq =>
      rw [h] at heq
      cases heq
  · next heq =>
      rw [h] at heq
      cases heq
      rfl

@[simp]
theorem ofLinks_nil (first : Grouping) : ofLinks first [] = first :=
  ofLinks_eq_run first rfl

/-- A tight link goes on with the run. -/
theorem ofLinks_tight (first : Grouping) (links : List Link) (h : link.isTight = true) :
    ofLinks first (link :: links) =
      ofLinks (join link.connective first (condition link.condition)) links := by
  have hdrop := List.dropWhile_cons_of_pos (l := links) h
  have htake := List.takeWhile_cons_of_pos (l := links) h
  cases hothers : links.dropWhile Link.isTight with
  | nil =>
      rw [ofLinks_eq_run first (hdrop.trans hothers), ofLinks_eq_run _ hothers, htake]
      rfl
  | cons loose others =>
      rw [ofLinks_eq_join first (hdrop.trans hothers), ofLinks_eq_join _ hothers, htake]
      rfl

/-- Any other link ends the run. -/
theorem ofLinks_loose (first : Grouping) (links : List Link) (h : link.isTight = false) :
    ofLinks first (link :: links) =
      join link.connective first (ofLinks (condition link.condition) links) := by
  have hloose : ¬ link.isTight = true := by simp [h]
  rw [ofLinks_eq_join first (List.dropWhile_cons_of_neg hloose),
    List.takeWhile_cons_of_neg hloose]
  rfl

/-- The grouping has the conditions of the links behind what stands in front of them. -/
theorem conditions_ofLinks (first : Grouping) (links : List Link) :
    (ofLinks first links).conditions = first.conditions ++ links.map Link.condition := by
  induction links generalizing first with
  | nil => simp
  | cons link links ih =>
      cases htight : link.isTight with
      | true => rw [ofLinks_tight first links htight, ih]; simp [conditions]
      | false => rw [ofLinks_loose first links htight, conditions, ih]; simp [conditions]

/-- The tree of links behind the tree of a grouping is the tree of the whole grouping. -/
theorem tree_ofLinks (first : Grouping) (links : List Link) :
    (ofLinks first links).tree = Chain.fold ⟨first.tree, links⟩ := by
  induction links generalizing first with
  | nil => simp
  | cons link links ih =>
      cases htight : link.isTight with
      | true =>
          rw [ofLinks_tight first links htight, ih, Chain.fold_tight _ links htight, tree, tree]
      | false =>
          rw [ofLinks_loose first links htight, tree, ih, Chain.fold_loose _ links htight, tree]

/-! ## The left spine -/

/-- The left spine of the grouping has the length of the spine of conditions. -/
theorem spine_ofLinks (first : Grouping) (links : List Link) :
    (ofLinks first links).spine = first.spine + (Spine.ofLinks links).length := by
  induction links generalizing first with
  | nil => simp [Spine.ofLinks]
  | cons link links ih =>
      rw [Spine.ofLinks]
      cases htight : link.isTight with
      | false => simp [ofLinks_loose first links htight, spine]
      | true =>
          rw [ofLinks_tight first links htight, ih, spine]
          cases hspine : Spine.ofLinks links with
          | nil => simp
          | cons top others =>
              simp only [List.isEmpty_cons, Bool.not_false, Bool.and_self, if_true,
                List.length_cons]
              omega

/-- Above the first condition a graft on the tree is a graft on the grouping. -/
theorem exists_graft? (connective : Connective) (e : Expr) {depth : Nat} {g : Grouping}
    (h : depth < g.spine) : ∃ grown, graft? connective e depth g = some grown ∧
      grown.tree = Growth.graft connective e depth g.tree ∧
      grown.conditions = e :: g.conditions := by
  induction g generalizing depth with
  | condition e => cases h
  | join top left right ih _ =>
      cases depth with
      | zero => exact ⟨_, rfl, rfl, rfl⟩
      | succ depth =>
          obtain ⟨grown, hgraft, htree, hconditions⟩ := ih (Nat.lt_of_succ_lt_succ h)
          refine ⟨join top grown right, ?_, ?_, ?_⟩
          · rw [graft?, hgraft, Option.map_some]
          · rw [tree, htree]
            rfl
          · rw [conditions, hconditions]
            rfl

end Grouping

/-! ## The tree of a chain -/

/-- A chain grows to the tree and the left spine of its grouping. -/
theorem Growth.ofChain_eq_grouping (first : Expr) (links : List Link) :
    ofChain first links =
      ⟨(Chain.mk first links).grouping.tree, (Chain.mk first links).grouping.spine⟩ := by
  rw [Growth.ofChain_eq, Chain.grouping, Grouping.tree_ofLinks, Grouping.spine_ofLinks,
    Grouping.tree, Grouping.spine, Chain.fold_eq, Nat.zero_add]

/--
The tree of a chain is that of its grouping, with every condition of the chain in
its place.  Wherever a tight link is grafted onto what the chain behind it grew
to, the graft is one on the grouping of that chain, whose conditions stay as they
are behind the new one.
-/
theorem Chain.fold_eq_tree_grouping (chain : Chain) :
    chain.fold = chain.grouping.tree ∧
    chain.grouping.conditions = chain.first :: chain.links.map Link.condition ∧
    ∀ (e : Expr) (link : Link) (links : List Link), link :: links <:+ chain.links →
      link.isTight = true → 0 < (Growth.ofChain link.condition links).spine →
      ∃ grown, (Growth.ofChain link.condition links).tree =
          (Chain.mk link.condition links).grouping.tree ∧
        (Chain.mk link.condition links).grouping.graft? link.connective e
          ((Growth.ofChain link.condition links).spine - 1) = some grown ∧
        (Growth.extend e link (Growth.ofChain link.condition links)).tree = grown.tree ∧
        grown.conditions = e :: link.condition :: links.map Link.condition := by
  have hconditions : ∀ first links, (Chain.mk first links).grouping.conditions =
      first :: links.map Link.condition := fun first links =>
    Grouping.conditions_ofLinks (.condition first) links
  refine ⟨?_, hconditions _ _, ?_⟩
  · rw [grouping, Grouping.tree_ofLinks]
    rfl
  · intro e link links _ htight hspine
    rw [Growth.ofChain_eq_grouping] at hspine ⊢
    obtain ⟨grown, hgraft, htree, hgrown⟩ :=
      Grouping.exists_graft? link.connective e (Nat.sub_lt hspine Nat.one_pos)
    refine ⟨grown, rfl, hgraft, ?_, hgrown.trans (congrArg (e :: ·) (hconditions _ _))⟩
    rw [htree, Growth.extend, htight, decide_eq_true hspine]
    rfl

/-- A condition goes below two connectives, the lower of them behind a group. -/
theorem Chain.fold_eq_tree_grouping_group :
    ∃ chain : Chain, ∃ e link links, link :: links <:+ chain.links ∧ link.isTight = true ∧
      (Growth.ofChain link.condition links).spine = 2 ∧
      chain.fold = (Growth.extend e link (Growth.ofChain link.condition links)).tree ∧
      ∃ grown, (Chain.mk link.condition links).grouping.graft? link.connective e 1 = some grown ∧
        chain.fold = grown.tree := by
  refine ⟨⟨.field (.plain "a"), [⟨.and, .field (.plain "b"), false⟩,
    ⟨.andNot, .field (.plain "c"), false⟩,
    ⟨.and, .connect .or (.field (.plain "d")) .truth, true⟩]⟩,
    .field (.plain "a"), _, _, List.suffix_rfl, rfl, rfl, rfl, ?_⟩
  obtain ⟨-, -, hgrafts⟩ := fold_eq_tree_grouping ⟨.field (.plain "a"),
    [⟨.and, .field (.plain "b"), false⟩, ⟨.andNot, .field (.plain "c"), false⟩,
    ⟨.and, .connect .or (.field (.plain "d")) .truth, true⟩]⟩
  obtain ⟨grown, -, hgraft, htree, -⟩ := hgrafts (.field (.plain "a")) _ _ List.suffix_rfl rfl
    (by decide)
  exact ⟨grown, hgraft, htree⟩

end DocQuery
