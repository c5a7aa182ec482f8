import DocQuery.Proofs.Canonical.Legible
import DocQuery.Proofs.Negation
import DocQuery.Proofs.Traversal.Order

/-!
# Canonical text has the fewest parentheses

Every text that is read as a tree has at least the groups that the canonical
text of the tree has.  A text that starts with a group may be read as a tree
whose canonical text does not start with one, and that group is one more.  This
is what the groups behind a conjunction are paid with: the canonical text puts
its right side into parentheses unless that starts with a group by itself.  So
no pair of parentheses can be left out of canonical text.  The main statement is
`Query.filter_ne_of_pair_left_out`.
-/

namespace DocQuery

open Lexical

/-! ## Groups of canonical text -/

namespace Expr

/-- The groups in the canonical text of a tree of connectives, also those within groups. -/
def groups : Expr → Nat
  | .binary (.connect connective) left right =>
      left.groups + left.groupedLeft.toNat +
        (right.groups + (right.groupedRight connective).toNat)
  | _ => 0

/--
What a text that is read as the expression has in groups at least, given whether
the text starts with a group.
-/
def leastGroups (starts : Bool) (e : Expr) : Nat :=
  e.groups + (starts && !e.startsWithGroup).toNat

/-- The same for a text that is read as the left side of the link behind it. -/
def leastGroupsLeft (starts : Bool) (e : Expr) : Nat :=
  e.groups + (e.groupedLeft || (starts && !e.startsWithGroup)).toNat

variable {connective : Connective} {left right e : Expr} {starts : Bool}

theorem groups_connect : (connect connective left right).groups =
    left.groups + left.groupedLeft.toNat +
      (right.groups + (right.groupedRight connective).toNat) := by
  rw [connect, groups]

theorem groups_of_not_connective (h : e.isConnective = false) : e.groups = 0 := by
  unfold groups
  split
  · cases h
  · rfl

theorem groups_erase : (e : Expr) → e.erase.groups = e.groups
  | .binary (.connect _) left right => by
      simp only [erase, groups, groups_erase left, groups_erase right, groupedLeft_erase,
        groupedRight_erase]
  | .binary (.compare _) _ _ => rfl
  | .field _ => rfl
  | .value _ => rfl
  | .between _ _ _ => rfl
  | .within _ _ _ => rfl
  | .call _ _ => rfl
  | .truth => rfl

theorem leastGroups_le_left (starts : Bool) (e : Expr) :
    e.leastGroups starts ≤ e.leastGroupsLeft starts := by
  rw [leastGroups, leastGroupsLeft]
  cases e.groupedLeft with
  | true => exact Nat.add_le_add_left (Bool.toNat_le _) _
  | false => exact Nat.le_refl _

/-- A connective has the groups of its sides, and the text starts with its left side. -/
theorem leastGroups_connect : (connect connective left right).leastGroups starts =
    left.leastGroupsLeft starts + (right.groups + (right.groupedRight connective).toNat) := by
  have hstarts : (connect connective left right).startsWithGroup =
      (left.groupedLeft || left.startsWithGroup) := rfl
  have hsplit : left.groupedLeft.toNat +
      (starts && !(left.groupedLeft || left.startsWithGroup)).toNat =
        (left.groupedLeft || (starts && !left.startsWithGroup)).toNat := by
    cases left.groupedLeft <;> simp
  rw [leastGroups, leastGroupsLeft, groups_connect, hstarts, ← hsplit]
  omega

/-- A predicate that a conjunction joins to the left adds no group. -/
theorem leastGroupsLeft_connect (hand : connective.isAnd = true)
    (hright : right.isConnective = false) :
    (connect connective left right).leastGroupsLeft starts = left.leastGroupsLeft starts := by
  have hrun : (connect connective left right).groupedLeft = false := by
    simp [groupedLeft, connect, isRun, Operator.isAnd, hand, hright]
  have hsame : (connect connective left right).leastGroupsLeft starts =
      (connect connective left right).leastGroups starts := by
    rw [leastGroupsLeft, leastGroups, hrun, Bool.false_or]
  rw [hsame, leastGroups_connect, groups_of_not_connective hright, groupedRight, hright]
  rfl

/-- A group behind a conjunction is enough for the group that canonical text has there. -/
theorem groups_right_le (right : Expr) (hgrouped : connective.isAnd = true → starts = true) :
    right.groups + (right.groupedRight connective).toNat ≤ right.leastGroups starts := by
  refine Nat.add_le_add_left ?_ _
  cases hright : right.groupedRight connective with
  | false => exact Nat.zero_le _
  | true =>
      simp only [groupedRight, Bool.and_eq_true, Bool.not_eq_true'] at hright
      obtain ⟨⟨-, hand⟩, hstarts⟩ := hright
      rw [hgrouped hand, hstarts]
      exact Nat.le_refl _

theorem leastGroupsLeft_of_not_connective (h : e.isConnective = false) :
    e.leastGroupsLeft false = 0 := by
  rw [leastGroupsLeft, groups_of_not_connective h, groupedLeft, h]
  rfl

end Expr

/-- One more link adds the groups that a text has at least for its condition. -/
theorem Chain.leastGroups_fold_cons_le {link : Link} {links : List Link} {more : Nat}
    (hsingle : link.grouped = false → link.condition.isConnective = false)
    (hlinks : ∀ (e : Expr) (starts : Bool),
      (fold ⟨e, links⟩).leastGroups starts ≤ e.leastGroupsLeft starts + more)
    (e : Expr) (starts : Bool) :
    (fold ⟨e, link :: links⟩).leastGroups starts ≤
      e.leastGroupsLeft starts + (link.condition.leastGroupsLeft link.grouped + more) := by
  cases htight : link.isTight with
  | true =>
      -- the condition is a predicate behind AND and goes on with the run
      obtain ⟨hand, hgroup⟩ := Bool.and_eq_true_iff.mp htight
      rw [Bool.not_eq_true'] at hgroup
      have hrest := hlinks (.connect link.connective e link.condition) starts
      rw [Expr.leastGroupsLeft_connect hand (hsingle hgroup)] at hrest
      rw [fold_tight e links htight]
      omega
  | false =>
      have hgrouped : link.connective.isAnd = true → link.grouped = true := by
        simpa [Link.isTight] using htight
      have hrest := hlinks link.condition link.grouped
      have hright := (fold ⟨link.condition, links⟩).groups_right_le hgrouped
      rw [fold_loose e links htight, Expr.leastGroups_connect]
      omega

/-! ## Groups of a text -/

namespace Syntax

mutual

/-- The groups of a condition, also those within groups, without the arguments of calls. -/
def Condition.groups : Condition → Nat
  | .chain first links => first.groups + links.groups

/-- The groups of the further operands. -/
def Links.groups : Links → Nat
  | .nil => 0
  | .cons _ operand links => operand.groups + links.groups

/-- The groups of an operand. -/
def Operand.groups : Operand → Nat
  | .test _ => 0
  | .call _ _ _ => 0
  | .group inner => inner.groups + 1

end

theorem Operand.groups_of_single {o : Operand} (h : o.isGroup = false) : o.groups = 0 := by
  cases o with
  | group inner => cases h
  | _ => rfl

end Syntax

namespace Written

variable {size : Nat} {text : String}

/-- A predicate needs no group. -/
theorem Operand.leastGroupsLeft_le_of_single {o : Syntax.Operand} {cs rest : List Char}
    (h : Operand size cs o rest) (hsingle : o.isGroup = false) :
    o.tree.leastGroupsLeft o.isGroup ≤ o.groups := by
  rw [hsingle, Expr.leastGroupsLeft_of_not_connective (h.isConnective_eq hsingle)]
  exact Nat.zero_le _

mutual

/-- The canonical text of a condition has no more groups than the text it was read from. -/
theorem Condition.groups_tree_le {c : Syntax.Condition} {cs rest : List Char} :
    Condition size cs c rest → c.tree.groups ≤ c.groups
  | @Condition.chain _ _ _ _ first links hfirst hlinks => by
      have hfold := hlinks.leastGroups_fold_le first.tree first.isGroup
      have hfirst := hfirst.leastGroupsLeft_le
      rw [Expr.leastGroups] at hfold
      rw [Syntax.Condition.tree, Syntax.Condition.groups]
      omega

/-- The links of a chain have the groups that canonical text adds for them. -/
theorem Links.leastGroups_fold_le {links : Syntax.Links} {cs rest : List Char} :
    Links size cs links rest → ∀ (e : Expr) (starts : Bool),
      (Chain.fold ⟨e, links.toList⟩).leastGroups starts ≤ e.leastGroupsLeft starts + links.groups
  | .nil _, e, starts => e.leastGroups_le_left starts
  | @Links.cons _ _ _ _ _ _ _ keyword negated operand links _ _ hoperand hlinks, e, starts => by
      have hstep : (Chain.fold ⟨e, (Syntax.Links.cons (Grammar.connectiveOf keyword negated)
          operand links).toList⟩).leastGroups starts ≤ e.leastGroupsLeft starts +
            (operand.tree.leastGroupsLeft operand.isGroup + links.groups) :=
        Chain.leastGroups_fold_cons_le hoperand.isConnective_eq hlinks.leastGroups_fold_le e starts
      have hoperand := hoperand.leastGroupsLeft_le
      rw [Syntax.Links.groups]
      omega

/-- An operand has the groups that canonical text has for it on the left of a link. -/
theorem Operand.leastGroupsLeft_le {o : Syntax.Operand} {cs rest : List Char} :
    Operand size cs o rest → o.tree.leastGroupsLeft o.isGroup ≤ o.groups
  | .group _ hinner _ => Nat.add_le_add hinner.groups_tree_le (Bool.toNat_le _)
  | h@(.truth _ _) => h.leastGroupsLeft_le_of_single rfl
  | h@(.test _ _ _ _ _) => h.leastGroupsLeft_le_of_single rfl
  | h@(.call _ _ _ _ _ _) => h.leastGroupsLeft_le_of_single rfl

end

/-! ## Parentheses of a text -/

theorem Operand.groups_add_count_le_of_single {o : Syntax.Operand} {cs rest : List Char}
    (h : Operand (Text.byteLength text.toList) cs o rest) (hsingle : o.isGroup = false) :
    o.groups + rest.count '(' ≤ cs.count '(' := by
  rw [Syntax.Operand.groups_of_single hsingle, Nat.zero_add]
  exact h.leaves.suffix.count_le '('

mutual

/-- Each group of a condition opens a parenthesis of its text. -/
theorem Condition.groups_add_count_le {c : Syntax.Condition} {cs rest : List Char} :
    Condition (Text.byteLength text.toList) cs c rest →
      c.groups + rest.count '(' ≤ cs.count '('
  | .chain hfirst hlinks => by
      have hfirst := hfirst.groups_add_count_le
      have hlinks := hlinks.groups_add_count_le
      rw [Syntax.Condition.groups]
      omega

theorem Links.groups_add_count_le {links : Syntax.Links} {cs rest : List Char} :
    Links (Text.byteLength text.toList) cs links rest →
      links.groups + rest.count '(' ≤ cs.count '('
  | .nil _ => Nat.le_of_eq (Nat.zero_add _)
  | .cons htake hnegation hoperand hlinks => by
      have hfront := (hnegation.suffix (htake.rest_suffix List.suffix_rfl)).count_le '('
      have hoperand := hoperand.groups_add_count_le
      have hlinks := hlinks.groups_add_count_le
      rw [Syntax.Links.groups]
      omega

theorem Operand.groups_add_count_le {o : Syntax.Operand} {cs rest : List Char} :
    Operand (Text.byteLength text.toList) cs o rest →
      o.groups + rest.count '(' ≤ cs.count '('
  | .group hopen hinner hclose => by
      have hopen := (Takes.suffix hopen List.suffix_rfl).count_le '('
      have hinner := hinner.groups_add_count_le
      have hclose := (Takes.rest_suffix hclose List.suffix_rfl).count_le '('
      rw [List.singleton_append, List.count_cons_self] at hopen
      rw [Syntax.Operand.groups]
      omega
  | h@(.truth _ _) => h.groups_add_count_le_of_single rfl
  | h@(.test _ _ _ _ _) => h.groups_add_count_le_of_single rfl
  | h@(.call _ _ _ _ _ _) => h.groups_add_count_le_of_single rfl

end

/-- The groups behind WHERE are no more than the parentheses that the text opens. -/
theorem Where.groups_le {c : Syntax.Condition} (h : Where text c) :
    c.groups ≤ text.toList.count '(' := by
  obtain ⟨hdeclarations, hsource, hgroup, hword, hcondition⟩ := h
  have hsuffix := hword.suffix (((lists_clauseItems lists_groupField).leaves hgroup).suffix.trans
    ((lists_source.leaves hsource).suffix.trans hdeclarations.suffix))
  have hcount := hsuffix.count_le '('
  have hgroups := hcondition.groups_add_count_le
  omega

end Written

/-- A text has at least the parentheses of the canonical text of its filter. -/
theorem Query.groups_filter_le {kind : QueryKind} {limits : Grammar.Limits} {text : String}
    {q : Query} {filter : Expr} (hparse : parse kind limits text = .ok q)
    (hfilter : q.filter = some filter) : filter.groups ≤ text.toList.count '(' := by
  obtain ⟨cost, hwritten⟩ := written_of_parse hparse
  obtain ⟨c, hwhere, rfl⟩ := hwritten.exists_where hfilter
  have hgroups := hwhere.groups_le
  obtain ⟨-, -, -, -, hcondition⟩ := hwhere
  exact Nat.le_trans hcondition.groups_tree_le hgroups

namespace Expr

/-! ## Comparisons with numbers -/

/-- A tree of connectives over comparisons of names without quotes with whole numbers. -/
inductive Numeric : Expr → Prop where
  | compare {path : Path} {comparison : Comparison} {number : Int} {span : Span} :
      path.quoted = false → Path.isBare path.text.toList = true →
      Numeric (.compare (.field path) comparison ⟨toString number, span, .long, false⟩)
  | connect {connective : Connective} {left right : Expr} :
      Numeric left → Numeric right → Numeric (.connect connective left right)

theorem count_inParens (wanted : Bool) (text : String) :
    (inParens wanted text).toList.count '(' = wanted.toNat + text.toList.count '(' := by
  cases wanted with
  | true =>
      rw [inParens, if_pos rfl, String.toList_append, String.toList_append]
      simp
      omega
  | false => simp [inParens]

end Expr

theorem Path.count_render_of_bare {path : Path} (hquoted : path.quoted = false)
    (hbare : isBare path.text.toList = true) : path.render.toList.count '(' = 0 := by
  rw [render_of_bare hquoted hbare]
  refine List.count_eq_zero.mpr fun hmem => ?_
  cases htext : path.text.toList with
  | nil => rw [htext] at hmem; cases hmem
  | cons c cs =>
      rw [htext] at hmem hbare
      simp only [isBare, Bool.and_eq_true, List.all_eq_true] at hbare
      obtain ⟨⟨hstart, hparts⟩, -⟩ := hbare
      rcases List.mem_cons.mp hmem with rfl | hmem
      · exact absurd hstart (by decide)
      · exact absurd (hparts _ hmem) (by decide)

theorem Value.count_long (number : Int) : (toString number).toList.count '(' = 0 := by
  have hdigits (n : Nat) : n.repr.toList.count '(' = 0 := by
    refine List.count_eq_zero.mpr fun hmem => ?_
    rw [Nat.toList_repr] at hmem
    exact absurd (Nat.isDigit_of_mem_toDigits (by decide) (by decide) hmem) (by decide)
  rw [Int.toString_eq_repr, Int.repr_eq_if]
  split
  · exact hdigits _
  · rw [String.toList_append, List.count_append, hdigits]
    rfl

namespace Expr

/-- The canonical text opens just the parentheses of its groups. -/
theorem Numeric.count_render {e : Expr} (h : e.Numeric) : e.render.toList.count '(' = e.groups := by
  induction h with
  | @compare path comparison number span hquoted hbare =>
      have hsubject : (renderSubject path).toList.count '(' = 0 := by
        rw [renderSubject]
        split
        · rfl
        · rw [String.toList_append, List.count_append, Path.count_render_of_bare hquoted hbare]
          rfl
      have hcomparison : (Grammar.Test.compare comparison).text.toList.count '(' = 0 := by
        cases comparison <;> rfl
      have hvalue : (Value.render ⟨toString number, span, .long, false⟩).toList.count '(' = 0 :=
        Value.count_long number
      rw [IsTest.compare.render_eq, List.count_append, List.count_append, List.count_cons, hsubject,
        hcomparison, hvalue]
      rfl
  | @connect connective left right _ _ hleft hright =>
      have hconnective : connective.text.toList.count '(' = 0 := by
        cases connective <;> rfl
      rw [render_connect, groups_connect, renderRight]
      simp only [List.count_append, List.count_cons, count_inParens, hleft, hright, hconnective,
        List.cons_append]
      simp
      omega

end Expr

namespace Query

open Grammar

variable {kind : QueryKind} {limits : Limits} {q : Query} {e : Expr}

/--
No pair of parentheses can be left out of the canonical text of connectives over
comparisons of names with whole numbers: without an opening parenthesis and any
closing one behind it, the text is not read as the same condition behind WHERE,
whatever the limits.
-/
theorem filter_ne_of_pair_left_out (he : e.Numeric) {front inner back : String}
    (hpair : e.render = front ++ "(" ++ inner ++ ")" ++ back)
    (hparse : parse kind limits ("FROM X WHERE " ++ front ++ inner ++ back) = .ok q) :
    (q.filter == some e) = false := by
  cases hfilter : q.filter with
  | none => rfl
  | some filter =>
      rw [Option.some_beq_some, Bool.eq_false_iff]
      intro hsame
      have hgroups : filter.groups = e.groups := by
        rw [← Expr.groups_erase filter, Expr.erases.beq_iff.mp hsame, Expr.groups_erase]
      have hleast := groups_filter_le hparse hfilter
      have hcount := he.count_render
      rw [hpair] at hcount
      simp only [String.toList_append, List.count_append] at hcount hleast
      have hprefix : "FROM X WHERE ".toList.count '(' = 0 := by decide
      have hopen : "(".toList.count '(' = 1 := by decide
      omega

/-- The disjunction in `a = 1 AND (b = 2 OR c = 3)` is not read without its parentheses. -/
theorem filter_ne_of_pair_left_out_or :
    ∃ q, parse .select {} "FROM X WHERE a = 1 AND b = 2 OR c = 3" = .ok q ∧
      (q.filter == some (.connect .and (.compare (.field (.plain "a")) .equal (.long 1))
        (.connect .or (.compare (.field (.plain "b")) .equal (.long 2))
          (.compare (.field (.plain "c")) .equal (.long 3))))) = false := by
  have hparsed : (parse .select {} "FROM X WHERE a = 1 AND b = 2 OR c = 3").toOption.isSome =
      true := by
    decide +kernel
  obtain ⟨q, hq⟩ := Option.isSome_iff_exists.mp hparsed
  have hparse := parse_of_toOption hq
  refine ⟨q, hparse, ?_⟩
  refine @filter_ne_of_pair_left_out .select {} q _
    (.connect (.compare rfl ?_) (.connect (.compare rfl ?_) (.compare rfl ?_)))
    "a = 1 AND " "b = 2 OR c = 3" "" ?_ hparse
  · decide
  · decide
  · decide
  · decide

end Query

end DocQuery
