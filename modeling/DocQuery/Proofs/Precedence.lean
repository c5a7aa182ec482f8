import DocQuery.Proofs.Grammar.Sound.Clause
import DocQuery.Proofs.Spine

/-!
# How tightly connectives bind

The usual reading of a condition takes groups first, then conjunctions, then
disjunctions.  The tree of a condition has the same truth unless a chain joins a
group to its left by AND and goes on with OR behind it: the tree then takes the
whole rest of the chain into the conjunction.  Where that happens and all
predicates differ, some assignment of truth values tells the two apart.  The
main statement is `Query.filter_reading`.
-/

namespace DocQuery

open Lexical

/-! ## Truth of a tree -/

/-- The truth of two conditions joined by a connective. -/
def Connective.truth : Connective → Bool → Bool → Bool
  | .and, a, b => a && b
  | .andNot, a, b => a && !b
  | .or, a, b => a || b
  | .orNot, a, b => a || !b

/-- The truth of an expression under an assignment to its predicates. -/
def Expr.holds (v : Expr → Bool) : Expr → Bool
  | .binary (.connect connective) left right =>
      connective.truth (left.holds v) (right.holds v)
  | e => v e

/-- The truth of a spine that hangs from something of known truth. -/
def Spine.holds (v : Expr → Bool) (b : Bool) : Spine → Bool
  | [] => b
  | (connective, right) :: spine => holds v (connective.truth b (right.holds v)) spine

theorem Spine.holds_plug (v : Expr → Bool) (e : Expr) (spine : Spine) :
    (plug e spine).holds v = spine.holds v (e.holds v) := by
  induction spine generalizing e with
  | nil => rfl
  | cons top spine ih =>
      obtain ⟨connective, right⟩ := top
      rw [plug, ih]
      rfl

theorem Expr.holds_of_not_connective {v : Expr → Bool} {e : Expr}
    (h : e.isConnective = false) : e.holds v = v e := by
  unfold Expr.holds
  split
  · cases h
  · rfl

namespace Syntax

/-! ## The usual reading -/

mutual

/-- The truth of a condition: groups first, then AND, then OR. -/
def Condition.reading (v : Expr → Bool) : Condition → Bool
  | .chain first links => links.reading v (first.reading v)

/-- The truth of a chain behind a conjunction of known truth. -/
def Links.reading (v : Expr → Bool) (sofar : Bool) : Links → Bool
  | .nil => sofar
  | .cons connective operand links =>
      if connective.isAnd then links.reading v (sofar && operand.reading v)
      else sofar || links.reading v (operand.reading v)

/-- The truth of an operand. -/
def Operand.reading (v : Expr → Bool) : Operand → Bool
  | .test e => v e
  | .call name arguments trailing => v (.call name (arguments.trees ++ trailing.toList))
  | .group inner => inner.reading v

end

mutual

/-- Predicates are joined by AND and OR alone, within groups too. -/
def Condition.isPlain : Condition → Bool
  | .chain first links => first.isPlain && links.isPlain

/-- No link of the chain is negated, and its operands are plain. -/
def Links.isPlain : Links → Bool
  | .nil => true
  | .cons connective operand links =>
      (connective == .and || connective == .or) && (operand.isPlain && links.isPlain)

/-- The operand is a predicate or a plain group. -/
def Operand.isPlain : Operand → Bool
  | .test e => !e.isConnective
  | .call _ _ _ => true
  | .group inner => inner.isPlain

end

mutual

/-- The predicates of a condition in the order of the text. -/
def Condition.predicates : Condition → List Expr
  | .chain first links => first.predicates ++ links.predicates

/-- The predicates of the further operands. -/
def Links.predicates : Links → List Expr
  | .nil => []
  | .cons _ operand links => operand.predicates ++ links.predicates

/-- The predicates of an operand. -/
def Operand.predicates : Operand → List Expr
  | .test e => [e]
  | .call name arguments trailing => [.call name (arguments.trees ++ trailing.toList)]
  | .group inner => inner.predicates

end

/-- The chain has an OR. -/
def Links.hasOr : Links → Bool
  | .nil => false
  | .cons connective _ links => !connective.isAnd || links.hasOr

mutual

/-- No group behind AND is followed by OR in the same chain, at any depth. -/
def Condition.isRegular : Condition → Bool
  | .chain first links => first.isRegular && links.isRegular

/-- No group behind AND is followed by OR. -/
def Links.isRegular : Links → Bool
  | .nil => true
  | .cons connective operand links =>
      !(connective.isAnd && operand.isGroup && links.hasOr) &&
        (operand.isRegular && links.isRegular)

/-- No chain inside the operand has a group behind AND that OR follows. -/
def Operand.isRegular : Operand → Bool
  | .test _ => true
  | .call _ _ _ => true
  | .group inner => inner.isRegular

end

/-! ## The truth of a chain of links -/

/-- The truth of the tree of a chain behind something of known truth. -/
def Links.holds (v : Expr → Bool) (sofar : Bool) (links : Links) : Bool :=
  (Spine.ofLinks links.toList).holds v sofar

theorem Condition.holds_tree (v : Expr → Bool) (first : Operand) (links : Links) :
    (Condition.chain first links).tree.holds v = links.holds v (first.tree.holds v) := by
  rw [Condition.tree, Chain.fold_eq, Spine.holds_plug]
  rfl

theorem Links.holds_or (v : Expr → Bool) (sofar : Bool) (operand : Operand) (links : Links) :
    (Links.cons .or operand links).holds v sofar =
      (sofar || links.holds v (operand.tree.holds v)) := by
  simp only [Links.holds, Links.toList, Spine.ofLinks, Link.isTight, Connective.isAnd,
    Bool.false_and, Bool.false_eq_true, if_false, Spine.holds, Spine.holds_plug, Connective.truth]

/-- A group behind AND takes the rest of the chain into the conjunction. -/
theorem Links.holds_and_group (v : Expr → Bool) (sofar : Bool) {operand : Operand}
    (links : Links) (hgroup : operand.isGroup = true) :
    (Links.cons .and operand links).holds v sofar =
      (sofar && links.holds v (operand.tree.holds v)) := by
  simp only [Links.holds, Links.toList, Spine.ofLinks, Link.isTight, Connective.isAnd, hgroup,
    Bool.not_true, Bool.and_false, Bool.false_and, Bool.false_eq_true, if_false, Spine.holds,
    Spine.holds_plug, Connective.truth]

theorem Links.holds_and (v : Expr → Bool) (sofar : Bool) {operand : Operand}
    (links : Links) (hgroup : operand.isGroup = false) :
    (Links.cons .and operand links).holds v sofar =
      links.holds v (sofar && operand.tree.holds v) := by
  simp only [Links.holds, Links.toList, Spine.ofLinks, Link.isTight, Connective.isAnd, hgroup,
    Bool.not_false, Bool.and_self, Bool.true_and]
  cases hspine : Spine.ofLinks links.toList with
  | nil =>
      simp only [List.isEmpty_nil, Bool.not_true, Bool.false_eq_true, if_false, Spine.holds,
        Spine.plug, Connective.truth]
  | cons top spine =>
      simp only [List.isEmpty_cons, Bool.not_false, if_true, Spine.holds, Connective.truth]

/-! ## Regular conditions -/

theorem Links.reading_cons_and (v : Expr → Bool) (sofar : Bool) (operand : Operand)
    (links : Links) : (Links.cons .and operand links).reading v sofar =
      links.reading v (sofar && operand.reading v) := rfl

theorem Links.reading_cons_or (v : Expr → Bool) (sofar : Bool) (operand : Operand)
    (links : Links) : (Links.cons .or operand links).reading v sofar =
      (sofar || links.reading v (operand.reading v)) := rfl

/-- A conjunction without OR may be taken apart at its first operand. -/
theorem Links.reading_and (v : Expr → Bool) (a b : Bool) :
    (links : Links) → links.hasOr = false →
      links.reading v (a && b) = (a && links.reading v b)
  | .nil, _ => rfl
  | .cons connective operand links, hor => by
      simp only [Links.hasOr, Bool.or_eq_false_iff, Bool.not_eq_false'] at hor
      obtain ⟨hand, hor⟩ := hor
      rw [Links.reading, Links.reading, if_pos hand, if_pos hand, Bool.and_assoc]
      exact reading_and v a (b && operand.reading v) links hor

/-- The connective of a plain link is AND or OR. -/
theorem Links.plain_cons {connective : Connective} {operand : Operand} {links : Links}
    (h : (Links.cons connective operand links).isPlain = true) :
    (connective = .and ∨ connective = .or) ∧ operand.isPlain = true ∧ links.isPlain = true := by
  simp only [Links.isPlain, Bool.and_eq_true, Bool.or_eq_true, beq_iff_eq] at h
  exact ⟨h.1, h.2.1, h.2.2⟩

theorem Condition.plain_chain {first : Operand} {links : Links}
    (h : (Condition.chain first links).isPlain = true) :
    first.isPlain = true ∧ links.isPlain = true := by
  simpa only [Condition.isPlain, Bool.and_eq_true] using h

mutual

/-- The tree of a regular condition has the truth of the usual reading. -/
theorem Condition.holds_eq_reading (v : Expr → Bool) :
    (c : Condition) → c.isPlain = true → c.isRegular = true → c.tree.holds v = c.reading v
  | .chain first links, hplain, hregular => by
      obtain ⟨hfirst, hlinks⟩ := Condition.plain_chain hplain
      simp only [Condition.isRegular, Bool.and_eq_true] at hregular
      rw [Condition.holds_tree, first.holds_eq_reading v hfirst hregular.1,
        links.holds_eq_reading v hlinks hregular.2]
      rfl

/-- The tree of a regular chain has the truth of the usual reading. -/
theorem Links.holds_eq_reading (v : Expr → Bool) :
    (links : Links) → links.isPlain = true → links.isRegular = true →
      ∀ {sofar : Bool}, links.holds v sofar = links.reading v sofar
  | .nil, _, _, _ => rfl
  | .cons connective operand links, hplain, hregular, sofar => by
      obtain ⟨hconnective, hoperand, hlinks⟩ := Links.plain_cons hplain
      simp only [Links.isRegular, Bool.and_eq_true, Bool.not_eq_true'] at hregular
      obtain ⟨hhere, hinner, hrest⟩ := hregular
      have hsame := operand.holds_eq_reading v hoperand hinner
      have ih : ∀ sofar : Bool, links.holds v sofar = links.reading v sofar :=
        fun _ => links.holds_eq_reading v hlinks hrest
      rcases hconnective with rfl | rfl
      · rw [Links.reading_cons_and]
        cases hgroup : operand.isGroup with
        | false => rw [Links.holds_and v sofar links hgroup, ih, hsame]
        | true =>
            simp only [Connective.isAnd, hgroup, Bool.true_and] at hhere
            rw [Links.holds_and_group v sofar links hgroup, ih, hsame, Links.reading_and v sofar _ links hhere]
      · rw [Links.holds_or, ih, hsame, Links.reading_cons_or]

/-- The tree of a regular operand has the truth of the usual reading. -/
theorem Operand.holds_eq_reading (v : Expr → Bool) :
    (o : Operand) → o.isPlain = true → o.isRegular = true → o.tree.holds v = o.reading v
  | .test e, hplain, _ => by
      simp only [Operand.isPlain, Bool.not_eq_true'] at hplain
      exact Expr.holds_of_not_connective hplain
  | .call _ _ _, _, _ => rfl
  | .group inner, hplain, hregular => inner.holds_eq_reading v hplain hregular

end

/-! ## Assignments that agree, and constant ones -/

mutual

theorem Condition.holds_congr {v w : Expr → Bool} :
    (c : Condition) → c.isPlain = true → (∀ e ∈ c.predicates, v e = w e) →
      c.tree.holds v = c.tree.holds w ∧ c.reading v = c.reading w
  | .chain first links, hplain, hagree => by
      obtain ⟨hfirst, hlinks⟩ := Condition.plain_chain hplain
      have hhead := first.holds_congr hfirst
        (fun e he => hagree e (List.mem_append_left _ he))
      have htail := links.holds_congr hlinks
        (fun e he => hagree e (List.mem_append_right _ he))
      rw [Condition.holds_tree, Condition.holds_tree, hhead.1, (htail _).1, Condition.reading, Condition.reading,
        hhead.2, (htail _).2]
      exact ⟨rfl, rfl⟩

theorem Links.holds_congr {v w : Expr → Bool} :
    (links : Links) → links.isPlain = true → (∀ e ∈ links.predicates, v e = w e) →
      ∀ sofar, links.holds v sofar = links.holds w sofar ∧
        links.reading v sofar = links.reading w sofar
  | .nil, _, _, _ => ⟨rfl, rfl⟩
  | .cons connective operand links, hplain, hagree, sofar => by
      obtain ⟨hconnective, hoperand, hlinks⟩ := Links.plain_cons hplain
      have hhead := operand.holds_congr hoperand
        (fun e he => hagree e (List.mem_append_left _ he))
      have htail := links.holds_congr hlinks
        (fun e he => hagree e (List.mem_append_right _ he))
      constructor
      · rcases hconnective with rfl | rfl
        · cases hgroup : operand.isGroup with
          | false => rw [Links.holds_and _ _ _ hgroup, Links.holds_and _ _ _ hgroup, hhead.1, (htail _).1]
          | true =>
              rw [Links.holds_and_group _ _ _ hgroup, Links.holds_and_group _ _ _ hgroup, hhead.1,
                (htail _).1]
        · rw [Links.holds_or, Links.holds_or, hhead.1, (htail _).1]
      · rw [Links.reading, Links.reading, hhead.2]
        split
        · exact (htail _).2
        · rw [(htail _).2]

theorem Operand.holds_congr {v w : Expr → Bool} :
    (o : Operand) → o.isPlain = true → (∀ e ∈ o.predicates, v e = w e) →
      o.tree.holds v = o.tree.holds w ∧ o.reading v = o.reading w
  | .test e, hplain, hagree => by
      simp only [Operand.isPlain, Bool.not_eq_true'] at hplain
      have hsame := hagree e (List.mem_singleton.mpr rfl)
      rw [Operand.tree, Expr.holds_of_not_connective hplain,
        Expr.holds_of_not_connective hplain, Operand.reading, Operand.reading]
      exact ⟨hsame, hsame⟩
  | .call _ _ _, _, hagree =>
      have hsame := hagree _ (List.mem_singleton.mpr rfl)
      ⟨hsame, hsame⟩
  | .group inner, hplain, hagree => inner.holds_congr hplain hagree

end

mutual

/-- Where all predicates have one truth value, so has the condition. -/
theorem Condition.holds_const {v : Expr → Bool} {b : Bool} :
    (c : Condition) → c.isPlain = true → (∀ e ∈ c.predicates, v e = b) →
      c.tree.holds v = b ∧ c.reading v = b
  | .chain first links, hplain, hconst => by
      obtain ⟨hfirst, hlinks⟩ := Condition.plain_chain hplain
      have hhead := first.holds_const hfirst
        (fun e he => hconst e (List.mem_append_left _ he))
      have htail := links.holds_const hlinks
        (fun e he => hconst e (List.mem_append_right _ he))
      rw [Condition.holds_tree, hhead.1, Condition.reading, hhead.2]
      exact htail

theorem Links.holds_const {v : Expr → Bool} {b : Bool} :
    (links : Links) → links.isPlain = true → (∀ e ∈ links.predicates, v e = b) →
      links.holds v b = b ∧ links.reading v b = b
  | .nil, _, _ => ⟨rfl, rfl⟩
  | .cons connective operand links, hplain, hconst => by
      obtain ⟨hconnective, hoperand, hlinks⟩ := Links.plain_cons hplain
      have hhead := operand.holds_const hoperand
        (fun e he => hconst e (List.mem_append_left _ he))
      have htail := links.holds_const hlinks
        (fun e he => hconst e (List.mem_append_right _ he))
      constructor
      · rcases hconnective with rfl | rfl
        · cases hgroup : operand.isGroup with
          | false => rw [Links.holds_and _ _ _ hgroup, hhead.1, Bool.and_self, htail.1]
          | true => rw [Links.holds_and_group _ _ _ hgroup, hhead.1, htail.1, Bool.and_self]
        · rw [Links.holds_or, hhead.1, htail.1, Bool.or_self]
      · rw [Links.reading, hhead.2, Bool.and_self, htail.2, Bool.or_self, ite_self]

theorem Operand.holds_const {v : Expr → Bool} {b : Bool} :
    (o : Operand) → o.isPlain = true → (∀ e ∈ o.predicates, v e = b) →
      o.tree.holds v = b ∧ o.reading v = b
  | .test e, hplain, hconst => by
      simp only [Operand.isPlain, Bool.not_eq_true'] at hplain
      have hb := hconst e (List.mem_singleton.mpr rfl)
      rw [Operand.tree, Expr.holds_of_not_connective hplain, Operand.reading]
      exact ⟨hb, hb⟩
  | .call _ _ _, _, hconst =>
      have hb := hconst _ (List.mem_singleton.mpr rfl)
      ⟨hb, hb⟩
  | .group inner, hplain, hconst => inner.holds_const hplain hconst

end

/-- Where all predicates behind an OR are true, so is the reading of the chain. -/
theorem Links.reading_of_hasOr {v : Expr → Bool} :
    (links : Links) → links.isPlain = true → links.hasOr = true →
      (∀ e ∈ links.predicates, v e = true) → ∀ sofar, links.reading v sofar = true
  | .nil, _, hor, _, _ => by cases hor
  | .cons connective operand links, hplain, hor, htrue, sofar => by
      obtain ⟨hconnective, hoperand, hlinks⟩ := Links.plain_cons hplain
      have hhead := (operand.holds_const hoperand
        (fun e he => htrue e (List.mem_append_left _ he))).2
      have hrest := fun e he => htrue e (List.mem_append_right operand.predicates he)
      rcases hconnective with rfl | rfl
      · rw [Links.reading_cons_and]
        exact reading_of_hasOr links hlinks hor hrest _
      · rw [Links.reading_cons_or, hhead, (links.holds_const hlinks hrest).2,
          Bool.or_true]

/-! ## Irregular conditions -/

section Irregular

variable {v w : Expr → Bool}

open Classical in
/-- An assignment for some predicates, and another one for the rest. -/
noncomputable def patch (predicates : List Expr) (v w : Expr → Bool) (e : Expr) : Bool :=
  if e ∈ predicates then v e else w e

theorem patch_of_mem {predicates : List Expr} {e : Expr} (h : e ∈ predicates) :
    patch predicates v w e = v e :=
  if_pos h

theorem patch_of_not_mem {predicates : List Expr} {e : Expr} (h : e ∉ predicates) :
    patch predicates v w e = w e :=
  if_neg h

/-- The operand keeps its truth under an assignment patched for its predicates. -/
theorem Operand.holds_patch {o : Operand} (hplain : o.isPlain = true) :
    o.tree.holds (patch o.predicates v w) = o.tree.holds v ∧
      o.reading (patch o.predicates v w) = o.reading v :=
  o.holds_congr hplain fun _ he => patch_of_mem he

/-- Links keep their truth under an assignment patched for other predicates. -/
theorem Links.holds_patch {links : Links} {predicates : List Expr}
    (hplain : links.isPlain = true)
    (hapart : ∀ a ∈ predicates, ∀ b ∈ links.predicates, a ≠ b) (sofar : Bool) :
    links.holds (patch predicates v w) sofar = links.holds w sofar ∧
      links.reading (patch predicates v w) sofar = links.reading w sofar :=
  links.holds_congr hplain (fun _ he => patch_of_not_mem fun hmem => hapart _ hmem _ he rfl) sofar

/-- Some assignment leaves the truth of what stands in front of the links as it is. -/
theorem Links.exists_neutral : (links : Links) → links.isPlain = true →
    links.predicates.Nodup →
    ∃ v, ∀ sofar, links.holds v sofar = sofar ∧ links.reading v sofar = sofar
  | .nil, _, _ => ⟨fun _ => false, fun _ => ⟨rfl, rfl⟩⟩
  | .cons connective operand links, hplain, hdistinct => by
      obtain ⟨hconnective, hoperand, hlinks⟩ := plain_cons hplain
      obtain ⟨-, hrest, hapart⟩ := List.nodup_append.mp hdistinct
      rcases hconnective with rfl | rfl
      -- behind AND the operand is true and the rest neutral
      · obtain ⟨w, hneutral⟩ := exists_neutral links hlinks hrest
        have htail := Links.holds_patch (v := fun _ => true) (w := w) hlinks hapart
        have hhead := operand.holds_const hoperand
          (v := patch operand.predicates (fun _ => true) w) (b := true)
          (fun _ he => patch_of_mem he)
        refine ⟨patch operand.predicates (fun _ => true) w, fun sofar => ⟨?_, ?_⟩⟩
        · cases hgroup : operand.isGroup with
          | false =>
              rw [holds_and _ _ _ hgroup, hhead.1, Bool.and_true, (htail _).1, (hneutral _).1]
          | true =>
              rw [holds_and_group _ _ _ hgroup, hhead.1, (htail _).1, (hneutral _).1,
                Bool.and_true]
        · rw [reading_cons_and, hhead.2, Bool.and_true, (htail _).2, (hneutral _).2]
      -- behind OR all of the rest is false
      · have hhead := operand.holds_const hoperand (v := fun _ => false) (fun _ _ => rfl)
        have htail := links.holds_const hlinks (v := fun _ => false) (fun _ _ => rfl)
        refine ⟨fun _ => false, fun sofar => ⟨?_, ?_⟩⟩
        · rw [holds_or, hhead.1, htail.1, Bool.or_false]
        · rw [reading_cons_or, hhead.2, htail.2, Bool.or_false]

mutual

/-- The tree of an irregular condition of different predicates is read in another way. -/
theorem Condition.exists_holds_ne : (c : Condition) → c.isPlain = true →
    c.predicates.Nodup → c.isRegular = false → ∃ v, c.tree.holds v ≠ c.reading v
  | .chain first links, hplain, hdistinct, hirregular => by
      obtain ⟨hfirst, hlinks⟩ := Condition.plain_chain hplain
      obtain ⟨hhead, htail, hapart⟩ := List.nodup_append.mp hdistinct
      rw [Condition.isRegular, Bool.and_eq_false_iff] at hirregular
      rcases hirregular with hirregular | hirregular
      · obtain ⟨v, hne⟩ := first.exists_holds_ne hfirst hhead hirregular
        obtain ⟨w, hneutral⟩ := links.exists_neutral hlinks htail
        have hkept := Operand.holds_patch (v := v) (w := w) hfirst
        have hrest := Links.holds_patch (v := v) (w := w) hlinks hapart
        refine ⟨patch first.predicates v w, ?_⟩
        rw [Condition.holds_tree, Condition.reading, (hrest _).1, (hrest _).2, (hneutral _).1,
          (hneutral _).2, hkept.1, hkept.2]
        exact hne
      · obtain ⟨sofar, w, hne⟩ := links.exists_holds_ne hlinks htail hirregular
        have hkept := first.holds_const hfirst
          (v := patch first.predicates (fun _ => sofar) w) (fun _ he => patch_of_mem he)
        have hrest := Links.holds_patch (v := fun _ => sofar) (w := w) hlinks hapart
        refine ⟨patch first.predicates (fun _ => sofar) w, ?_⟩
        rw [Condition.holds_tree, Condition.reading, (hrest _).1, (hrest _).2, hkept.1, hkept.2]
        exact hne

/-- Irregular links are read in another way behind something of the right truth. -/
theorem Links.exists_holds_ne : (links : Links) → links.isPlain = true →
    links.predicates.Nodup → links.isRegular = false →
    ∃ sofar v, links.holds v sofar ≠ links.reading v sofar
  | .nil, _, _, hirregular => by cases hirregular
  | .cons connective operand links, hplain, hdistinct, hirregular => by
      obtain ⟨hconnective, hoperand, hlinks⟩ := Links.plain_cons hplain
      obtain ⟨hhead, htail, hapart⟩ := List.nodup_append.mp hdistinct
      -- what stands in front lets the truth of the rest through
      have hthrough : ∀ {v : Expr → Bool},
          links.holds v (operand.tree.holds v) ≠ links.reading v (operand.reading v) →
          ∃ sofar v, (Links.cons connective operand links).holds v sofar ≠
            (Links.cons connective operand links).reading v sofar := by
        intro v hne
        rcases hconnective with rfl | rfl
        · refine ⟨true, v, ?_⟩
          rw [Links.reading_cons_and, Bool.true_and]
          cases hgroup : operand.isGroup with
          | false => rwa [Links.holds_and _ _ _ hgroup, Bool.true_and]
          | true => rwa [Links.holds_and_group _ _ _ hgroup, Bool.true_and]
        · refine ⟨false, v, ?_⟩
          rwa [Links.holds_or, Links.reading_cons_or, Bool.false_or, Bool.false_or]
      simp only [Links.isRegular, Bool.and_eq_false_iff, Bool.not_eq_false'] at hirregular
      rcases hirregular with hhere | hinner | hrest
      -- the group is behind AND, and an OR follows
      · simp only [Bool.and_eq_true] at hhere
        obtain ⟨⟨hand, hgroup⟩, hor⟩ := hhere
        obtain rfl : connective = .and := by
          rcases hconnective with rfl | rfl
          · rfl
          · cases hand
        refine ⟨false, fun _ => true, ?_⟩
        rw [Links.holds_and_group _ _ _ hgroup, Links.reading_cons_and,
          links.reading_of_hasOr hlinks hor (fun _ _ => rfl)]
        exact Bool.false_ne_true
      · obtain ⟨v, hne⟩ := operand.exists_holds_ne hoperand hhead hinner
        obtain ⟨w, hneutral⟩ := links.exists_neutral hlinks htail
        have hkept := Operand.holds_patch (v := v) (w := w) hoperand
        have hsame := Links.holds_patch (v := v) (w := w) hlinks hapart
        apply hthrough (v := patch operand.predicates v w)
        rw [(hsame _).1, (hsame _).2, (hneutral _).1, (hneutral _).2, hkept.1, hkept.2]
        exact hne
      · obtain ⟨sofar, w, hne⟩ := links.exists_holds_ne hlinks htail hrest
        have hkept := operand.holds_const hoperand
          (v := patch operand.predicates (fun _ => sofar) w) (fun _ he => patch_of_mem he)
        have hsame := Links.holds_patch (v := fun _ => sofar) (w := w) hlinks hapart
        apply hthrough (v := patch operand.predicates (fun _ => sofar) w)
        rw [(hsame _).1, (hsame _).2, hkept.1, hkept.2]
        exact hne

/-- An irregular group of different predicates is read in another way. -/
theorem Operand.exists_holds_ne : (o : Operand) → o.isPlain = true →
    o.predicates.Nodup → o.isRegular = false → ∃ v, o.tree.holds v ≠ o.reading v
  | .test _, _, _, hirregular => by cases hirregular
  | .call _ _ _, _, _, hirregular => by cases hirregular
  | .group inner, hplain, hdistinct, hirregular =>
      inner.exists_holds_ne hplain hdistinct hirregular

end

end Irregular

/-- A disjunction behind a group that AND joins goes into the conjunction. -/
example (a b c : Expr) :
    (Condition.chain (.test a)
      (.cons .and (.group (.chain (.test b) .nil)) (.cons .or (.test c) .nil))).tree =
      .connect .and a (.connect .or b c) := rfl

end Syntax

/-! ## The WHERE clause -/

/-- The text has the condition behind WHERE. -/
inductive Written.Where (text : String) (c : Syntax.Condition) : Prop where
  | mk {r r₁ r₂ r₃ rest : List Char} {functions : Functions} {source : DocQuery.Source}
      {groupBy : Option (List DocQuery.Path)} {c₁ c₂ c₃ : Complexity} :
      Declarations (Text.byteLength text.toList) .empty text.toList functions c₁ r →
      Source (Text.byteLength text.toList) r source c₂ r₁ →
      Clause .groupBy (Items (GroupField (Text.byteLength text.toList))) r₁ groupBy c₃ r₂ →
      Word .where_ r₂ r₃ → Condition (Text.byteLength text.toList) r₃ c rest → Where text c

theorem Written.Ending.filter_eq {size : Nat} {kind : QueryKind} {query found : DocQuery.Query}
    {cs rest : List Char} {cost : Complexity} (h : Ending size kind query cs found cost rest) :
    found.filter = query.filter := by
  cases h with
  | select _ _ => rfl
  | update _ _ => rfl

theorem Written.Query.exists_where {kind : QueryKind} {text : String} {q : DocQuery.Query}
    {cost : Complexity} {filter : Expr} (h : Query kind text q cost)
    (hfilter : q.filter = some filter) : ∃ c, Where text c ∧ c.tree = filter := by
  cases h with
  | mk hdeclarations hbody hending _ =>
      cases hbody with
      | mk hsource hgroup hwhere _ _ =>
          have hkept := hending.filter_eq
          rw [hfilter] at hkept
          cases hwhere with
          | absent _ => cases hkept
          | present hword hpart =>
              cases hpart with
              | mk hcondition =>
                  cases hkept
                  exact ⟨_, .mk hdeclarations hsource hgroup hword hcondition, rfl⟩

/--
The filter of a parsed query is the tree of a condition that its text has behind
WHERE.  If only AND and OR join the predicates there, the tree has the truth of
the usual reading under every assignment, as long as no group behind AND is
followed by OR in the same chain.  If one is, and no two predicates are the same
expression, then the tree and the usual reading differ under some assignment.
-/
theorem Query.filter_reading {kind : QueryKind} {limits : Grammar.Limits} {text : String}
    {q : Query} {filter : Expr} (hparse : parse kind limits text = .ok q)
    (hfilter : q.filter = some filter) :
    ∃ c, Written.Where text c ∧ c.tree = filter ∧ (c.isPlain = true →
      (c.isRegular = true → ∀ v, filter.holds v = c.reading v) ∧
      (c.isRegular = false → c.predicates.Nodup → ∃ v, filter.holds v ≠ c.reading v)) := by
  obtain ⟨cost, hwritten⟩ := written_of_parse hparse
  obtain ⟨c, hwhere, rfl⟩ := hwritten.exists_where hfilter
  refine ⟨c, hwhere, rfl, fun hplain => ⟨?_, ?_⟩⟩
  · intro hregular v
    exact c.holds_eq_reading v hplain hregular
  · intro hirregular hdistinct
    exact c.exists_holds_ne hplain hdistinct hirregular

/-- The filter `A = 1 AND (B = 2) OR C = 3` is parsed, and so is such a tree. -/
theorem Query.filter_reading_group :
    ∃ q filter, parse .select {} "FROM X WHERE A = 1 AND (B = 2) OR C = 3" = .ok q ∧
      q.filter = some filter ∧
      ∃ c, Written.Where "FROM X WHERE A = 1 AND (B = 2) OR C = 3" c ∧ c.tree = filter := by
  have hparsed : ((parse .select {} "FROM X WHERE A = 1 AND (B = 2) OR C = 3").toOption.bind
      (·.filter)).isSome = true := by
    decide +kernel
  obtain ⟨filter, hfound⟩ := Option.isSome_iff_exists.mp hparsed
  obtain ⟨q, hq, hfilter⟩ := Option.bind_eq_some_iff.mp hfound
  have hparse := parse_of_toOption hq
  obtain ⟨c, hwhere, htree, -⟩ := filter_reading hparse hfilter
  exact ⟨q, filter, hparse, hfilter, c, hwhere, htree⟩

end DocQuery
