import DocQuery.Proofs.Precedence

/-!
# How far NOT reaches

In a chain without groups NOT is read with the one predicate behind it, then
conjunctions are taken, then disjunctions.  The tree of the chain has the same
truth unless a link follows an OR NOT: the negation then covers all of the rest
of the chain.  Where that happens and all predicates differ, some assignment of
truth values tells the two apart.  The main statement is `Query.filter_negation`.
-/

namespace DocQuery

/-! ## Two readings of a chain -/

theorem Connective.eq_orNot_iff {connective : Connective} :
    connective = .orNot ↔ connective.isAnd = false ∧ connective.isNegated = true := by
  cases connective <;> decide

namespace Link

/-- The truth of the predicate behind the connective, with NOT where it is written. -/
def literal (v : Expr → Bool) (link : Link) : Bool :=
  if link.connective.isNegated then !v link.condition else v link.condition

/-- The truth of links behind a conjunction of known truth: NOT first, then AND, then OR. -/
def reading (v : Expr → Bool) (sofar : Bool) : List Link → Bool
  | [] => sofar
  | link :: links =>
      if link.connective.isAnd then reading v (sofar && link.literal v) links
      else sofar || reading v (link.literal v) links

/-- The truth of the tree of links behind something of known truth. -/
def holds (v : Expr → Bool) (sofar : Bool) (links : List Link) : Bool :=
  (Spine.ofLinks links).holds v sofar

/-- Nothing follows an OR NOT. -/
def endsWithNot : List Link → Bool
  | [] => true
  | link :: links => (link.connective != .orNot || links.isEmpty) && endsWithNot links

/-- The predicates of the links in the order of the text. -/
def predicates (links : List Link) : List Expr :=
  links.map Link.condition

/-- The condition is a predicate without parentheses. -/
structure IsBare (link : Link) : Prop where
  grouped : link.grouped = false
  predicate : link.condition.isConnective = false

variable {v w : Expr → Bool} {link : Link} {links : List Link}

/-! ## One link -/

theorem holds_of_isTight (v : Expr → Bool) (sofar : Bool) (links : List Link)
    (h : link.isTight = true) : holds v sofar (link :: links) =
      holds v (link.connective.truth sofar (link.condition.holds v)) links := by
  simp only [holds, Spine.ofLinks, h, Bool.true_and]
  cases hspine : Spine.ofLinks links with
  | nil => rfl
  | cons top spine => rfl

theorem holds_of_not_isTight (v : Expr → Bool) (sofar : Bool) (links : List Link)
    (h : link.isTight = false) : holds v sofar (link :: links) =
      link.connective.truth sofar (holds v (link.condition.holds v) links) := by
  simp only [holds, Spine.ofLinks, h, Bool.false_and, Bool.false_eq_true, if_false, Spine.holds,
    Spine.holds_plug]

/-- A conjunction takes one predicate, a disjunction all of the rest, which OR NOT negates. -/
theorem IsBare.holds_cons (h : link.IsBare) (v : Expr → Bool) (sofar : Bool)
    (links : List Link) : holds v sofar (link :: links) =
      if link.connective.isAnd then holds v (sofar && link.literal v) links
      else if link.connective.isNegated then sofar || !holds v (!link.literal v) links
      else sofar || holds v (link.literal v) links := by
  have htight : link.isTight = link.connective.isAnd := by
    rw [Link.isTight, h.grouped, Bool.not_false, Bool.and_true]
  have htruth := Expr.holds_of_not_connective (v := v) h.predicate
  cases hand : link.connective.isAnd with
  | true =>
      rw [holds_of_isTight v sofar links (htight.trans hand), htruth, literal, if_pos rfl]
      cases hconnective : link.connective <;> simp_all [Connective.isAnd, Connective.isNegated,
        Connective.truth]
  | false =>
      rw [holds_of_not_isTight v sofar links (htight.trans hand), htruth, literal]
      cases hconnective : link.connective <;> simp_all [Connective.isAnd, Connective.isNegated,
        Connective.truth]

/-! ## Where the two readings agree -/

/-- Links of which none follows an OR NOT are read alike in both ways. -/
theorem holds_eq_reading (hbare : ∀ link ∈ links, link.IsBare)
    (hends : endsWithNot links = true) (v : Expr → Bool) (sofar : Bool) :
    holds v sofar links = reading v sofar links := by
  induction links generalizing sofar with
  | nil => rfl
  | cons link links ih =>
      obtain ⟨hlink, hbare⟩ := List.forall_mem_cons.mp hbare
      rw [endsWithNot, Bool.and_eq_true, Bool.or_eq_true] at hends
      obtain ⟨hhere, hends⟩ := hends
      rw [hlink.holds_cons, reading]
      split
      · exact ih hbare hends _
      · next hor =>
          split
          · next hnot =>
              have hconnective : link.connective = .orNot :=
                Connective.eq_orNot_iff.mpr ⟨Bool.not_eq_true _ ▸ hor, hnot⟩
              obtain rfl : links = [] := by simpa [hconnective] using hhere
              rw [reading, holds, Spine.ofLinks, Spine.holds, Bool.not_not]
          · rw [ih hbare hends]

/-! ## Where they differ -/

/-- Both readings look at the predicates of the links alone. -/
theorem holds_congr (hbare : ∀ link ∈ links, link.IsBare)
    (hagree : ∀ e ∈ predicates links, v e = w e) (sofar : Bool) :
    holds v sofar links = holds w sofar links ∧ reading v sofar links = reading w sofar links := by
  induction links generalizing sofar with
  | nil => exact ⟨rfl, rfl⟩
  | cons link links ih =>
      obtain ⟨hlink, hbare⟩ := List.forall_mem_cons.mp hbare
      obtain ⟨hhead, hagree⟩ := List.forall_mem_cons.mp hagree
      have hliteral : link.literal v = link.literal w := by rw [literal, literal, hhead]
      have hholds := fun b => (ih hbare hagree b).1
      have hreading := fun b => (ih hbare hagree b).2
      constructor
      · simp only [hlink.holds_cons, hliteral, hholds]
      · simp only [reading, hliteral, hreading]

/-- The literal of a link may be given any truth without a change to the links behind it. -/
theorem exists_literal (hbare : ∀ link ∈ links, link.IsBare)
    (hapart : link.condition ∉ predicates links) (w : Expr → Bool) (b : Bool) :
    ∃ v, link.literal v = b ∧ ∀ sofar, holds v sofar links = holds w sofar links ∧
      reading v sofar links = reading w sofar links := by
  have hmem : link.condition ∈ [link.condition] := List.mem_singleton.mpr rfl
  refine ⟨Syntax.patch [link.condition] (fun _ => link.connective.isNegated ^^ b) w, ?_, ?_⟩
  · rw [literal, Syntax.patch_of_mem hmem]
    cases link.connective.isNegated <;> cases b <;> rfl
  · refine holds_congr hbare fun e he => Syntax.patch_of_not_mem fun hfirst => hapart ?_
    rwa [← List.mem_singleton.mp hfirst]

/-- Some assignment leaves the truth of what stands in front of the links as it is. -/
theorem exists_neutral (hbare : ∀ link ∈ links, link.IsBare)
    (hdistinct : (predicates links).Nodup) :
    ∃ v, ∀ sofar, holds v sofar links = sofar ∧ reading v sofar links = sofar := by
  induction links with
  | nil => exact ⟨fun _ => false, fun _ => ⟨rfl, rfl⟩⟩
  | cons link links ih =>
      obtain ⟨hlink, hbare⟩ := List.forall_mem_cons.mp hbare
      obtain ⟨hapart, hdistinct⟩ := List.nodup_cons.mp hdistinct
      obtain ⟨w, hneutral⟩ := ih hbare hdistinct
      -- a true literal behind AND, a false one behind OR
      obtain ⟨v, hliteral, hsame⟩ := exists_literal hbare hapart w link.connective.isAnd
      have hholds := fun b => (hsame b).1.trans (hneutral b).1
      have hreading := fun b => (hsame b).2.trans (hneutral b).2
      refine ⟨v, fun sofar => ?_⟩
      rw [hlink.holds_cons, reading]
      simp only [hholds, hreading, hliteral]
      cases link.connective.isAnd <;> simp

/-- What stands in front of a link may be made to matter no more. -/
theorem exists_indifferent (hbare : ∀ link ∈ links, link.IsBare)
    (hdistinct : (predicates links).Nodup) (hne : links ≠ []) :
    ∃ v c, ∀ sofar, holds v sofar links = c ∧ reading v sofar links = c := by
  cases links with
  | nil => exact absurd rfl hne
  | cons link links =>
      obtain ⟨hlink, hbare⟩ := List.forall_mem_cons.mp hbare
      obtain ⟨hapart, hdistinct⟩ := List.nodup_cons.mp hdistinct
      obtain ⟨w, hneutral⟩ := exists_neutral hbare hdistinct
      -- a false literal behind AND, a true one behind OR
      obtain ⟨v, hliteral, hsame⟩ := exists_literal hbare hapart w (!link.connective.isAnd)
      have hholds := fun b => (hsame b).1.trans (hneutral b).1
      have hreading := fun b => (hsame b).2.trans (hneutral b).2
      refine ⟨v, !link.connective.isAnd, fun sofar => ?_⟩
      rw [hlink.holds_cons, reading]
      simp only [hholds, hreading, hliteral]
      cases link.connective.isAnd <;> simp

/-- Where a link follows an OR NOT, the two readings differ behind something of the right truth. -/
theorem exists_holds_ne (hbare : ∀ link ∈ links, link.IsBare)
    (hdistinct : (predicates links).Nodup) (hends : endsWithNot links = false) :
    ∃ sofar v, holds v sofar links ≠ reading v sofar links := by
  induction links with
  | nil => cases hends
  | cons link links ih =>
      obtain ⟨hlink, hbare⟩ := List.forall_mem_cons.mp hbare
      obtain ⟨hapart, hdistinct⟩ := List.nodup_cons.mp hdistinct
      by_cases hconnective : link.connective = .orNot
      -- the tree negates the constant that the rest comes to, the reading does not
      · have hne : links ≠ [] := by
          rintro rfl
          simp [endsWithNot] at hends
        obtain ⟨v, c, hsame⟩ := exists_indifferent hbare hdistinct hne
        obtain ⟨hor, hnegated⟩ := Connective.eq_orNot_iff.mp hconnective
        have hholds := fun b => (hsame b).1
        have hreading := fun b => (hsame b).2
        refine ⟨false, v, ?_⟩
        rw [hlink.holds_cons, reading]
        simp only [hor, hnegated, hholds, hreading, Bool.false_eq_true, if_false, if_true,
          Bool.false_or]
        cases c <;> decide
      -- the first link lets the difference behind it through
      · have hlater : endsWithNot links = false := by
          simpa [endsWithNot, hconnective] using hends
        obtain ⟨b, w, hne⟩ := ih hbare hdistinct hlater
        obtain ⟨v, hliteral, hsame⟩ := exists_literal hbare hapart w (link.connective.isAnd || b)
        refine ⟨link.connective.isAnd && b, v, ?_⟩
        rw [hlink.holds_cons, reading, hliteral]
        cases hand : link.connective.isAnd with
        | true =>
            simp only [if_true, Bool.true_and, Bool.true_or, Bool.and_true, (hsame b).1,
              (hsame b).2]
            exact hne
        | false =>
            have hplain : link.connective.isNegated = false := by
              rw [Connective.eq_orNot_iff, hand] at hconnective
              simpa using hconnective
            simp only [hplain, Bool.false_eq_true, if_false, Bool.false_or, (hsame b).1,
              (hsame b).2]
            exact hne

end Link

/-! ## Chains -/

namespace Chain

/-- The truth of the chain: NOT first, then AND, then OR. -/
def reading (v : Expr → Bool) (chain : Chain) : Bool :=
  Link.reading v (v chain.first) chain.links

/-- The predicates of the chain in the order of the text. -/
def predicates (chain : Chain) : List Expr :=
  chain.first :: Link.predicates chain.links

/-- The chain joins predicates without parentheses. -/
structure IsFlat (chain : Chain) : Prop where
  first : chain.first.isConnective = false
  links : ∀ link ∈ chain.links, link.IsBare

variable {chain : Chain}

theorem IsFlat.holds_fold (h : chain.IsFlat) (v : Expr → Bool) :
    chain.fold.holds v = Link.holds v (v chain.first) chain.links := by
  obtain ⟨first, links⟩ := chain
  rw [Chain.fold_eq, Spine.holds_plug, Expr.holds_of_not_connective h.first]
  rfl

/-- The tree of a chain in which nothing follows an OR NOT has the truth of the reading. -/
theorem IsFlat.holds_eq_reading (h : chain.IsFlat) (hends : Link.endsWithNot chain.links = true)
    (v : Expr → Bool) : chain.fold.holds v = chain.reading v := by
  rw [h.holds_fold, Link.holds_eq_reading h.links hends]
  rfl

/-- Where something follows an OR NOT, the tree of different predicates has another truth. -/
theorem IsFlat.exists_holds_ne (h : chain.IsFlat)
    (hends : Link.endsWithNot chain.links = false) (hdistinct : chain.predicates.Nodup) :
    ∃ v, chain.fold.holds v ≠ chain.reading v := by
  obtain ⟨hapart, hdistinct⟩ := List.nodup_cons.mp hdistinct
  obtain ⟨b, w, hne⟩ := Link.exists_holds_ne h.links hdistinct hends
  have hmem : chain.first ∈ [chain.first] := List.mem_singleton.mpr rfl
  have hsame := Link.holds_congr (v := Syntax.patch [chain.first] (fun _ => b) w) (w := w) h.links
    (fun e he => Syntax.patch_of_not_mem fun hfirst => hapart (List.mem_singleton.mp hfirst ▸ he)) b
  refine ⟨Syntax.patch [chain.first] (fun _ => b) w, ?_⟩
  rw [h.holds_fold, reading, Syntax.patch_of_mem hmem, hsame.1, hsame.2]
  exact hne

/-- A disjunction with a negation goes into that negation. -/
example (a b c : Expr) :
    (Chain.mk a [⟨.orNot, b, false⟩, ⟨.or, c, false⟩]).fold =
      .connect .orNot a (.connect .or b c) := rfl

end Chain

/-! ## The WHERE clause -/

namespace Syntax.Condition

/-- The operands of the condition, each read. -/
def toChain : Condition → Chain
  | .chain first links => ⟨first.tree, links.toList⟩

/-- No operand of the condition is written in parentheses. -/
def hasNoGroup : Condition → Bool
  | .chain first links => !first.isGroup && links.toList.all fun link => !link.grouped

theorem fold_toChain (c : Condition) : c.toChain.fold = c.tree := by
  cases c
  rfl

end Syntax.Condition

namespace Written

variable {size : Nat}

theorem Operand.isConnective_eq {o : Syntax.Operand} {cs rest : List Char}
    (h : Operand size cs o rest) (hgroup : o.isGroup = false) : o.tree.isConnective = false := by
  cases h with
  | group _ _ _ => cases hgroup
  | truth _ _ => rfl
  | test _ _ _ _ htest => cases htest <;> rfl
  | call _ _ _ _ _ _ => rfl

theorem Links.isBare {links : Syntax.Links} {cs rest : List Char} :
    Links size cs links rest → (∀ link ∈ links.toList, link.grouped = false) →
      ∀ link ∈ links.toList, link.IsBare
  | .nil _, _ => fun _ hmem => by cases hmem
  | .cons _ _ hoperand hlinks, hbare => by
      obtain ⟨hhead, hbare⟩ := List.forall_mem_cons.mp hbare
      exact List.forall_mem_cons.mpr ⟨⟨hhead, hoperand.isConnective_eq hhead⟩, hlinks.isBare hbare⟩

/-- A condition without groups is a chain of predicates. -/
theorem Condition.isFlat {c : Syntax.Condition} {cs rest : List Char}
    (h : Condition size cs c rest) (hgroup : c.hasNoGroup = true) : c.toChain.IsFlat := by
  cases h with
  | chain hfirst hlinks =>
      simp only [Syntax.Condition.hasNoGroup, Bool.and_eq_true, Bool.not_eq_true',
        List.all_eq_true] at hgroup
      exact ⟨hfirst.isConnective_eq hgroup.1, hlinks.isBare hgroup.2⟩

end Written

/--
The filter of a parsed query is the tree of a condition that its text has behind
WHERE.  If that is a chain of predicates without parentheses and no link follows
an OR NOT, the tree has the truth of the reading in which NOT belongs to the one
predicate behind it, AND comes before OR, under every assignment.  If a link
follows an OR NOT, and no two predicates are the same expression, then the tree
and that reading differ under some assignment.
-/
theorem Query.filter_negation {kind : QueryKind} {limits : Grammar.Limits} {text : String}
    {q : Query} {filter : Expr} (hparse : parse kind limits text = .ok q)
    (hfilter : q.filter = some filter) :
    ∃ c, Written.Where text c ∧ c.tree = filter ∧ (c.hasNoGroup = true →
      (Link.endsWithNot c.toChain.links = true → ∀ v, filter.holds v = c.toChain.reading v) ∧
      (Link.endsWithNot c.toChain.links = false → c.toChain.predicates.Nodup →
        ∃ v, filter.holds v ≠ c.toChain.reading v)) := by
  obtain ⟨cost, hwritten⟩ := written_of_parse hparse
  obtain ⟨c, hwhere, rfl⟩ := hwritten.exists_where hfilter
  refine ⟨c, hwhere, rfl, fun hgroup => ?_⟩
  obtain ⟨-, -, -, -, hcondition⟩ := hwhere
  have hflat := hcondition.isFlat hgroup
  rw [← c.fold_toChain]
  exact ⟨fun hends => hflat.holds_eq_reading hends, fun hends => hflat.exists_holds_ne hends⟩

/-- The filter `A = 1 OR NOT B = 2 OR C = 3` is parsed, and so is such a tree. -/
theorem Query.filter_negation_or :
    ∃ q filter, parse .select {} "FROM X WHERE A = 1 OR NOT B = 2 OR C = 3" = .ok q ∧
      q.filter = some filter ∧
      ∃ c, Written.Where "FROM X WHERE A = 1 OR NOT B = 2 OR C = 3" c ∧ c.tree = filter := by
  have hparsed : ((parse .select {} "FROM X WHERE A = 1 OR NOT B = 2 OR C = 3").toOption.bind
      (·.filter)).isSome = true := by
    decide +kernel
  obtain ⟨filter, hfound⟩ := Option.isSome_iff_exists.mp hparsed
  obtain ⟨q, hq, hfilter⟩ := Option.bind_eq_some_iff.mp hfound
  have hparse := parse_of_toOption hq
  obtain ⟨c, hwhere, htree, -⟩ := filter_negation hparse hfilter
  exact ⟨q, filter, hparse, hfilter, c, hwhere, htree⟩

end DocQuery
