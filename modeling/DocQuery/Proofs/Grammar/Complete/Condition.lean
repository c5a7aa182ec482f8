import DocQuery.Proofs.Grammar.Complete.Terminal
import DocQuery.Proofs.Grammar.Runs

/-!
# Written conditions are accepted

Where a condition of the grammar is next, its reader gives the tree of the
condition under all limits that the cost of the condition fits.  The readers
call each other, so all of them are shown together, by induction on their fuel:
four steps for each character and a few for the way down to a token.
-/

namespace DocQuery.Grammar

open Lexical Written

variable {size : Nat} {cs rest : List Char} {s s' : State}

/-! ## Tests -/

theorem bounds_complete {subject : Path} {e : Expr} (hs : Stands size cs s)
    (h : Written.Test size subject .between cs e rest) :
    ∃ s', bounds subject s = .ok e s' ∧ Moves s rest 0 s' := by
  cases h with
  | between hlow hand hhigh hkind =>
      obtain ⟨token, hand⟩ := hand
      obtain ⟨s₁, hfirst, hmoves⟩ := requireValue_complete .lowBound hs hlow
      have hr := hmoves.stands hs
      obtain ⟨s₂, hword, htook⟩ := expectKeyword_takes .boundsAnd hr hand
      obtain ⟨s₃, hlast, hmoves₁⟩ := requireValue_complete .highBound (htook.stands hr) hhigh
      refine ⟨s₃, ?_, (hmoves.trans htook.toMoves).trans hmoves₁⟩
      rw [bounds, bind_of_ok _ hfirst, bind_of_ok _ hword, bind_of_ok _ hlast, if_pos hkind]
      rfl

theorem moreValues_complete {kind : ValueKind} {values : List Value}
    (h : MoreValues size kind cs values rest) (fuel : Nat) (hfuel : cs.length ≤ fuel)
    (hs : Stands size cs s) :
    ∃ s', moreValues kind fuel s = .ok values s' ∧ Moves s rest 0 s' := by
  induction h generalizing fuel s with
  | last hclose =>
      have hless := hclose.length_lt
      obtain ⟨fuel, rfl⟩ : ∃ n, fuel = n + 1 := ⟨fuel - 1, by omega⟩
      obtain ⟨s₁, hmark, htook⟩ := char_of_mark hs hclose
      refine ⟨s₁, ?_, htook.toMoves⟩
      rw [moreValues, bind_of_ok _ hmark]
      rfl
  | more hno hcomma hvalue hkind _ ih =>
      have h₁ := hcomma.length_lt
      have h₂ := hvalue.length_lt
      obtain ⟨fuel, rfl⟩ : ∃ n, fuel = n + 1 := ⟨fuel - 1, by omega⟩
      obtain ⟨s₁, hmark, htook⟩ := expectChar_of_mark .listComma hs hcomma
      have hr := htook.stands hs
      obtain ⟨s₂, hnext, hmoves⟩ := requireValue_complete .listValue hr hvalue
      obtain ⟨s₃, hothers, hmoves₁⟩ := ih fuel (by omega) (hmoves.stands hr)
      refine ⟨s₃, ?_, (htook.toMoves.trans hmoves).trans hmoves₁⟩
      rw [moreValues, bind_of_ok _ (char_of_noMark hs hno)]
      simp only [Bool.false_eq_true, if_false, bind_of_ok _ hmark, bind_of_ok _ hnext,
        if_pos hkind, bind_of_ok _ hothers]
      rfl

theorem valueList_complete {values : List Value} {fuel : Nat} (hfuel : cs.length ≤ fuel)
    (hs : Stands size cs s) (h : ValueList size cs values rest) :
    ∃ s', valueList fuel s = .ok values s' ∧ Moves s rest 0 s' := by
  cases h with
  | empty hopen hclose =>
      obtain ⟨s₁, hmark, htook⟩ := expectChar_of_mark .listStart hs hopen
      obtain ⟨s₂, hend, htook₁⟩ := char_of_mark (htook.stands hs) hclose
      refine ⟨s₂, ?_, htook.toMoves.trans htook₁.toMoves⟩
      rw [valueList, bind_of_ok _ hmark, bind_of_ok _ hend]
      rfl
  | values hopen hno hvalue hmore =>
      have h₁ := hopen.length_lt
      have h₂ := hvalue.length_lt
      obtain ⟨s₁, hmark, htook⟩ := expectChar_of_mark .listStart hs hopen
      have hr := htook.stands hs
      obtain ⟨s₂, hfirst, hmoves⟩ := requireValue_complete .listValue hr hvalue
      obtain ⟨s₃, hothers, hmoves₁⟩ :=
        moreValues_complete hmore fuel (by omega) (hmoves.stands hr)
      refine ⟨s₃, ?_, (htook.toMoves.trans hmoves).trans hmoves₁⟩
      rw [valueList, bind_of_ok _ hmark, bind_of_ok _ (char_of_noMark hr hno)]
      simp only [Bool.false_eq_true, if_false, bind_of_ok _ hfirst, bind_of_ok _ hothers]
      rfl

theorem test_complete {subject : Path} {found : Test} {e : Expr} (fuel : Nat)
    (hfuel : cs.length ≤ fuel) (hs : Stands size cs s)
    (h : Written.Test size subject found cs e rest) :
    ∃ s', test subject fuel found s = .ok e s' ∧ Moves s rest 0 s' := by
  cases h with
  | @compare _ _ comparison _ hvalue =>
      obtain ⟨s₁, hright, hmoves⟩ := requireValue_complete (.comparedValue comparison) hs hvalue
      refine ⟨s₁, ?_, hmoves⟩
      rw [test, bind_of_ok _ hright]
      rfl
  | between hlow hand hhigh hkind => exact bounds_complete hs (.between hlow hand hhigh hkind)
  | within hvalues =>
      obtain ⟨s₁, hlist, hmoves⟩ := valueList_complete hfuel hs hvalues
      refine ⟨s₁, ?_, hmoves⟩
      rw [test, bind_of_ok _ hlist]
      rfl

theorem trailingTest_complete {trailing : Option Expr} (fuel : Nat) (hfuel : cs.length ≤ fuel)
    (hs : Stands size cs s) (h : Trailing size cs trailing rest) :
    ∃ s', trailingTest fuel s = .ok trailing s' ∧ Moves s rest 0 s' := by
  cases h with
  | absent hno =>
      refine ⟨s, ?_, Moves.refl hs⟩
      rw [trailingTest, bind_of_ok _ (position_eq s), bind_of_ok _ (firstOf_passes hs hno)]
      rfl
  | present htake htest =>
      have h₁ := htake.length_lt (Rule.sized_firstOf _)
      obtain ⟨s₁, hoperator, htook⟩ := firstOf_takes hs htake
      obtain ⟨s₂, hrest, hmoves⟩ :=
        test_complete fuel (by omega) (htook.stands hs) htest
      refine ⟨s₂, ?_, htook.toMoves.trans hmoves⟩
      rw [trailingTest, bind_of_ok _ (position_eq s), hs.offset, bind_of_ok _ hoperator]
      simp only [bind_of_ok _ hrest]
      rfl

/-! ## Conditions -/

/--
With so much fuel, the readers of conditions run to the end of what is written,
under all limits at once.
-/
structure Complete (fuel : Nat) : Prop where
  condition : ∀ {size : Nat} {cs rest : List Char} {s : State} {c : Syntax.Condition},
    4 * cs.length + 4 ≤ fuel → Stands size cs s → Condition size cs c rest →
    ∃ s', Runs (condition · fuel) s (some c.tree) s' c.cost ∧ Moves s rest c.cost.connectives s'
  links : ∀ {size : Nat} {cs rest : List Char} {s : State} {ls : Syntax.Links},
    4 * cs.length + 1 ≤ fuel → Stands size cs s → Links size cs ls rest →
    ∃ s', Runs (links · fuel) s ls.toList s' ls.cost ∧ Moves s rest ls.cost.connectives s'
  operand : ∀ {size : Nat} {cs rest : List Char} {s : State} {o : Syntax.Operand},
    4 * cs.length + 3 ≤ fuel → Stands size cs s → Operand size cs o rest →
    ∃ s', Runs (operand · fuel) s (some o.tree) s' o.cost ∧ Moves s rest o.cost.connectives s'
  predicate : ∀ {size : Nat} {cs rest : List Char} {s : State} {o : Syntax.Operand},
    4 * cs.length + 2 ≤ fuel → Stands size cs s → Operand size cs o rest → NoMark '(' cs →
    ∃ s', Runs (predicate · fuel) s (some o.tree) s' o.cost ∧ Moves s rest o.cost.connectives s'
  /-- The reader comes out of the call. -/
  arguments : ∀ {size : Nat} {cs rest : List Char} {s : State} {first : Bool}
    {as : Syntax.Arguments} {depth : Nat}, 4 * cs.length + 6 ≤ fuel → Stands size cs s →
    s.depth = depth + 1 → Arguments size first cs as rest →
    ∃ s', Runs (arguments · first fuel) s as.trees s' as.cost ∧ Onward s rest s' ∧
      s'.depth = depth ∧ s'.connectives = s.connectives + as.cost.connectives
  argument : ∀ {size : Nat} {cs rest : List Char} {s : State} {a : Syntax.Argument},
    4 * cs.length + 5 ≤ fuel → Stands size cs s → Argument size cs a rest →
    ∃ s', Runs (argument · fuel) s a.tree s' a.cost ∧ Moves s rest a.cost.connectives s'

namespace Complete

variable {fuel : Nat}

theorem condition_succ (ih : Complete fuel) {c : Syntax.Condition}
    (hfuel : 4 * cs.length + 4 ≤ fuel + 1) (hs : Stands size cs s)
    (h : Condition size cs c rest) :
    ∃ s', Runs (Grammar.condition · (fuel + 1)) s (some c.tree) s' c.cost ∧
      Moves s rest c.cost.connectives s' := by
  cases h with
  | chain hfirst hlinks =>
      have hless := hfirst.length_lt
      obtain ⟨s₁, hrun, hmoves⟩ := ih.operand (by omega) hs hfirst
      obtain ⟨s₂, hrun₁, hmoves₁⟩ := ih.links (by omega) (hmoves.stands hs) hlinks
      refine ⟨s₂, ?_, hmoves.trans hmoves₁⟩
      simp only [Grammar.condition]
      exact hrun.bind hmoves (hrun₁.before fun _ => rfl)

theorem links_succ (ih : Complete fuel) {ls : Syntax.Links}
    (hfuel : 4 * cs.length + 1 ≤ fuel + 1) (hs : Stands size cs s) (h : Links size cs ls rest) :
    ∃ s', Runs (Grammar.links · (fuel + 1)) s ls.toList s' ls.cost ∧
      Moves s rest ls.cost.connectives s' := by
  cases h with
  | nil hno =>
      refine ⟨s, ?_, Moves.refl hs⟩
      simp only [Grammar.links]
      exact Runs.after (anyKeyword_passes hs hno) (Moves.refl hs) (.of_ok fun _ => rfl)
  | @cons _ _ r r₁ r₂ _ keyword negated o ls htake hnegation hoperand hlinks =>
      have h₁ := htake.length_lt (Rule.sized_firstOf _)
      have h₂ := hnegation.length_le
      have h₃ := hoperand.length_lt
      obtain ⟨s₁, hword, htook⟩ := anyKeyword_takes hs htake
      have hcounted : Moves s r 1 { s₁ with connectives := s₁.connectives + 1 } :=
        ⟨⟨htook.text, htook.ahead⟩, htook.depth, congrArg (· + 1) htook.connectives⟩
      have hr := hcounted.stands hs
      obtain ⟨s₂, hnot, hmoves⟩ : ∃ s₂,
          scan (Scanner.keyword .not) { s₁ with connectives := s₁.connectives + 1 } =
            .ok negated s₂ ∧
          Moves { s₁ with connectives := s₁.connectives + 1 } r₁ 0 s₂ := by
        cases hnegation with
        | absent hno => exact ⟨_, keyword_of_noWord hr hno, Moves.refl hr⟩
        | present hword =>
            obtain ⟨token, hword⟩ := hword
            obtain ⟨s₂, hnot, htook⟩ := keyword_takes hr hword
            exact ⟨s₂, hnot, htook.toMoves⟩
      have hr₁ := hmoves.stands hr
      obtain ⟨s₃, hrun, hmoves₁⟩ := ih.operand (by omega) hr₁ hoperand
      obtain ⟨s₄, hrun₁, hmoves₂⟩ := ih.links (by omega) (hmoves₁.stands hr₁) hlinks
      refine ⟨s₄, ?_, ?_⟩
      · simp only [Grammar.links]
        refine Runs.after hword htook.toMoves (Runs.link ?_)
        refine Runs.after hnot hmoves (Runs.after (peek_eq '(' hr₁) (Moves.refl hr₁) ?_)
        refine (hrun.require _).bind hmoves₁ (hrun₁.before fun limits => ?_)
        rw [Syntax.Links.toList, isGroup_eq_peek hoperand]
        rfl
      · have hall := (hcounted.trans (hmoves.next hmoves₁)).trans hmoves₂
        rwa [Nat.add_assoc] at hall

theorem operand_succ (ih : Complete fuel) {o : Syntax.Operand}
    (hfuel : 4 * cs.length + 3 ≤ fuel + 1) (hs : Stands size cs s) (h : Operand size cs o rest) :
    ∃ s', Runs (Grammar.operand · (fuel + 1)) s (some o.tree) s' o.cost ∧
      Moves s rest o.cost.connectives s' := by
  rcases mark_or_noMark '(' cs with ⟨r, hmark⟩ | hno
  · cases h with
    | group hopen hinner hclose =>
        have h₁ := hopen.length_lt
        obtain ⟨s₁, hopened, htook⟩ := char_of_mark hs hopen
        have hr : Stands size _ { s₁ with depth := s₁.depth + 1 } :=
          ⟨htook.ahead, (htook.stands hs).size_eq⟩
        obtain ⟨s₂, hrun, hmoves⟩ := ih.condition (by omega) hr hinner
        obtain ⟨s₃, hclosed, htook₁⟩ :=
          expectChar_of_mark .groupEnd (hmoves.stands hr) hclose
        have hdepth : s₃.depth = s₁.depth + 1 := htook₁.depth.trans hmoves.depth
        refine ⟨{ s₃ with depth := s₁.depth }, ?_, ⟨⟨?_, htook₁.ahead⟩, htook.depth, ?_⟩⟩
        · simp only [Grammar.operand]
          refine Runs.after hopened htook.toMoves (Runs.enter (hrun.before fun limits => ?_))
          simp only [bind_of_ok _ hclosed, bind_of_ok _ (leave_of_depth hdepth)]
          rfl
        · exact htook₁.text.trans (hmoves.text.trans htook.text)
        · have hcount := htook₁.connectives.trans hmoves.connectives
          rwa [htook.connectives] at hcount
    | truth hno _ => exact absurd hmark.split (noMark_split hno)
    | test hno _ _ _ _ => exact absurd hmark.split (noMark_split hno)
    | call hno _ _ _ _ _ => exact absurd hmark.split (noMark_split hno)
  · obtain ⟨s₁, hrun, hmoves⟩ := ih.predicate (by omega) hs h hno
    refine ⟨s₁, ?_, hmoves⟩
    simp only [Grammar.operand]
    exact Runs.after (char_of_noMark hs hno) (Moves.refl hs) hrun

theorem predicate_succ (ih : Complete fuel) {o : Syntax.Operand}
    (hfuel : 4 * cs.length + 2 ≤ fuel + 1) (hs : Stands size cs s) (h : Operand size cs o rest)
    (hno : NoMark '(' cs) :
    ∃ s', Runs (Grammar.predicate · (fuel + 1)) s (some o.tree) s' o.cost ∧
      Moves s rest o.cost.connectives s' := by
  cases h with
  | group hopen _ _ => exact absurd hopen.split (noMark_split hno)
  | truth _ hword =>
      obtain ⟨token, hword⟩ := hword
      obtain ⟨s₁, htrue, htook⟩ := keyword_takes hs hword
      refine ⟨s₁, ?_, htook.toMoves⟩
      simp only [Grammar.predicate]
      exact Runs.after htrue htook.toMoves (.of_ok fun _ => rfl)
  | test _ hnoTrue hpath htake htest =>
      have h₁ := hpath.length_lt
      have h₂ := htake.length_lt (Rule.sized_firstOf _)
      obtain ⟨s₁, hsubject, hmoves⟩ := path_complete fuel (by omega) hs hpath
      have hr := hmoves.stands hs
      obtain ⟨s₂, hoperator, htook⟩ := firstOf_takes hr htake
      obtain ⟨s₃, hrest, hmoves₁⟩ := test_complete fuel (by omega) (htook.stands hr) htest
      refine ⟨s₃, ?_, (hmoves.trans htook.toMoves).trans hmoves₁⟩
      simp only [Grammar.predicate]
      refine Runs.after (keyword_of_noWord hs hnoTrue) (Moves.refl hs) ?_
      refine Runs.after hsubject hmoves (Runs.after hoperator htook.toMoves (.of_ok fun limits => ?_))
      exact bind_of_ok _ hrest
  | @call _ r _ r₁ r₂ _ name as trailing _ hnoTrue hpath htake harguments htrailing =>
      have h₁ := hpath.length_lt
      have h₂ := htake.length_lt (Rule.sized_firstOf _)
      have h₃ := harguments.length_lt
      obtain ⟨s₁, hsubject, hmoves⟩ := path_complete fuel (by omega) hs hpath
      have hr := hmoves.stands hs
      obtain ⟨s₂, hoperator, htook⟩ := firstOf_takes hr htake
      have hr₁ := htook.stands hr
      have hinside : Stands size _ { s₂ with depth := s₂.depth + 1 } :=
        ⟨hr₁.ahead, hr₁.size_eq⟩
      obtain ⟨s₃, hrun, hon, hdepth, hconnectives⟩ :=
        ih.arguments (by omega) hinside rfl harguments
      have hthere := hmoves.trans htook.toMoves
      obtain ⟨s₄, htest, hmoves₁⟩ :=
        trailingTest_complete fuel (by omega) (hon.stands hinside) htrailing
      refine ⟨s₄, ?_, ⟨⟨?_, hmoves₁.ahead⟩, ?_, ?_⟩⟩
      · simp only [Grammar.predicate]
        refine Runs.after (keyword_of_noWord hs hnoTrue) (Moves.refl hs) ?_
        refine Runs.after hsubject hmoves (Runs.after hoperator htook.toMoves ?_)
        refine Runs.enter (hrun.before fun limits => ?_)
        rw [bind_of_ok _ htest]
        cases trailing with
        | none =>
            rw [Syntax.Operand.tree, Option.toList_none, List.append_nil]
            rfl
        | some last => rfl
      · exact hmoves₁.text.trans (hon.text.trans hthere.text)
      · exact hmoves₁.depth.trans (hdepth.trans hthere.depth)
      · rw [hmoves₁.connectives, hconnectives]
        exact congrArg (· + as.cost.connectives) hthere.connectives

theorem arguments_succ (ih : Complete fuel) {first : Bool} {as : Syntax.Arguments} {depth : Nat}
    (hfuel : 4 * cs.length + 6 ≤ fuel + 1) (hs : Stands size cs s) (hdepth : s.depth = depth + 1)
    (h : Arguments size first cs as rest) :
    ∃ s', Runs (Grammar.arguments · first (fuel + 1)) s as.trees s' as.cost ∧ Onward s rest s' ∧
      s'.depth = depth ∧ s'.connectives = s.connectives + as.cost.connectives := by
  cases h with
  | nil hclose =>
      obtain ⟨s₁, hclosed, htook⟩ := char_of_mark hs hclose
      refine ⟨{ s₁ with depth := depth }, ?_, ⟨htook.text, htook.ahead⟩, rfl, htook.connectives⟩
      simp only [Grammar.arguments]
      refine Runs.after hclosed htook.toMoves (.of_ok fun limits => ?_)
      exact bind_of_ok _ (leave_of_depth (htook.depth.trans hdepth))
  | cons hno hseparator hargument hothers =>
      have h₁ := hseparator.length_le
      have h₂ := hargument.length_lt
      cases hseparator with
      | first =>
          obtain ⟨s₁, hrun, hmoves⟩ := ih.argument (by omega) hs hargument
          obtain ⟨s₂, hrun₁, hon, hdepth₁, hconnectives⟩ :=
            ih.arguments (by omega) (hmoves.stands hs) (hmoves.depth.trans hdepth) hothers
          refine ⟨s₂, ?_, hmoves.toOnward.trans hon, hdepth₁, ?_⟩
          · simp only [Grammar.arguments]
            refine Runs.after (char_of_noMark hs hno) (Moves.refl hs) ?_
            exact hrun.bind hmoves (hrun₁.before fun _ => rfl)
          · rw [hconnectives, hmoves.connectives, Nat.add_assoc]
            rfl
      | comma hcomma =>
          obtain ⟨s₁, hmark, htook⟩ := expectChar_of_mark .argumentComma hs hcomma
          have hr := htook.stands hs
          obtain ⟨s₂, hrun, hmoves⟩ := ih.argument (by omega) hr hargument
          have hthere := htook.toMoves.next hmoves
          obtain ⟨s₃, hrun₁, hon, hdepth₁, hconnectives⟩ :=
            ih.arguments (by omega) (hmoves.stands hr) (hthere.depth.trans hdepth) hothers
          refine ⟨s₃, ?_, hthere.toOnward.trans hon, hdepth₁, ?_⟩
          · simp only [Grammar.arguments]
            refine Runs.after (char_of_noMark hs hno) (Moves.refl hs) ?_
            exact Runs.after hmark htook.toMoves (hrun.bind hmoves (hrun₁.before fun _ => rfl))
          · rw [hconnectives, hthere.connectives, Nat.add_assoc]
            rfl

theorem argument_succ (ih : Complete fuel) {a : Syntax.Argument}
    (hfuel : 4 * cs.length + 5 ≤ fuel + 1) (hs : Stands size cs s)
    (h : Argument size cs a rest) :
    ∃ s', Runs (Grammar.argument · (fuel + 1)) s a.tree s' a.cost ∧
      Moves s rest a.cost.connectives s' := by
  cases h with
  | value hvalue =>
      obtain ⟨s₁, hread, hmoves⟩ := value_complete hs hvalue
      refine ⟨s₁, ?_, hmoves⟩
      simp only [Grammar.argument]
      exact Runs.after hread hmoves (.of_ok fun _ => rfl)
  | field hnoValue hpath halone =>
      obtain ⟨s₁, hread, hmoves⟩ := path_complete fuel (by omega) hs hpath
      have hr := hmoves.stands hs
      refine ⟨s₁, ?_, hmoves⟩
      simp only [Grammar.argument]
      refine Runs.after (value_none hs hnoValue) (Moves.refl hs) ?_
      refine Runs.after (position_eq s) (Moves.refl hs) (Runs.after hread hmoves ?_)
      rcases halone with ⟨r, hcomma⟩ | ⟨hno, r, hclose⟩
      · exact Runs.after (peek_of_mark hr hcomma) (Moves.refl hr) (.of_ok fun _ => rfl)
      · refine Runs.after (peek_of_noMark hr hno) (Moves.refl hr) ?_
        exact Runs.after (peek_of_mark hr hclose) (Moves.refl hr) (.of_ok fun _ => rfl)
  | condition hnoValue hnot hinner =>
      have hlength := hnot.length_le
      cases hnot with
      | noPath hnone =>
          obtain ⟨s₁, hread, hmoves⟩ := path_none fuel (by omega) hs hnone
          obtain ⟨s₂, hrun, hmoves₁⟩ := ih.condition (by omega) (hmoves.stands hs) hinner
          refine ⟨s₂, ?_, hmoves.next hmoves₁⟩
          simp only [Grammar.argument]
          refine Runs.after (value_none hs hnoValue) (Moves.refl hs) ?_
          refine Runs.after (position_eq s) (Moves.refl hs) (Runs.after hread hmoves ?_)
          exact hrun.require .argument
      | goesOn hpath hnoComma hnoClose =>
          obtain ⟨s₁, hread, hmoves⟩ := path_complete fuel (by omega) hs hpath
          have hr := hmoves.stands hs
          obtain ⟨s₂, hreturn, hon, hdepth, hconnectives⟩ := returnTo_eq hs hmoves.toOnward
          have hback : Moves s cs 0 s₂ :=
            ⟨hon, hdepth.trans hmoves.depth, hconnectives.trans hmoves.connectives⟩
          obtain ⟨s₃, hrun, hmoves₁⟩ := ih.condition (by omega) (hback.stands hs) hinner
          refine ⟨s₃, ?_, hback.next hmoves₁⟩
          simp only [Grammar.argument]
          refine Runs.after (value_none hs hnoValue) (Moves.refl hs) ?_
          refine Runs.after (position_eq s) (Moves.refl hs) (Runs.after hread hmoves ?_)
          refine Runs.after (peek_of_noMark hr hnoComma) (Moves.refl hr) ?_
          refine Runs.after (peek_of_noMark hr hnoClose) (Moves.refl hr) ?_
          have hreturned : Moves s₁ cs 0 s₂ := ⟨⟨hon.text.trans hmoves.text.symm, hon.ahead⟩,
            hdepth, hconnectives⟩
          rw [hs.offset]
          exact Runs.after hreturn hreturned (hrun.require .argument)

end Complete

/-- The readers of conditions accept what is written, with whatever fuel that suffices. -/
theorem complete (fuel : Nat) : Complete fuel := by
  induction fuel with
  | zero =>
      constructor
      all_goals
        intros
        omega
  | succ fuel ih =>
      exact ⟨ih.condition_succ, ih.links_succ, ih.operand_succ, ih.predicate_succ,
        ih.arguments_succ, ih.argument_succ⟩

end DocQuery.Grammar
