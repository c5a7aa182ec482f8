import DocQuery.Proofs.Grammar.Sound.Terminal

/-!
# Accepted conditions are written

Where a reader of conditions gives an answer, the text begins with a condition
of the grammar, the answer is the tree of that condition, and the reader has
counted its connectives.  The readers call each other, so all of them are shown
together, by induction on their fuel.
-/

namespace DocQuery.Grammar

open Lexical Written

variable {size : Nat} {cs : List Char} {s s' : State}

/-! ## Tests -/

theorem bounds_sound {subject : Path} {e : Expr} (hs : Stands size cs s)
    (h : bounds subject s = .ok e s') :
    ∃ rest, Written.Test size subject .between cs e rest ∧ Moves s rest 0 s' := by
  obtain ⟨low, s₁, hlow, h⟩ := bind_eq_ok h
  obtain ⟨r, hlow, hmoves⟩ := requireValue_sound hs hlow
  have hr := hmoves.stands hs
  obtain ⟨u, s₂, hand, h⟩ := bind_eq_ok h
  obtain ⟨token, r₁, hword, htook⟩ := expectKeyword_eq_ok hr hand
  have hr₁ := htook.stands hr
  obtain ⟨high, s₃, hhigh, h⟩ := bind_eq_ok h
  obtain ⟨rest, hhigh, hmoves₁⟩ := requireValue_sound hr₁ hhigh
  split at h
  · next hkind =>
      obtain ⟨rfl, rfl⟩ := pure_eq_ok h
      exact ⟨rest, .between hlow ⟨token, hword⟩ hhigh hkind,
        (hmoves.trans htook.toMoves).trans hmoves₁⟩
  · exact (decline_ne_ok h).elim

theorem moreValues_sound {kind : ValueKind} {fuel : Nat} {values : List Value}
    (hs : Stands size cs s) (h : moreValues kind fuel s = .ok values s') :
    ∃ rest, MoreValues size kind cs values rest ∧ Moves s rest 0 s' := by
  induction fuel generalizing cs s s' values with
  | zero => exact (throw_ne_ok h).elim
  | succ fuel ih =>
      obtain ⟨closed, s₁, hclose, h⟩ := bind_eq_ok h
      rcases char_eq_ok hs hclose with ⟨rfl, hno, rfl⟩ | ⟨rest, rfl, hmark, htook⟩
      · obtain ⟨u, s₂, hcomma, h⟩ := bind_eq_ok h
        obtain ⟨r, hcomma, htook⟩ := expectChar_eq_ok hs hcomma
        have hr := htook.stands hs
        obtain ⟨value, s₃, hvalue, h⟩ := bind_eq_ok h
        obtain ⟨r₁, hvalue, hmoves⟩ := requireValue_sound hr hvalue
        split at h
        · next hkind =>
            obtain ⟨others, s₄, hothers, h⟩ := bind_eq_ok h
            obtain ⟨rfl, rfl⟩ := pure_eq_ok h
            obtain ⟨rest, hothers, hmoves₁⟩ := ih (hmoves.stands hr) hothers
            exact ⟨rest, .more hno hcomma hvalue hkind hothers,
              (htook.toMoves.trans hmoves).trans hmoves₁⟩
        · exact (decline_ne_ok h).elim
      · obtain ⟨rfl, rfl⟩ := pure_eq_ok h
        exact ⟨rest, .last hmark, htook.toMoves⟩

theorem valueList_sound {fuel : Nat} {values : List Value} (hs : Stands size cs s)
    (h : valueList fuel s = .ok values s') :
    ∃ rest, ValueList size cs values rest ∧ Moves s rest 0 s' := by
  obtain ⟨u, s₁, hopen, h⟩ := bind_eq_ok h
  obtain ⟨r, hopen, htook⟩ := expectChar_eq_ok hs hopen
  have hr := htook.stands hs
  obtain ⟨closed, s₂, hclose, h⟩ := bind_eq_ok h
  rcases char_eq_ok hr hclose with ⟨rfl, hno, rfl⟩ | ⟨rest, rfl, hmark, htook₁⟩
  · obtain ⟨value, s₃, hvalue, h⟩ := bind_eq_ok h
    obtain ⟨r₁, hvalue, hmoves⟩ := requireValue_sound hr hvalue
    obtain ⟨others, s₄, hothers, h⟩ := bind_eq_ok h
    obtain ⟨rfl, rfl⟩ := pure_eq_ok h
    obtain ⟨rest, hothers, hmoves₁⟩ := moreValues_sound (hmoves.stands hr) hothers
    exact ⟨rest, .values hopen hno hvalue hothers,
      (htook.toMoves.trans hmoves).trans hmoves₁⟩
  · obtain ⟨rfl, rfl⟩ := pure_eq_ok h
    exact ⟨rest, .empty hopen hmark, htook.toMoves.trans htook₁.toMoves⟩

theorem test_sound {subject : Path} {fuel : Nat} {found : Test} {e : Expr}
    (hs : Stands size cs s) (h : test subject fuel found s = .ok e s') :
    ∃ rest, Written.Test size subject found cs e rest ∧ Moves s rest 0 s' := by
  cases found with
  | compare comparison =>
      obtain ⟨value, s₁, hvalue, h⟩ := bind_eq_ok h
      obtain ⟨rfl, rfl⟩ := pure_eq_ok h
      obtain ⟨rest, hvalue, hmoves⟩ := requireValue_sound hs hvalue
      exact ⟨rest, .compare hvalue, hmoves⟩
  | between => exact bounds_sound hs h
  | within all =>
      obtain ⟨values, s₁, hvalues, h⟩ := bind_eq_ok h
      obtain ⟨rfl, rfl⟩ := pure_eq_ok h
      obtain ⟨rest, hvalues, hmoves⟩ := valueList_sound hs hvalues
      exact ⟨rest, .within hvalues, hmoves⟩

theorem trailingTest_sound {fuel : Nat} {trailing : Option Expr} (hs : Stands size cs s)
    (h : trailingTest fuel s = .ok trailing s') :
    ∃ rest, Trailing size cs trailing rest ∧ Moves s rest 0 s' := by
  obtain ⟨start, s₁, hstart, h⟩ := bind_eq_ok h
  cases hstart
  rw [hs.offset] at h
  obtain ⟨found, s₂, hfound, h⟩ := bind_eq_ok h
  rcases firstOf_eq_ok hs hfound with ⟨rfl, hno, rfl⟩ | ⟨operator, token, r, rfl, htake, htook⟩
  · obtain ⟨rfl, rfl⟩ := pure_eq_ok h
    exact ⟨cs, .absent hno, Moves.refl hs⟩
  · obtain ⟨e, s₃, htest, h⟩ := bind_eq_ok h
    obtain ⟨rfl, rfl⟩ := pure_eq_ok h
    obtain ⟨rest, htest, hmoves⟩ := test_sound (htook.stands hs) htest
    exact ⟨rest, .present htake htest, htook.toMoves.trans hmoves⟩

/-! ## Conditions -/

/-- The readers of conditions accept only what is written. -/
structure Sound (limits : Limits) (fuel : Nat) : Prop where
  condition : ∀ {size : Nat} {cs : List Char} {s s' : State} {e : Expr}, Stands size cs s →
    condition limits fuel s = .ok (some e) s' →
    ∃ c rest, Condition size cs c rest ∧ c.tree = e ∧ Moves s rest c.cost.connectives s'
  links : ∀ {size : Nat} {cs : List Char} {s s' : State} {found : List Link}, Stands size cs s →
    links limits fuel s = .ok found s' →
    ∃ links rest, Links size cs links rest ∧ links.toList = found ∧
      Moves s rest links.cost.connectives s'
  operand : ∀ {size : Nat} {cs : List Char} {s s' : State} {e : Expr}, Stands size cs s →
    operand limits fuel s = .ok (some e) s' →
    ∃ o rest, Operand size cs o rest ∧ o.tree = e ∧ Moves s rest o.cost.connectives s'
  predicate : ∀ {size : Nat} {cs : List Char} {s s' : State} {e : Expr}, Stands size cs s →
    NoMark '(' cs → predicate limits fuel s = .ok (some e) s' →
    ∃ o rest, Operand size cs o rest ∧ o.tree = e ∧ Moves s rest o.cost.connectives s'
  /-- The reader comes out of the call. -/
  arguments : ∀ {size : Nat} {cs : List Char} {s s' : State} {first : Bool} {found : List Expr},
    Stands size cs s → arguments limits first fuel s = .ok found s' →
    ∃ arguments rest, Arguments size first cs arguments rest ∧ arguments.trees = found ∧
      Onward s rest s' ∧ s.depth = s'.depth + 1 ∧
      s'.connectives = s.connectives + arguments.cost.connectives
  argument : ∀ {size : Nat} {cs : List Char} {s s' : State} {e : Expr}, Stands size cs s →
    argument limits fuel s = .ok e s' →
    ∃ argument rest, Argument size cs argument rest ∧ argument.tree = e ∧
      Moves s rest argument.cost.connectives s'

namespace Sound

variable {limits : Limits} {fuel : Nat}

theorem condition_succ (ih : Sound limits fuel) {e : Expr} (hs : Stands size cs s)
    (h : Grammar.condition limits (fuel + 1) s = .ok (some e) s') :
    ∃ c rest, Condition size cs c rest ∧ c.tree = e ∧ Moves s rest c.cost.connectives s' := by
  obtain ⟨found, s₁, hfirst, h⟩ := bind_eq_ok h
  cases found with
  | none =>
      obtain ⟨hnone, -⟩ := pure_eq_ok h
      cases hnone
  | some first =>
      obtain ⟨found, s₂, hothers, h⟩ := bind_eq_ok h
      obtain ⟨hsome, rfl⟩ := pure_eq_ok h
      cases hsome
      obtain ⟨o, r, hoperand, rfl, hmoves⟩ := ih.operand hs hfirst
      obtain ⟨links, rest, hlinks, rfl, hmoves₁⟩ := ih.links (hmoves.stands hs) hothers
      exact ⟨.chain o links, rest, .chain hoperand hlinks, rfl, hmoves.trans hmoves₁⟩

theorem links_succ (ih : Sound limits fuel) {found : List Link} (hs : Stands size cs s)
    (h : Grammar.links limits (fuel + 1) s = .ok found s') :
    ∃ links rest, Links size cs links rest ∧ links.toList = found ∧
      Moves s rest links.cost.connectives s' := by
  obtain ⟨connective, s₁, hword, h⟩ := bind_eq_ok h
  rcases anyKeyword_eq_ok hs hword with ⟨rfl, hno, rfl⟩ | ⟨keyword, token, r, rfl, htake, htook⟩
  · obtain ⟨rfl, rfl⟩ := pure_eq_ok h
    exact ⟨.nil, cs, .nil hno, rfl, Moves.refl hs⟩
  · obtain ⟨u, s₂, hcount, h⟩ := bind_eq_ok h
    obtain rfl := countConnective_eq_ok hcount
    have hthere : Moves s r 1 { s₁ with connectives := s₁.connectives + 1 } :=
      ⟨⟨htook.text, htook.ahead⟩, htook.depth, by simp [htook.connectives]⟩
    have hr := hthere.stands hs
    obtain ⟨negated, s₃, hnot, h⟩ := bind_eq_ok h
    obtain ⟨r₁, hnegation, hmoves⟩ : ∃ r₁, Negation r negated r₁ ∧ Moves s r₁ 1 s₃ := by
      rcases keyword_eq_ok hr hnot with ⟨rfl, hno, rfl⟩ | ⟨token, r₁, rfl, htake, htook⟩
      · exact ⟨r, .absent hno, hthere⟩
      · exact ⟨r₁, .present ⟨token, htake⟩, hthere.trans htook.toMoves⟩
    have hr₁ := hmoves.stands hs
    obtain ⟨grouped, s₄, hpeek, h⟩ := bind_eq_ok h
    rw [peek_eq '(' hr₁] at hpeek
    cases hpeek
    obtain ⟨next, s₅, hnext, h⟩ := bind_eq_ok h
    obtain ⟨o, r₂, hoperand, rfl, hmoves₁⟩ := ih.operand hr₁ (require_eq_ok hnext)
    obtain ⟨others, s₆, hothers, h⟩ := bind_eq_ok h
    obtain ⟨rfl, rfl⟩ := pure_eq_ok h
    obtain ⟨links, rest, hlinks, rfl, hmoves₂⟩ := ih.links (hmoves₁.stands hr₁) hothers
    refine ⟨.cons (connectiveOf keyword negated) o links, rest,
      .cons htake hnegation hoperand hlinks, ?_, ?_⟩
    · rw [Syntax.Links.toList, isGroup_eq_peek hoperand]
    · have hall := (hmoves.trans hmoves₁).trans hmoves₂
      rwa [Nat.add_assoc] at hall

theorem operand_succ (ih : Sound limits fuel) {e : Expr} (hs : Stands size cs s)
    (h : Grammar.operand limits (fuel + 1) s = .ok (some e) s') :
    ∃ o rest, Operand size cs o rest ∧ o.tree = e ∧ Moves s rest o.cost.connectives s' := by
  obtain ⟨opened, s₁, hopen, h⟩ := bind_eq_ok h
  rcases char_eq_ok hs hopen with ⟨rfl, hno, rfl⟩ | ⟨r, rfl, hmark, htook⟩
  · exact ih.predicate hs hno h
  · obtain ⟨u, s₂, henter, h⟩ := bind_eq_ok h
    obtain rfl := enter_eq_ok henter
    have hr : Stands size r { s₁ with depth := s₁.depth + 1 } :=
      ⟨htook.ahead, (htook.stands hs).size_eq⟩
    obtain ⟨found, s₃, hinner, h⟩ := bind_eq_ok h
    cases found with
    | none =>
        obtain ⟨hnone, -⟩ := pure_eq_ok h
        cases hnone
    | some inner =>
        obtain ⟨c, r₁, hcondition, rfl, hmoves⟩ := ih.condition hr hinner
        obtain ⟨u, s₄, hclose, h⟩ := bind_eq_ok h
        obtain ⟨rest, hclose, htook₁⟩ := expectChar_eq_ok (hmoves.stands hr) hclose
        obtain ⟨u, s₅, hleave, h⟩ := bind_eq_ok h
        obtain ⟨depth, hdepth, rfl⟩ := leave_eq_ok hleave
        obtain ⟨hsome, rfl⟩ := pure_eq_ok h
        cases hsome
        refine ⟨.group c, rest, .group hmark hcondition hclose, rfl, ⟨⟨?_, htook₁.ahead⟩, ?_, ?_⟩⟩
        · rw [htook₁.text, hmoves.text, htook.text]
        · rw [htook₁.depth, hmoves.depth, htook.depth] at hdepth
          exact (Nat.succ.inj hdepth).symm
        · rw [htook₁.connectives, hmoves.connectives, htook.connectives]
          rfl

theorem predicate_succ (ih : Sound limits fuel) {e : Expr} (hs : Stands size cs s)
    (hopen : NoMark '(' cs) (h : Grammar.predicate limits (fuel + 1) s = .ok (some e) s') :
    ∃ o rest, Operand size cs o rest ∧ o.tree = e ∧ Moves s rest o.cost.connectives s' := by
  obtain ⟨isTrue, s₁, htrue, h⟩ := bind_eq_ok h
  rcases keyword_eq_ok hs htrue with ⟨rfl, hno, rfl⟩ | ⟨token, rest, rfl, htake, htook⟩
  · obtain ⟨found, s₂, hpath, h⟩ := bind_eq_ok h
    rcases path_sound hs hpath with ⟨rfl, -⟩ | ⟨subject, r, rfl, hpath, hmoves⟩
    · obtain ⟨hnone, -⟩ := pure_eq_ok h
      cases hnone
    · have hr := hmoves.stands hs
      obtain ⟨found, s₃, hoperator, h⟩ := bind_eq_ok h
      rcases firstOf_eq_ok hr hoperator with
        ⟨rfl, -, -⟩ | ⟨operator, token, r₁, rfl, htake, htook⟩
      · exact (refuse_ne_ok h).elim
      · have hr₁ := htook.stands hr
        have hthere := hmoves.trans htook.toMoves
        cases operator with
        | some found =>
            obtain ⟨e', s₄, htest, h⟩ := bind_eq_ok h
            obtain ⟨hsome, rfl⟩ := pure_eq_ok h
            cases hsome
            obtain ⟨rest, htest, hmoves₁⟩ := test_sound hr₁ htest
            exact ⟨.test e, rest, .test hopen hno hpath htake htest, rfl, hthere.trans hmoves₁⟩
        | none =>
            obtain ⟨u, s₄, henter, h⟩ := bind_eq_ok h
            obtain rfl := enter_eq_ok henter
            have hinside : Stands size r₁ { s₃ with depth := s₃.depth + 1 } :=
              ⟨hr₁.ahead, hr₁.size_eq⟩
            obtain ⟨found, s₅, hfound, h⟩ := bind_eq_ok h
            obtain ⟨arguments, r₂, harguments, rfl, hon, hdepth, hconnectives⟩ :=
              ih.arguments hinside hfound
            have hcall : Moves s r₂ arguments.cost.connectives s₅ :=
              ⟨⟨hon.text.trans hthere.text, hon.ahead⟩,
                (Nat.succ.inj hdepth).symm.trans hthere.depth, by
                  rw [hconnectives]
                  exact congrArg (· + arguments.cost.connectives) hthere.connectives⟩
            obtain ⟨trailing, s₆, htrailing, h⟩ := bind_eq_ok h
            obtain ⟨rest, htrailing, hmoves₁⟩ := trailingTest_sound (hcall.stands hs) htrailing
            refine ⟨.call subject arguments trailing, rest,
              .call hopen hno hpath htake harguments htrailing, ?_, ?_⟩
            · cases trailing with
              | none =>
                  obtain ⟨hsome, -⟩ := pure_eq_ok h
                  cases hsome
                  simp [Syntax.Operand.tree]
              | some last =>
                  obtain ⟨hsome, -⟩ := pure_eq_ok h
                  cases hsome
                  simp [Syntax.Operand.tree]
            · cases trailing with
              | none =>
                  obtain ⟨-, rfl⟩ := pure_eq_ok h
                  exact hcall.trans hmoves₁
              | some last =>
                  obtain ⟨-, rfl⟩ := pure_eq_ok h
                  exact hcall.trans hmoves₁
  · obtain ⟨hsome, rfl⟩ := pure_eq_ok h
    cases hsome
    exact ⟨.test .truth, rest, .truth hopen ⟨token, htake⟩, rfl, htook.toMoves⟩

theorem arguments_succ (ih : Sound limits fuel) {first : Bool} {found : List Expr}
    (hs : Stands size cs s) (h : Grammar.arguments limits first (fuel + 1) s = .ok found s') :
    ∃ arguments rest, Arguments size first cs arguments rest ∧ arguments.trees = found ∧
      Onward s rest s' ∧ s.depth = s'.depth + 1 ∧
      s'.connectives = s.connectives + arguments.cost.connectives := by
  obtain ⟨closed, s₁, hclose, h⟩ := bind_eq_ok h
  rcases char_eq_ok hs hclose with ⟨rfl, hno, rfl⟩ | ⟨rest, rfl, hmark, htook⟩
  · obtain ⟨r, s₂, hseparator, hmoves, h⟩ : ∃ r s₂, Separator first cs r ∧ Moves s r 0 s₂ ∧
        (do
          let next ← Grammar.argument limits fuel
          return next :: (← Grammar.arguments limits false fuel)) s₂ = .ok found s' := by
      cases first with
      | true => exact ⟨cs, s, .first, Moves.refl hs, h⟩
      | false =>
          obtain ⟨u, s₂, hcomma, h⟩ := bind_eq_ok (s := s) (by simpa using h)
          obtain ⟨r, hmark, htook⟩ := expectChar_eq_ok hs hcomma
          exact ⟨r, s₂, .comma hmark, htook.toMoves, h⟩
    have hr := hmoves.stands hs
    obtain ⟨next, s₃, hnext, h⟩ := bind_eq_ok h
    obtain ⟨argument, r₁, hargument, rfl, hmoves₁⟩ := ih.argument hr hnext
    obtain ⟨others, s₄, hothers, h⟩ := bind_eq_ok h
    obtain ⟨rfl, rfl⟩ := pure_eq_ok h
    obtain ⟨arguments, rest, harguments, rfl, hon, hdepth, hconnectives⟩ :=
      ih.arguments (hmoves₁.stands hr) hothers
    have hthere := hmoves.trans hmoves₁
    refine ⟨.cons argument arguments, rest, .cons hno hseparator hargument harguments, rfl,
      hthere.toOnward.trans hon, hthere.depth.symm.trans hdepth, ?_⟩
    rw [hconnectives, hthere.connectives, Nat.zero_add, Nat.add_assoc]
    rfl
  · obtain ⟨u, s₂, hleave, h⟩ := bind_eq_ok h
    obtain ⟨depth, hdepth, rfl⟩ := leave_eq_ok hleave
    obtain ⟨rfl, rfl⟩ := pure_eq_ok h
    exact ⟨.nil, rest, .nil hmark, rfl, ⟨htook.text, htook.ahead⟩,
      htook.depth.symm.trans hdepth, htook.connectives⟩

theorem argument_succ (ih : Sound limits fuel) {e : Expr} (hs : Stands size cs s)
    (h : Grammar.argument limits (fuel + 1) s = .ok e s') :
    ∃ argument rest, Argument size cs argument rest ∧ argument.tree = e ∧
      Moves s rest argument.cost.connectives s' := by
  obtain ⟨found, s₁, hvalue, h⟩ := bind_eq_ok h
  rcases value_sound hs hvalue with ⟨rfl, hnoValue, hmoves⟩ | ⟨v, rest, rfl, hvalue, hmoves⟩
  · have hthere := hmoves.stands hs
    obtain ⟨start, s₂, hstart, h⟩ := bind_eq_ok h
    cases hstart
    rw [hthere.offset] at h
    obtain ⟨found, s₃, hpath, h⟩ := bind_eq_ok h
    rcases path_sound hthere hpath with ⟨rfl, r, hno, hmoves₁⟩ | ⟨field, r, rfl, hpath, hmoves₁⟩
    · obtain ⟨c, rest, hcondition, rfl, hmoves₂⟩ :=
        ih.condition (hmoves₁.stands hthere) (require_eq_ok h)
      exact ⟨.condition c, rest, .condition hnoValue (.noPath hno) hcondition, rfl,
        (hmoves.next hmoves₁).next hmoves₂⟩
    · have hr := hmoves₁.stands hthere
      obtain ⟨isComma, s₄, hcomma, h⟩ := bind_eq_ok h
      rcases peek_eq_ok hr hcomma with ⟨rfl, ⟨rfl, hnoComma⟩ | ⟨r₁, rfl, hmark⟩⟩
      · obtain ⟨isClose, s₅, hclose, h⟩ := bind_eq_ok h
        rcases peek_eq_ok hr hclose with ⟨rfl, ⟨rfl, hnoClose⟩ | ⟨r₁, rfl, hmark⟩⟩
        · obtain ⟨u, s₆, hreturn, h⟩ := bind_eq_ok h
          obtain ⟨s₇, hreturn', hon, hdepth, hconnectives⟩ :=
            returnTo_eq hthere hmoves₁.toOnward
          rw [hreturn'] at hreturn
          cases hreturn
          have hback : Moves s₁ cs 0 s₆ :=
            ⟨hon, hdepth.trans hmoves₁.depth, hconnectives.trans hmoves₁.connectives⟩
          obtain ⟨c, rest, hcondition, rfl, hmoves₂⟩ :=
            ih.condition (hback.stands hthere) (require_eq_ok h)
          exact ⟨.condition c, rest,
            .condition hnoValue (.goesOn hpath hnoComma hnoClose) hcondition, rfl,
            (hmoves.next hback).next hmoves₂⟩
        · obtain ⟨rfl, rfl⟩ := pure_eq_ok h
          exact ⟨.leaf (.field field), r,
            .field hnoValue hpath (Or.inr ⟨hnoComma, r₁, hmark⟩), rfl, hmoves.trans hmoves₁⟩
      · obtain ⟨rfl, rfl⟩ := pure_eq_ok h
        exact ⟨.leaf (.field field), r, .field hnoValue hpath (Or.inl ⟨r₁, hmark⟩), rfl,
          hmoves.trans hmoves₁⟩
  · obtain ⟨rfl, rfl⟩ := pure_eq_ok h
    exact ⟨.leaf (.value v), rest, .value hvalue, rfl, hmoves⟩

end Sound

/-- The readers of conditions accept only what is written, whatever their fuel. -/
theorem sound (limits : Limits) (fuel : Nat) : Sound limits fuel := by
  induction fuel with
  | zero =>
      exact ⟨fun _ h => (throw_ne_ok h).elim, fun _ h => (throw_ne_ok h).elim,
        fun _ h => (throw_ne_ok h).elim, fun _ _ h => (throw_ne_ok h).elim,
        fun _ h => (throw_ne_ok h).elim, fun _ h => (throw_ne_ok h).elim⟩
  | succ fuel ih =>
      exact ⟨ih.condition_succ, ih.links_succ, ih.operand_succ, ih.predicate_succ,
        ih.arguments_succ, ih.argument_succ⟩

end DocQuery.Grammar
