import DocQuery.Proofs.Grammar.Progress
import DocQuery.Proofs.Grammar.Tokens

/-!
# Written paths and values are accepted

Where a value or a path of the grammar is next, its reader gives it and stands
behind it, and where none is next, the reader says so.  A path needs as much
fuel as the text has characters.
-/

namespace DocQuery.Grammar

open Lexical Written

variable {size : Nat} {cs rest : List Char} {s s' : State}

/-! ## Values -/

theorem tokenValue_eq (kind : ValueKind) (escaped : Bool) (s : State) :
    tokenValue kind escaped s =
      .ok ⟨s.scanner.token.text, s.scanner.token.span, kind, escaped⟩ s := rfl

theorem parameter_complete {token : List Char} (hs : Stands size (token ++ rest) s)
    (h : Takes (Rule.identifier false) (token ++ rest) token () rest) :
    ∃ s', parameter s =
        .ok ⟨(tokenAt size token rest).text, (tokenAt size token rest).span, .parameter, false⟩ s' ∧
      Moves s rest 0 s' := by
  obtain ⟨s₁, hname, htook⟩ := identifier_takes hs h
  refine ⟨s₁, ?_, htook.toMoves⟩
  rw [parameter, bind_of_ok _ (position_eq s), bind_of_ok _ hname]
  have hstart : (s₁.scanner.token.start == s.scanner.offset) = true := by
    rw [htook.token, hs.offset]
    exact beq_self_eq_true _
  simp only [bind_of_ok _ (token_eq s₁), hstart, Bool.and_self, if_true]
  rw [tokenValue_eq, htook.token]

theorem value_complete {v : Value} (hs : Stands size cs s) (h : Written.Value size cs v rest) :
    ∃ s', value s = .ok (some v) s' ∧ Moves s rest 0 s' := by
  cases h with
  | number htake =>
      obtain ⟨s₁, hnumber, htook⟩ := number_takes hs htake
      refine ⟨s₁, ?_, htook.toMoves⟩
      rw [value, bind_of_ok _ hnumber]
      simp only [bind_of_ok _ (tokenValue_eq _ _ _), htook.token]
      rfl
  | quoted hnoNumber htake =>
      obtain ⟨s₁, hquoted, htook, hescapes⟩ := quoted_takes hs htake
      refine ⟨s₁, ?_, htook.toMoves⟩
      rw [value, bind_of_ok _ (number_passes hs hnoNumber)]
      simp only [bind_of_ok _ hquoted, if_true, bind_of_ok _ (get_eq _),
        bind_of_ok _ (tokenValue_eq _ _ _), htook.token, hescapes]
      rfl
  | literal hnoNumber hnoQuoted htake =>
      obtain ⟨s₁, hliteral, htook⟩ := anyKeyword_takes hs htake
      refine ⟨s₁, ?_, htook.toMoves⟩
      rw [value, bind_of_ok _ (number_passes hs hnoNumber)]
      simp only [bind_of_ok _ (quoted_passes hs hnoQuoted), Bool.false_eq_true, if_false,
        bind_of_ok _ hliteral, bind_of_ok _ (token_eq _), htook.token]
      rfl
  | parameter hnoNumber hnoQuoted hnoLiteral hdollar htake =>
      obtain ⟨s₁, hmark, htook⟩ := char_of_mark hs hdollar
      obtain ⟨s₂, hname, hmoves⟩ := parameter_complete (htook.stands hs) htake
      refine ⟨s₂, ?_, htook.toMoves.trans hmoves⟩
      rw [value, bind_of_ok _ (number_passes hs hnoNumber)]
      simp only [bind_of_ok _ (quoted_passes hs hnoQuoted), Bool.false_eq_true, if_false,
        bind_of_ok _ (anyKeyword_passes hs hnoLiteral), bind_of_ok _ hmark, if_true,
        bind_of_ok _ hname]
      rfl

theorem value_none (hs : Stands size cs s) (h : NoValue cs) : value s = .ok none s := by
  rw [value, bind_of_ok _ (number_passes hs h.number)]
  simp only [bind_of_ok _ (quoted_passes hs h.quoted), Bool.false_eq_true, if_false,
    bind_of_ok _ (anyKeyword_passes hs h.literal), bind_of_ok _ (char_of_noMark hs h.dollar)]
  rfl

theorem requireValue_complete {v : Value} (e : Expectation) (hs : Stands size cs s)
    (h : Written.Value size cs v rest) :
    ∃ s', require e value s = .ok v s' ∧ Moves s rest 0 s' := by
  obtain ⟨s₁, hvalue, hmoves⟩ := value_complete hs h
  exact ⟨s₁, require_of_ok hvalue, hmoves⟩

/-! ## Paths -/

theorem segment_complete {beginning quoted : Bool} {token : List Char} {text : String}
    (hs : Stands size cs s) (h : Segment beginning cs token text quoted rest) :
    ∃ s', segment beginning s = .ok (some (text, quoted)) s' ∧ Took size s token rest s' := by
  cases h with
  | name htake =>
      obtain ⟨s₁, hname, htook⟩ := identifier_takes hs htake
      refine ⟨s₁, ?_, htook⟩
      rw [segment, bind_of_ok _ hname]
      simp only [if_true, bind_of_ok _ (token_eq _), htook.token]
      rfl
  | quoted hnoName htake =>
      obtain ⟨s₁, hquoted, htook, -⟩ := quoted_takes hs htake
      refine ⟨s₁, ?_, htook⟩
      rw [segment, bind_of_ok _ (identifier_passes hs hnoName)]
      simp only [Bool.false_eq_true, if_false, bind_of_ok _ hquoted, if_true,
        bind_of_ok _ (get_eq _), content_quoted htake htook.token]
      rfl

theorem segment_none {beginning : Bool} (hs : Stands size cs s) (h : NoSegment beginning cs) :
    segment beginning s = .ok none s := by
  rw [segment, bind_of_ok _ (identifier_passes hs h.name)]
  simp only [Bool.false_eq_true, if_false, bind_of_ok _ (quoted_passes hs h.quoted)]
  rfl

theorem index_complete {text : String} (hs : Stands size cs s) (h : Index cs text rest) :
    ∃ s', index s = .ok text s' ∧ Moves s rest 0 s' := by
  cases h with
  | absent hno =>
      refine ⟨s, ?_, Moves.refl hs⟩
      rw [index, bind_of_ok _ (char_of_noMark hs hno)]
      rfl
  | empty hopen hno hclose =>
      obtain ⟨s₁, hmark, htook⟩ := char_of_mark hs hopen
      have hr := htook.stands hs
      obtain ⟨s₂, hend, htook₁⟩ := expectChar_of_mark .indexEnd hr hclose
      have hnumber : indexNumber s₁ = .ok "" s₁ := by
        rw [indexNumber, bind_of_ok _ (number_passes hr hno)]
        rfl
      refine ⟨s₂, ?_, htook.toMoves.trans htook₁.toMoves⟩
      rw [index, bind_of_ok _ hmark]
      simp only [if_true, bind_of_ok _ hnumber, bind_of_ok _ hend]
      rfl
  | @number r r₁ token _ hopen htake hhead hclose =>
      obtain ⟨s₁, hmark, htook⟩ := char_of_mark hs hopen
      have hr := htook.stands hs
      obtain ⟨s₂, htaken, htook₁⟩ := number_takes hr htake
      obtain ⟨s₃, hend, htook₂⟩ := expectChar_of_mark .indexEnd (htook₁.stands hr) hclose
      have hnumber : indexNumber s₁ = .ok (String.ofList token) s₂ := by
        rw [indexNumber, bind_of_ok _ htaken]
        simp only [bind_of_ok _ (token_eq _), htook₁.token, tokenAt, if_neg hhead]
        rfl
      refine ⟨s₃, ?_, (htook.toMoves.trans htook₁.toMoves).trans htook₂.toMoves⟩
      rw [index, bind_of_ok _ hmark]
      simp only [if_true, bind_of_ok _ hnumber, bind_of_ok _ hend]
      rfl

theorem pathTail_complete {more : String} {quoted : Bool} (h : Tail cs more quoted rest)
    {fuel : Nat} (hfuel : cs.length < fuel) (hs : Stands size cs s) :
    ∃ s', pathTail fuel s = .ok (some (more, quoted)) s' ∧ Moves s rest 0 s' := by
  induction h generalizing fuel s with
  | last hindex hno =>
      obtain ⟨fuel, rfl⟩ : ∃ n, fuel = n + 1 := ⟨fuel - 1, by omega⟩
      obtain ⟨s₁, hbracket, hmoves⟩ := index_complete hs hindex
      refine ⟨s₁, ?_, hmoves⟩
      rw [pathTail, bind_of_ok _ hbracket]
      simp only [bind_of_ok _ (char_of_noMark (hmoves.stands hs) hno), Bool.false_eq_true, if_false]
      rfl
  | @more _ _ _ r₂ _ _ _ _ _ _ _ hindex hdot hsegment _ ih =>
      obtain ⟨fuel, rfl⟩ : ∃ n, fuel = n + 1 := ⟨fuel - 1, by omega⟩
      obtain ⟨s₁, hbracket, hmoves⟩ := index_complete hs hindex
      have hr := hmoves.stands hs
      obtain ⟨s₂, hmark, htook⟩ := char_of_mark hr hdot
      have hr₁ := htook.stands hr
      obtain ⟨s₃, hnext, htook₁⟩ := segment_complete hr₁ hsegment
      have hless : r₂.length < fuel := by
        have h₁ := hindex.length_le
        have h₂ := hdot.length_lt
        have h₃ := hsegment.length_lt
        omega
      obtain ⟨s₄, htail, hmoves₁⟩ := ih hless (htook₁.stands hr₁)
      refine ⟨s₄, ?_, ((hmoves.trans htook.toMoves).trans htook₁.toMoves).trans hmoves₁⟩
      rw [pathTail, bind_of_ok _ hbracket]
      simp only [bind_of_ok _ hmark, if_true, bind_of_ok _ hnext, bind_of_ok _ htail]
      rfl

theorem pathTail_none (h : NoTail cs) {fuel : Nat} (hfuel : cs.length < fuel)
    (hs : Stands size cs s) : ∃ s' rest, pathTail fuel s = .ok none s' ∧ Moves s rest 0 s' := by
  induction h generalizing fuel s with
  | «open» hindex hdot hno =>
      obtain ⟨fuel, rfl⟩ : ∃ n, fuel = n + 1 := ⟨fuel - 1, by omega⟩
      obtain ⟨s₁, hbracket, hmoves⟩ := index_complete hs hindex
      have hr := hmoves.stands hs
      obtain ⟨s₂, hmark, htook⟩ := char_of_mark hr hdot
      refine ⟨s₂, _, ?_, hmoves.trans htook.toMoves⟩
      rw [pathTail, bind_of_ok _ hbracket]
      simp only [bind_of_ok _ hmark, if_true, bind_of_ok _ (segment_none (htook.stands hr) hno)]
      rfl
  | @more _ _ _ r₂ _ _ _ _ hindex hdot hsegment _ ih =>
      obtain ⟨fuel, rfl⟩ : ∃ n, fuel = n + 1 := ⟨fuel - 1, by omega⟩
      obtain ⟨s₁, hbracket, hmoves⟩ := index_complete hs hindex
      have hr := hmoves.stands hs
      obtain ⟨s₂, hmark, htook⟩ := char_of_mark hr hdot
      have hr₁ := htook.stands hr
      obtain ⟨s₃, hnext, htook₁⟩ := segment_complete hr₁ hsegment
      have hless : r₂.length < fuel := by
        have h₁ := hindex.length_le
        have h₂ := hdot.length_lt
        have h₃ := hsegment.length_lt
        omega
      obtain ⟨s₄, rest, htail, hmoves₁⟩ := ih hless (htook₁.stands hr₁)
      refine ⟨s₄, rest, ?_, ((hmoves.trans htook.toMoves).trans htook₁.toMoves).trans hmoves₁⟩
      rw [pathTail, bind_of_ok _ hbracket]
      simp only [bind_of_ok _ hmark, if_true, bind_of_ok _ hnext, bind_of_ok _ htail]
      rfl

/-- A segment that is no reserved word starts a path. -/
theorem free_of_not_reserved {token r : List Char} {quoted : Bool}
    (hfree : (!quoted && isReserved token) = false) (htook : Took size s token r s') :
    ¬(!quoted && s'.scanner.token.isOneOf Keyword.reserved) = true := by
  rw [htook.token, Bool.not_eq_true]
  exact hfree

theorem path_complete {p : Path} (fuel : Nat) (hfuel : cs.length ≤ fuel) (hs : Stands size cs s)
    (h : Written.Path size cs p rest) :
    ∃ s', path fuel s = .ok (some p) s' ∧ Moves s rest 0 s' := by
  cases h with
  | mk hsegment hfree htail =>
      obtain ⟨s₁, hfirst, htook⟩ := segment_complete hs hsegment
      obtain ⟨s₂, hmore, hmoves⟩ :=
        pathTail_complete htail (Nat.lt_of_lt_of_le hsegment.length_lt hfuel) (htook.stands hs)
      have hthere := htook.toMoves.trans hmoves
      refine ⟨s₂, ?_, hthere⟩
      rw [path, bind_of_ok _ (position_eq s)]
      simp only [bind_of_ok _ hfirst, bind_of_ok _ (token_eq _),
        if_neg (free_of_not_reserved hfree htook), bind_of_ok _ hmore,
        bind_of_ok _ (position_eq _)]
      rw [htook.token, (hthere.stands hs).offset]
      rfl

theorem path_none (fuel : Nat) (hfuel : cs.length ≤ fuel) (hs : Stands size cs s)
    (h : NoPath cs rest) : ∃ s', path fuel s = .ok none s' ∧ Moves s rest 0 s' := by
  cases h with
  | blank hno =>
      obtain ⟨s₁, hreturn, hon, hdepth, hconnectives⟩ := returnTo_eq hs (Moves.refl hs).toOnward
      refine ⟨s₁, ?_, hon, hdepth, hconnectives⟩
      rw [path, bind_of_ok _ (position_eq s), hs.offset]
      simp only [bind_of_ok _ (segment_none hs hno), bind_of_ok _ hreturn]
      rfl
  | reserved htake hreserved =>
      obtain ⟨s₁, hfirst, htook⟩ := segment_complete hs (.name htake)
      obtain ⟨s₂, hunread, hmoves⟩ := unread_eq hs htake.split htook
      refine ⟨s₂, ?_, hmoves⟩
      have hbarred : (!false && s₁.scanner.token.isOneOf Keyword.reserved) = true := by
        rw [htook.token]
        exact hreserved
      rw [path, bind_of_ok _ (position_eq s)]
      simp only [bind_of_ok _ hfirst, bind_of_ok _ (token_eq _), if_pos hbarred,
        bind_of_ok _ hunread]
      rfl
  | broken hsegment hfree hno =>
      obtain ⟨s₁, hfirst, htook⟩ := segment_complete hs hsegment
      obtain ⟨s₂, r, hmore, hmoves⟩ :=
        pathTail_none hno (Nat.lt_of_lt_of_le hsegment.length_lt hfuel) (htook.stands hs)
      have hthere := htook.toMoves.trans hmoves
      obtain ⟨s₃, hreturn, hon, hdepth, hconnectives⟩ := returnTo_eq hs hthere.toOnward
      refine ⟨s₃, ?_, hon, hdepth.trans hthere.depth, hconnectives.trans hthere.connectives⟩
      rw [path, bind_of_ok _ (position_eq s), hs.offset]
      simp only [bind_of_ok _ hfirst, bind_of_ok _ (token_eq _),
        if_neg (free_of_not_reserved hfree htook), bind_of_ok _ hmore, bind_of_ok _ hreturn]
      rfl

theorem requirePath_complete {p : Path} (fuel : Nat) (e : Expectation)
    (hfuel : cs.length ≤ fuel) (hs : Stands size cs s) (h : Written.Path size cs p rest) :
    ∃ s', require e (path fuel) s = .ok p s' ∧ Moves s rest 0 s' := by
  obtain ⟨s₁, hpath, hmoves⟩ := path_complete fuel hfuel hs h
  exact ⟨s₁, require_of_ok hpath, hmoves⟩

end DocQuery.Grammar
