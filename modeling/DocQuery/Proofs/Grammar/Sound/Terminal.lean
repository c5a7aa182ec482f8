import DocQuery.Proofs.Grammar.Progress
import DocQuery.Proofs.Grammar.Tokens

/-!
# Accepted paths and values are written

Where the reader of a value, a path or a part of a path gives an answer, the
text begins as the grammar says, and the reader stands behind that beginning.
-/

namespace DocQuery.Grammar

open Lexical Written

variable {size : Nat} {cs : List Char} {s s' : State}

/-! ## Values -/

theorem tokenValue_eq_ok {kind : ValueKind} {escaped : Bool} {v : Value}
    (h : tokenValue kind escaped s = .ok v s') :
    ⟨s.scanner.token.text, s.scanner.token.span, kind, escaped⟩ = v ∧ s = s' := by
  obtain ⟨token, s₁, htoken, h⟩ := bind_eq_ok h
  cases htoken
  exact pure_eq_ok h

/-- A parameter name stands directly behind its dollar sign. -/
theorem parameter_sound {v : Value} (hs : Stands size cs s) (h : parameter s = .ok v s') :
    ∃ token rest, cs = token ++ rest ∧ Takes (Rule.identifier false) cs token () rest ∧
      v = ⟨(tokenAt size token rest).text, (tokenAt size token rest).span, .parameter, false⟩ ∧
      Moves s rest 0 s' := by
  obtain ⟨start, s₁, hstart, h⟩ := bind_eq_ok h
  cases hstart
  obtain ⟨named, s₁, hname, h⟩ := bind_eq_ok h
  rcases identifier_eq_ok hs hname with ⟨rfl, -, rfl⟩ | ⟨token, rest, rfl, htake, htook⟩
  · exact (refuse_ne_ok h).elim
  · simp only [Bool.true_and] at h
    obtain ⟨found, s₂, hfound, h⟩ := bind_eq_ok h
    obtain ⟨token', s₃, htoken, hpure⟩ := bind_eq_ok hfound
    cases htoken
    obtain ⟨rfl, rfl⟩ := pure_eq_ok hpure
    split at h
    · next hstart =>
        obtain ⟨rfl, rfl⟩ := tokenValue_eq_ok h
        have hcs : cs = token ++ rest := by
          have hlength : Text.byteLength cs =
              Text.byteLength (Trivia.skipped cs) + Text.byteLength (token ++ rest) := by
            rw [← Text.byteLength_append, ← htake.split, Trivia.skipped_append_rest]
          have hgap : Text.byteLength (Trivia.skipped cs) = 0 := by
            have hle := hs.byteLength_le
            rw [htook.token, hs.offset, beq_iff_eq] at hstart
            simp only [tokenAt, place] at hstart
            omega
          have hcut := Trivia.skipped_append_rest cs
          rwa [Text.byteLength_eq_zero_iff.mp hgap, List.nil_append, htake.split, eq_comm] at hcut
        refine ⟨token, rest, hcs, htake, ?_, htook.toMoves⟩
        rw [htook.token]
    · exact (refuse_ne_ok h).elim

theorem value_sound {found : Option Value} (hs : Stands size cs s)
    (h : value s = .ok found s') :
    (found = none ∧ NoValue cs ∧ Moves s cs 0 s') ∨
      ∃ v rest, found = some v ∧ Written.Value size cs v rest ∧ Moves s rest 0 s' := by
  obtain ⟨numeral, s₁, hnumber, h⟩ := bind_eq_ok h
  rcases number_eq_ok hs hnumber with ⟨rfl, hnoNumber, rfl⟩ | ⟨kind, token, rest, rfl, htake, htook⟩
  · obtain ⟨text, s₂, hquoted, h⟩ := bind_eq_ok h
    rcases quoted_eq_ok hs hquoted with
      ⟨rfl, hnoQuoted, rfl⟩ | ⟨escapes, token, rest, rfl, htake, htook, hescapes⟩
    · obtain ⟨literal, s₃, hliteral, h⟩ := bind_eq_ok h
      rcases anyKeyword_eq_ok hs hliteral with
        ⟨rfl, hnoLiteral, rfl⟩ | ⟨keyword, token, rest, rfl, htake, htook⟩
      · obtain ⟨dollar, s₄, hdollar, h⟩ := bind_eq_ok h
        rcases char_eq_ok hs hdollar with ⟨rfl, hnoDollar, rfl⟩ | ⟨rest, rfl, hmark, htook⟩
        · obtain ⟨rfl, rfl⟩ := pure_eq_ok h
          exact Or.inl ⟨rfl, ⟨hnoNumber, hnoQuoted, hnoLiteral, hnoDollar⟩, Moves.refl hs⟩
        · obtain ⟨v, s₅, hparameter, h⟩ := bind_eq_ok h
          obtain ⟨rfl, rfl⟩ := pure_eq_ok h
          obtain ⟨token, rest, rfl, htake, rfl, hmoves⟩ :=
            parameter_sound (htook.stands hs) hparameter
          exact Or.inr ⟨_, rest, rfl,
            .parameter hnoNumber hnoQuoted hnoLiteral hmark htake, htook.toMoves.trans hmoves⟩
      · obtain ⟨token', s₄, htoken, h⟩ := bind_eq_ok h
        cases htoken
        obtain ⟨rfl, rfl⟩ := pure_eq_ok h
        rw [htook.token]
        exact Or.inr ⟨_, rest, rfl, .literal hnoNumber hnoQuoted htake, htook.toMoves⟩
    · obtain ⟨state, s₃, hstate, h⟩ := bind_eq_ok h
      cases hstate
      obtain ⟨v, s₄, hvalue, h⟩ := bind_eq_ok h
      obtain ⟨rfl, rfl⟩ := tokenValue_eq_ok hvalue
      obtain ⟨rfl, rfl⟩ := pure_eq_ok h
      rw [htook.token, hescapes]
      exact Or.inr ⟨_, rest, rfl, .quoted hnoNumber htake, htook.toMoves⟩
  · obtain ⟨v, s₂, hvalue, h⟩ := bind_eq_ok h
    obtain ⟨rfl, rfl⟩ := tokenValue_eq_ok hvalue
    obtain ⟨rfl, rfl⟩ := pure_eq_ok h
    rw [htook.token]
    exact Or.inr ⟨_, rest, rfl, .number htake, htook.toMoves⟩

/-- A value that has to be there is written. -/
theorem requireValue_sound {e : Expectation} {v : Value} (hs : Stands size cs s)
    (h : require e value s = .ok v s') :
    ∃ rest, Written.Value size cs v rest ∧ Moves s rest 0 s' := by
  rcases value_sound hs (require_eq_ok h) with ⟨hnone, -, -⟩ | ⟨v', rest, hsome, hvalue, hmoves⟩
  · cases hnone
  · cases hsome
    exact ⟨rest, hvalue, hmoves⟩

/-! ## Paths -/

theorem segment_sound {beginning : Bool} {found : Option (String × Bool)}
    (hs : Stands size cs s) (h : segment beginning s = .ok found s') :
    (found = none ∧ NoSegment beginning cs ∧ Moves s cs 0 s') ∨
      ∃ text quoted token rest, found = some (text, quoted) ∧
        Segment beginning cs token text quoted rest ∧ Took size s token rest s' := by
  obtain ⟨named, s₁, hname, h⟩ := bind_eq_ok h
  rcases identifier_eq_ok hs hname with ⟨rfl, hnoName, rfl⟩ | ⟨token, rest, rfl, htake, htook⟩
  · obtain ⟨text, s₂, hquoted, h⟩ := bind_eq_ok h
    rcases quoted_eq_ok hs hquoted with
      ⟨rfl, hnoQuoted, rfl⟩ | ⟨escapes, token, rest, rfl, htake, htook, -⟩
    · obtain ⟨rfl, rfl⟩ := pure_eq_ok h
      exact Or.inl ⟨rfl, ⟨hnoName, hnoQuoted⟩, Moves.refl hs⟩
    · obtain ⟨state, s₃, hstate, h⟩ := bind_eq_ok h
      cases hstate
      simp only [content_quoted htake htook.token] at h
      obtain ⟨rfl, rfl⟩ := pure_eq_ok h
      exact Or.inr ⟨_, true, token, rest, rfl, .quoted hnoName htake, htook⟩
  · obtain ⟨token', s₂, htoken, h⟩ := bind_eq_ok h
    cases htoken
    obtain ⟨rfl, rfl⟩ := pure_eq_ok h
    rw [htook.token]
    exact Or.inr ⟨_, false, token, rest, rfl, .name htake, htook⟩

theorem indexNumber_sound {text : String} (hs : Stands size cs s)
    (h : indexNumber s = .ok text s') :
    (text = "" ∧ Passes Rule.number cs ∧ Moves s cs 0 s') ∨
      ∃ token rest, text = String.ofList token ∧ Takes Rule.number cs token .long rest ∧
        token.head? ≠ some '-' ∧ Moves s rest 0 s' := by
  obtain ⟨numeral, s₁, hnumber, h⟩ := bind_eq_ok h
  rcases number_eq_ok hs hnumber with ⟨rfl, hno, rfl⟩ | ⟨kind, token, rest, rfl, htake, htook⟩
  · obtain ⟨rfl, rfl⟩ := pure_eq_ok h
    exact Or.inl ⟨rfl, hno, Moves.refl hs⟩
  · cases kind with
    | double => exact (refuse_ne_ok h).elim
    | long =>
        obtain ⟨token', s₂, htoken, h⟩ := bind_eq_ok h
        cases htoken
        split at h
        · exact (refuse_ne_ok h).elim
        · next hhead =>
            obtain ⟨rfl, rfl⟩ := pure_eq_ok h
            rw [htook.token] at hhead ⊢
            exact Or.inr ⟨token, rest, rfl, htake, hhead, htook.toMoves⟩

theorem index_sound {text : String} (hs : Stands size cs s) (h : index s = .ok text s') :
    ∃ rest, Index cs text rest ∧ Moves s rest 0 s' := by
  obtain ⟨opened, s₁, hopen, h⟩ := bind_eq_ok h
  rcases char_eq_ok hs hopen with ⟨rfl, hno, rfl⟩ | ⟨r, rfl, hmark, htook⟩
  · obtain ⟨rfl, rfl⟩ := pure_eq_ok h
    exact ⟨cs, .absent hno, Moves.refl hs⟩
  · obtain ⟨number, s₂, hnumber, h⟩ := bind_eq_ok h
    obtain ⟨closed, s₃, hclose, h⟩ := bind_eq_ok h
    obtain ⟨rfl, rfl⟩ := pure_eq_ok h
    have hr := htook.stands hs
    rcases indexNumber_sound hr hnumber with
      ⟨rfl, hno, hmoves⟩ | ⟨token, r₁, rfl, htake, hhead, hmoves⟩
    · obtain ⟨rest, hmark', htook'⟩ := expectChar_eq_ok (hmoves.stands hr) hclose
      exact ⟨rest, .empty hmark hno hmark', (htook.toMoves.trans hmoves).trans htook'.toMoves⟩
    · obtain ⟨rest, hmark', htook'⟩ := expectChar_eq_ok (hmoves.stands hr) hclose
      exact ⟨rest, .number hmark htake hhead hmark',
        (htook.toMoves.trans hmoves).trans htook'.toMoves⟩

theorem pathTail_sound {fuel : Nat} {found : Option (String × Bool)} (hs : Stands size cs s)
    (h : pathTail fuel s = .ok found s') :
    (found = none ∧ NoTail cs ∧ ∃ rest, Moves s rest 0 s') ∨
      ∃ more quoted rest, found = some (more, quoted) ∧ Tail cs more quoted rest ∧
        Moves s rest 0 s' := by
  induction fuel generalizing cs s s' found with
  | zero => exact (throw_ne_ok h).elim
  | succ fuel ih =>
      obtain ⟨bracket, s₁, hindex, h⟩ := bind_eq_ok h
      obtain ⟨r, hindex, hmoves⟩ := index_sound hs hindex
      have hr := hmoves.stands hs
      obtain ⟨dot, s₂, hdot, h⟩ := bind_eq_ok h
      rcases char_eq_ok hr hdot with ⟨rfl, hno, rfl⟩ | ⟨r₁, rfl, hmark, htook⟩
      · obtain ⟨rfl, rfl⟩ := pure_eq_ok h
        exact Or.inr ⟨bracket, false, r, rfl, .last hindex hno, hmoves⟩
      · have hr₁ := htook.stands hr
        obtain ⟨next, s₃, hsegment, h⟩ := bind_eq_ok h
        rcases segment_sound hr₁ hsegment with
          ⟨rfl, hno, hmoves₁⟩ | ⟨text, quoted, token, r₂, rfl, hsegment, htook₁⟩
        · obtain ⟨rfl, rfl⟩ := pure_eq_ok h
          exact Or.inl ⟨rfl, .open hindex hmark hno, r₁,
            (hmoves.trans htook.toMoves).trans hmoves₁⟩
        · have hthere := (hmoves.trans htook.toMoves).trans htook₁.toMoves
          obtain ⟨more, s₄, htail, h⟩ := bind_eq_ok h
          rcases ih (htook₁.stands hr₁) htail with
            ⟨rfl, hno, rest, hmoves₂⟩ | ⟨more, others, rest, rfl, htail, hmoves₂⟩
          · obtain ⟨rfl, rfl⟩ := pure_eq_ok h
            exact Or.inl ⟨rfl, .more hindex hmark hsegment hno, rest, hthere.trans hmoves₂⟩
          · obtain ⟨rfl, rfl⟩ := pure_eq_ok h
            exact Or.inr ⟨_, _, rest, rfl, .more hindex hmark hsegment htail,
              hthere.trans hmoves₂⟩

theorem path_sound {fuel : Nat} {found : Option Path} (hs : Stands size cs s)
    (h : path fuel s = .ok found s') :
    (found = none ∧ ∃ rest, NoPath cs rest ∧ Moves s rest 0 s') ∨
      ∃ p rest, found = some p ∧ Written.Path size cs p rest ∧ Moves s rest 0 s' := by
  obtain ⟨origin, s₁, horigin, h⟩ := bind_eq_ok h
  cases horigin
  rw [hs.offset] at h
  obtain ⟨found, s₁, hsegment, h⟩ := bind_eq_ok h
  -- every path that is given up puts the cursor back to where it was
  have hback : ∀ {rest : List Char} {s₁ s₂ : State} {u : Unit}, Moves s rest 0 s₁ →
      returnTo (place size cs) s₁ = .ok u s₂ → Moves s cs 0 s₂ := by
    intro rest s₁ s₂ u hmoves hreturn
    obtain ⟨s₃, hreturn', hon, hdepth, hconnectives⟩ := returnTo_eq hs hmoves.toOnward
    rw [hreturn'] at hreturn
    cases hreturn
    exact ⟨hon, hdepth.trans hmoves.depth, hconnectives.trans hmoves.connectives⟩
  rcases segment_sound hs hsegment with
    ⟨rfl, hno, hmoves⟩ | ⟨text, quoted, token, r, rfl, hsegment, htook⟩
  · obtain ⟨u, s₂, hreturn, h⟩ := bind_eq_ok h
    obtain ⟨rfl, rfl⟩ := pure_eq_ok h
    exact Or.inl ⟨rfl, cs, .blank hno, hback hmoves hreturn⟩
  · obtain ⟨first, s₂, hfirst, h⟩ := bind_eq_ok h
    cases hfirst
    have hreserved : s₁.scanner.token.isOneOf Keyword.reserved = isReserved token := by
      rw [htook.token]; rfl
    split at h
    · next hbarred =>
        obtain ⟨u, s₂, hunread, h⟩ := bind_eq_ok h
        obtain ⟨rfl, rfl⟩ := pure_eq_ok h
        obtain ⟨s₃, hunread', hmoves⟩ := unread_eq hs hsegment.split htook
        rw [hunread'] at hunread
        cases hunread
        rw [hreserved, Bool.and_eq_true] at hbarred
        cases hsegment with
        | name htake =>
            exact Or.inl ⟨rfl, token ++ r, .reserved htake hbarred.2, hmoves⟩
        | quoted hnoName htake => simp at hbarred
    · next hfree =>
        rw [hreserved, Bool.not_eq_true] at hfree
        obtain ⟨found, s₂, htail, h⟩ := bind_eq_ok h
        rcases pathTail_sound (htook.stands hs) htail with
          ⟨rfl, hno, rest, hmoves⟩ | ⟨more, others, rest, rfl, htail, hmoves⟩
        · obtain ⟨u, s₃, hreturn, h⟩ := bind_eq_ok h
          obtain ⟨rfl, rfl⟩ := pure_eq_ok h
          exact Or.inl ⟨rfl, cs, .broken hsegment hfree hno,
            hback (htook.toMoves.trans hmoves) hreturn⟩
        · obtain ⟨stop, s₃, hstop, h⟩ := bind_eq_ok h
          cases hstop
          obtain ⟨rfl, rfl⟩ := pure_eq_ok h
          have hthere := htook.toMoves.trans hmoves
          rw [htook.token, (hthere.stands hs).offset]
          exact Or.inr ⟨_, rest, rfl, .mk hsegment hfree htail, hthere⟩

/-- A path that has to be there is written. -/
theorem requirePath_sound {fuel : Nat} {e : Expectation} {p : Path} (hs : Stands size cs s)
    (h : require e (path fuel) s = .ok p s') :
    ∃ rest, Written.Path size cs p rest ∧ Moves s rest 0 s' := by
  rcases path_sound hs (require_eq_ok h) with ⟨hnone, -⟩ | ⟨p', rest, hsome, hpath, hmoves⟩
  · cases hnone
  · cases hsome
    exact ⟨rest, hpath, hmoves⟩

end DocQuery.Grammar
