import DocQuery.Proofs.Grammar.Sound.Clause

/-!
# Orderly ends

However a reader of the grammar ends, it still stands in its text, and if it
failed, then because it refused the text: it never meets a fault and never runs
out of fuel.  The readers are taken one by one in the order of the grammar, each
with the fuel that it needs for the characters ahead of it.
-/

namespace DocQuery.Grammar

open Lexical Written

variable {α β : Type} {size : Nat} {cs : List Char} {s s' : State}

/-! ## Ends of a run -/

/-- The run ended in the text, with an answer or by refusing the text. -/
inductive Orderly (size : Nat) : EStateM.Result Failure State α → Prop where
  | answered {cs : List Char} {s : State} (a : α) (hs : Stands size cs s) :
      Orderly size (.ok a s)
  | refused {cs : List Char} {s : State} (error : Error) (hs : Stands size cs s) :
      Orderly size (.error (.rejected error) s)

namespace Orderly

theorem stands_of_ok {a : α} (h : Orderly size (.ok a s)) : ∃ cs, Stands size cs s := by
  cases h with
  | answered _ hs => exact ⟨_, hs⟩

theorem pure (a : α) (hs : Stands size cs s) : Orderly size ((Pure.pure a : Read α) s) :=
  .answered a hs

theorem bind {x : Read α} {f : α → Read β} (hx : Orderly size (x s))
    (hf : ∀ a s₁, x s = .ok a s₁ → Orderly size (f a s₁)) : Orderly size ((x >>= f) s) := by
  cases hresult : x s with
  | error failure s₁ =>
      rw [bind_of_error f hresult]
      rw [hresult] at hx
      cases hx with
      | refused error hs => exact .refused error hs
  | ok a s₁ =>
      rw [bind_of_ok f hresult]
      exact hf a s₁ hresult

/-- Behind steps that leave the reader standing. -/
theorem after {x : Read α} {f : α → Read β} (hx : Orderly size (x s))
    (hf : ∀ a cs₁ s₁, Stands size cs₁ s₁ → Orderly size (f a s₁)) :
    Orderly size ((x >>= f) s) := by
  refine hx.bind fun a s₁ hresult => ?_
  rw [hresult] at hx
  obtain ⟨cs₁, hs₁⟩ := hx.stands_of_ok
  exact hf a cs₁ s₁ hs₁

end Orderly

/-! ## Steps of the scanner -/

theorem Stands.accept (gap count : Nat) (hs : Stands size cs s) :
    Stands size (cs.drop (gap + count)) { s with scanner := s.scanner.accept gap count } :=
  ⟨by simp [Scanner.accept, Scanner.forward, hs.ahead], hs.size_eq⟩

theorem orderly_measure (rule : Rule α) (hs : Stands size cs s) :
    Orderly size (scan (Scanner.measure rule) s) := by
  rw [scan_of_ok (measure_eq rule hs)]
  cases rule (Trivia.rest cs) with
  | none => exact .answered _ hs
  | some found => exact .answered _ (hs.accept _ _)

theorem orderly_recognise (measure : List Char → Option Nat) (hs : Stands size cs s) :
    Orderly size (scan (Scanner.recognise measure) s) := by
  rw [recognise_eq]
  exact (orderly_measure _ hs).after fun found _ _ hs₁ => .pure found.isSome hs₁

theorem orderly_firstOf (table : List (String × α)) (hs : Stands size cs s) :
    Orderly size (scan (Scanner.firstOf table) s) := by
  rw [firstOf_eq table hs]
  exact orderly_measure _ hs

theorem orderly_quoted (hs : Stands size cs s) : Orderly size (scan Scanner.quoted s) := by
  rw [quoted_eq]
  refine (orderly_measure _ hs).after fun found _ _ hs₁ => ?_
  cases found with
  | none => exact .pure false hs₁
  | some escapes => exact .answered true ⟨hs₁.ahead, hs₁.size_eq⟩

theorem orderly_peek (c : Char) (hs : Stands size cs s) :
    Orderly size (scan (Scanner.peek c) s) := by
  rw [peek_eq c hs]
  exact .answered _ hs

theorem orderly_next (hs : Stands size cs s) : Orderly size (scan Scanner.next s) := by
  simp only [scan, Scanner.next, Scanner.read_of_ahead hs.ahead, bind, Except.bind]
  cases Quoted.size? (Trivia.rest cs) with
  | none => exact .answered _ (hs.accept _ _)
  | some found =>
      have hthere := hs.accept (Trivia.length cs) found.length
      exact .answered _ ⟨hthere.ahead, hthere.size_eq⟩

/-! ## Refusals and limits -/

theorem orderly_refuse (e : Expectation) (hs : Stands size cs s) :
    Orderly size ((refuse e : Read α) s) := by
  refine (Orderly.answered _ hs).bind fun cursor s₁ hcursor => ?_
  cases hcursor
  exact (orderly_next hs).after fun _ _ _ hs₁ => .refused _ hs₁

theorem orderly_decline (cause : Refusal) (hs : Stands size cs s) :
    Orderly size ((decline cause : Read α) s) :=
  .refused _ hs

theorem orderly_require {part : Read (Option α)} (e : Expectation)
    (hpart : Orderly size (part s)) : Orderly size (require e part s) := by
  refine hpart.after fun found _ _ hs₁ => ?_
  cases found with
  | none => exact orderly_refuse e hs₁
  | some a => exact .pure a hs₁

theorem orderly_expectChar (c : Char) (e : Expectation) (hs : Stands size cs s) :
    Orderly size (expectChar c e s) := by
  refine (orderly_recognise _ hs).after fun found _ _ hs₁ => ?_
  cases found with
  | false => exact orderly_refuse e hs₁
  | true => exact .pure () hs₁

theorem orderly_expectKeyword (keyword : Keyword) (e : Expectation) (hs : Stands size cs s) :
    Orderly size (expectKeyword keyword e s) := by
  refine (orderly_recognise _ hs).after fun found _ _ hs₁ => ?_
  cases found with
  | false => exact orderly_refuse e hs₁
  | true => exact .pure () hs₁

theorem orderly_enter (limits : Limits) (hs : Stands size cs s) :
    Orderly size (enter limits s) := by
  have hinside : Stands size cs { s with depth := s.depth + 1 } := ⟨hs.ahead, hs.size_eq⟩
  rw [enter_eq]
  split
  · exact .refused _ hinside
  · exact .answered () hinside

theorem orderly_countConnective (limits : Limits) (hs : Stands size cs s) :
    Orderly size (countConnective limits s) := by
  have hcounted : Stands size cs { s with connectives := s.connectives + 1 } :=
    ⟨hs.ahead, hs.size_eq⟩
  rw [countConnective_eq]
  split
  · exact .refused _ hcounted
  · exact .answered () hcounted

/-- Only a reader that is inside of something can come out of it. -/
theorem orderly_leave (hs : Stands size cs s) (hdepth : 0 < s.depth) :
    Orderly size (leave s) := by
  obtain ⟨depth, hsucc⟩ := Nat.exists_eq_add_one_of_ne_zero (Nat.ne_of_gt hdepth)
  rw [leave_of_depth hsucc]
  exact .answered () ⟨hs.ahead, hs.size_eq⟩

/-! ## Values -/

theorem orderly_token (hs : Stands size cs s) : Orderly size (token s) :=
  .answered _ hs

theorem orderly_tokenValue (kind : ValueKind) (escaped : Bool) (hs : Stands size cs s) :
    Orderly size (tokenValue kind escaped s) :=
  .answered _ hs

theorem orderly_parameter (hs : Stands size cs s) : Orderly size (parameter s) := by
  refine (Orderly.answered _ hs).bind fun start s₁ hstart => ?_
  cases hstart
  refine (orderly_recognise _ hs).after fun named _ _ hs₁ => ?_
  cases named with
  | false => exact orderly_refuse _ hs₁
  | true =>
      refine (orderly_token hs₁).after (fun token _ _ hs₂ => ?_)
      split
      · exact orderly_tokenValue _ _ hs₂
      · exact orderly_refuse _ hs₂

theorem orderly_value (hs : Stands size cs s) : Orderly size (value s) := by
  refine (orderly_measure _ hs).after fun numeral _ _ hs₁ => ?_
  cases numeral with
  | some kind =>
      exact (orderly_tokenValue _ _ hs₁).after fun v _ _ hs₂ => .pure (some v) hs₂
  | none =>
      refine (orderly_quoted hs₁).after fun text _ _ hs₂ => ?_
      cases text with
      | true => exact .answered _ hs₂
      | false =>
          refine (orderly_firstOf _ hs₂).after fun literal _ _ hs₃ => ?_
          cases literal with
          | some keyword => exact .answered _ hs₃
          | none =>
              refine (orderly_recognise _ hs₃).after fun dollar _ _ hs₄ => ?_
              cases dollar with
              | false => exact .pure none hs₄
              | true => exact (orderly_parameter hs₄).after fun v _ _ hs₅ => .pure (some v) hs₅

/-! ## Paths -/

theorem orderly_segment (beginning : Bool) (hs : Stands size cs s) :
    Orderly size (segment beginning s) := by
  refine (orderly_recognise _ hs).bind fun named s₁ hname => ?_
  rcases identifier_eq_ok hs hname with ⟨rfl, -, rfl⟩ | ⟨token, rest, rfl, -, htook⟩
  · refine (orderly_quoted hs).bind fun text s₂ hquoted => ?_
    rcases quoted_eq_ok hs hquoted with
      ⟨rfl, -, rfl⟩ | ⟨escapes, token, rest, rfl, htake, htook, -⟩
    · exact .pure none hs
    · have hs₂ := htook.stands hs
      refine (Orderly.answered _ hs₂).bind fun state s₃ hstate => ?_
      cases hstate
      simp only [content_quoted htake htook.token]
      exact .pure _ hs₂
  · exact .answered _ (htook.stands hs)

theorem orderly_indexNumber (hs : Stands size cs s) : Orderly size (indexNumber s) := by
  refine (orderly_measure _ hs).after fun numeral _ _ hs₁ => ?_
  cases numeral with
  | none => exact .pure "" hs₁
  | some kind =>
      cases kind with
      | double => exact orderly_refuse _ hs₁
      | long =>
          refine (orderly_token hs₁).after fun token _ _ hs₂ => ?_
          split
          · exact orderly_refuse _ hs₂
          · exact .pure _ hs₂

theorem orderly_index (hs : Stands size cs s) : Orderly size (index s) := by
  refine (orderly_recognise _ hs).after fun opened _ _ hs₁ => ?_
  cases opened with
  | false => exact .pure "" hs₁
  | true =>
      refine (orderly_indexNumber hs₁).after fun number _ _ hs₂ => ?_
      exact (orderly_expectChar _ _ hs₂).after fun _ _ _ hs₃ => .pure _ hs₃

theorem orderly_pathTail {fuel : Nat} (hs : Stands size cs s) (hfuel : cs.length < fuel) :
    Orderly size (pathTail fuel s) := by
  induction fuel generalizing cs s with
  | zero => omega
  | succ fuel ih =>
      refine (orderly_index hs).bind fun bracket s₁ hindex => ?_
      obtain ⟨r, hindex, hmoves⟩ := index_sound hs hindex
      have hr := hmoves.stands hs
      refine (orderly_recognise _ hr).bind fun dot s₂ hdot => ?_
      rcases char_eq_ok hr hdot with ⟨rfl, -, rfl⟩ | ⟨r₁, rfl, hmark, htook⟩
      · exact .pure _ hr
      · have hr₁ := htook.stands hr
        refine (orderly_segment _ hr₁).bind fun next s₃ hsegment => ?_
        rcases segment_sound hr₁ hsegment with
          ⟨rfl, -, hmoves₁⟩ | ⟨text, quoted, token, r₂, rfl, hsegment, htook₁⟩
        · exact .pure none (hmoves₁.stands hr₁)
        · have h₁ := hindex.length_le
          have h₂ := hmark.length_lt
          have h₃ := hsegment.length_lt
          refine (ih (htook₁.stands hr₁) (by omega)).after fun more _ _ hs₄ => ?_
          cases more with
          | none => exact .pure none hs₄
          | some found => exact .pure _ hs₄

theorem orderly_path {fuel : Nat} (hs : Stands size cs s) (hfuel : cs.length ≤ fuel) :
    Orderly size (path fuel s) := by
  refine (Orderly.answered _ hs).bind fun origin s₁ horigin => ?_
  cases horigin
  rw [hs.offset]
  -- a path that is given up puts the cursor back to where it was
  have hback : ∀ {rest : List Char} {s₁ : State}, Moves s rest 0 s₁ →
      Orderly size ((do returnTo (place size cs); return none : Read (Option Path)) s₁) := by
    intro rest s₁ hmoves
    obtain ⟨s₂, hreturn, hon, -, -⟩ := returnTo_eq hs hmoves.toOnward
    rw [bind_of_ok _ hreturn]
    exact .pure none (hon.stands hs)
  refine (orderly_segment _ hs).bind fun found s₁ hsegment => ?_
  rcases segment_sound hs hsegment with
    ⟨rfl, -, hmoves⟩ | ⟨text, quoted, token, r, rfl, hsegment, htook⟩
  · exact hback hmoves
  · have hr := htook.stands hs
    refine (Orderly.answered _ hr).bind fun first s₂ hfirst => ?_
    cases hfirst
    split
    · obtain ⟨s₃, hunread, hmoves⟩ := unread_eq hs hsegment.split htook
      rw [bind_of_ok _ hunread]
      exact .pure none (hmoves.stands hs)
    · have hlength := hsegment.length_lt
      refine (orderly_pathTail hr (by omega)).bind fun found s₂ htail => ?_
      rcases pathTail_sound hr htail with
        ⟨rfl, -, rest, hmoves⟩ | ⟨more, others, rest, rfl, -, hmoves⟩
      · exact hback (htook.toMoves.trans hmoves)
      · exact .answered _ (hmoves.stands hr)

/-! ## Tests -/

theorem orderly_bounds (subject : Path) (hs : Stands size cs s) :
    Orderly size (bounds subject s) := by
  refine (orderly_require _ (orderly_value hs)).after fun low _ _ hs₁ => ?_
  refine (orderly_expectKeyword _ _ hs₁).after fun _ _ _ hs₂ => ?_
  refine (orderly_require _ (orderly_value hs₂)).after fun high _ _ hs₃ => ?_
  split
  · exact .pure _ hs₃
  · exact orderly_decline _ hs₃

theorem orderly_moreValues {kind : ValueKind} {fuel : Nat} (hs : Stands size cs s)
    (hfuel : cs.length < fuel) : Orderly size (moreValues kind fuel s) := by
  induction fuel generalizing cs s with
  | zero => omega
  | succ fuel ih =>
      refine (orderly_recognise _ hs).bind fun closed s₁ hclose => ?_
      rcases char_eq_ok hs hclose with ⟨rfl, -, rfl⟩ | ⟨rest, rfl, -, htook⟩
      · refine (orderly_expectChar _ _ hs).bind fun u s₁ hcomma => ?_
        obtain ⟨r, hcomma, htook⟩ := expectChar_eq_ok hs hcomma
        have hr := htook.stands hs
        refine (orderly_require _ (orderly_value hr)).bind fun next s₂ hnext => ?_
        obtain ⟨r₁, hnext, hmoves⟩ := requireValue_sound hr hnext
        split
        · have h₁ := hcomma.length_lt
          have h₂ := hnext.length_lt
          exact (ih (hmoves.stands hr) (by omega)).after fun _ _ _ hs₃ => .pure _ hs₃
        · exact orderly_decline _ (hmoves.stands hr)
      · exact .pure [] (htook.stands hs)

theorem orderly_valueList {fuel : Nat} (hs : Stands size cs s) (hfuel : cs.length ≤ fuel) :
    Orderly size (valueList fuel s) := by
  refine (orderly_expectChar _ _ hs).bind fun u s₁ hopen => ?_
  obtain ⟨r, hopen, htook⟩ := expectChar_eq_ok hs hopen
  have hr := htook.stands hs
  refine (orderly_recognise _ hr).bind fun closed s₂ hclose => ?_
  rcases char_eq_ok hr hclose with ⟨rfl, -, rfl⟩ | ⟨rest, rfl, -, htook₁⟩
  · refine (orderly_require _ (orderly_value hr)).bind fun first s₂ hfirst => ?_
    obtain ⟨r₁, hfirst, hmoves⟩ := requireValue_sound hr hfirst
    have h₁ := hopen.length_lt
    have h₂ := hfirst.length_lt
    exact (orderly_moreValues (hmoves.stands hr) (by omega)).after fun _ _ _ hs₃ => .pure _ hs₃
  · exact .pure [] (htook₁.stands hr)

theorem orderly_test (subject : Path) {fuel : Nat} (found : Test) (hs : Stands size cs s)
    (hfuel : cs.length ≤ fuel) : Orderly size (test subject fuel found s) := by
  cases found with
  | compare comparison =>
      exact (orderly_require _ (orderly_value hs)).after fun _ _ _ hs₁ => .pure _ hs₁
  | between => exact orderly_bounds subject hs
  | within all => exact (orderly_valueList hs hfuel).after fun _ _ _ hs₁ => .pure _ hs₁

theorem orderly_trailingTest {fuel : Nat} (hs : Stands size cs s) (hfuel : cs.length ≤ fuel) :
    Orderly size (trailingTest fuel s) := by
  refine (Orderly.answered _ hs).bind fun place s₁ hplace => ?_
  cases hplace
  refine (orderly_firstOf _ hs).bind fun found s₁ hfound => ?_
  rcases firstOf_eq_ok hs hfound with ⟨rfl, -, rfl⟩ | ⟨found, token, r, rfl, htake, htook⟩
  · exact .pure none hs
  · have hlength := htake.length_lt (Rule.sized_firstOf _)
    exact (orderly_test _ found (htook.stands hs) (by omega)).after
      fun _ _ _ hs₁ => .pure _ hs₁

/-! ## Conditions -/

/--
The readers of conditions end orderly with the fuel that they need.  Each nested
reader is called with one less; a character is worth four, which is more than
the nested calls before one is taken.
-/
structure Enough (limits : Limits) (fuel : Nat) : Prop where
  condition : ∀ {size : Nat} {cs : List Char} {s : State}, Stands size cs s →
    4 * cs.length + 3 ≤ fuel → Orderly size (condition limits fuel s)
  links : ∀ {size : Nat} {cs : List Char} {s : State}, Stands size cs s →
    4 * cs.length + 1 ≤ fuel → Orderly size (links limits fuel s)
  operand : ∀ {size : Nat} {cs : List Char} {s : State}, Stands size cs s →
    4 * cs.length + 2 ≤ fuel → Orderly size (operand limits fuel s)
  predicate : ∀ {size : Nat} {cs : List Char} {s : State}, Stands size cs s →
    4 * cs.length + 1 ≤ fuel → Orderly size (predicate limits fuel s)
  /-- The reader is inside of the call. -/
  arguments : ∀ {size : Nat} {cs : List Char} {s : State} {first : Bool}, Stands size cs s →
    0 < s.depth → 4 * cs.length + (if first then 5 else 1) ≤ fuel →
    Orderly size (arguments limits first fuel s)
  argument : ∀ {size : Nat} {cs : List Char} {s : State}, Stands size cs s →
    4 * cs.length + 4 ≤ fuel → Orderly size (argument limits fuel s)

namespace Enough

variable {limits : Limits} {fuel : Nat}

theorem condition_succ (ih : Enough limits fuel) (hs : Stands size cs s)
    (hfuel : 4 * cs.length + 3 ≤ fuel + 1) :
    Orderly size (Grammar.condition limits (fuel + 1) s) := by
  refine (ih.operand hs (by omega)).bind fun found s₁ hfound => ?_
  cases found with
  | none =>
      have hend := ih.operand hs (by omega)
      rw [hfound] at hend
      obtain ⟨cs₁, hs₁⟩ := hend.stands_of_ok
      exact .pure none hs₁
  | some first =>
      obtain ⟨o, r, hoperand, -, hmoves⟩ := (sound limits fuel).operand hs hfound
      have hlength := hoperand.length_lt
      exact (ih.links (hmoves.stands hs) (by omega)).after fun _ _ _ hs₁ => .pure _ hs₁

theorem links_succ (ih : Enough limits fuel) (hs : Stands size cs s)
    (hfuel : 4 * cs.length + 1 ≤ fuel + 1) :
    Orderly size (Grammar.links limits (fuel + 1) s) := by
  refine (orderly_firstOf _ hs).bind fun found s₁ hword => ?_
  rcases anyKeyword_eq_ok hs hword with ⟨rfl, -, rfl⟩ | ⟨keyword, token, r, rfl, htake, htook⟩
  · exact .pure [] hs
  · refine (orderly_countConnective limits (htook.stands hs)).bind fun u s₂ hcount => ?_
    obtain rfl := countConnective_eq_ok hcount
    have hr : Stands size r { s₁ with connectives := s₁.connectives + 1 } :=
      ⟨htook.ahead, (htook.stands hs).size_eq⟩
    refine (orderly_recognise _ hr).bind fun negated s₃ hnot => ?_
    obtain ⟨r₁, hr₁, hle⟩ : ∃ r₁, Stands size r₁ s₃ ∧ r₁.length ≤ r.length := by
      rcases keyword_eq_ok hr hnot with ⟨-, -, rfl⟩ | ⟨token, r₁, -, htake, htook⟩
      · exact ⟨r, hr, Nat.le_refl _⟩
      · exact ⟨r₁, htook.stands hr, Nat.le_of_lt (htake.length_lt (Rule.sized_phrase _))⟩
    have h₁ := htake.length_lt (Rule.sized_firstOf _)
    refine (orderly_peek '(' hr₁).bind fun grouped s₄ hpeek => ?_
    rw [peek_eq '(' hr₁] at hpeek
    cases hpeek
    refine (orderly_require _ (ih.operand hr₁ (by omega))).bind fun next s₄ hnext => ?_
    obtain ⟨o, r₂, hoperand, -, hmoves⟩ := (sound limits fuel).operand hr₁ (require_eq_ok hnext)
    have h₂ := hoperand.length_lt
    exact (ih.links (hmoves.stands hr₁) (by omega)).after fun _ _ _ hs₅ => .pure _ hs₅

theorem operand_succ (ih : Enough limits fuel) (hs : Stands size cs s)
    (hfuel : 4 * cs.length + 2 ≤ fuel + 1) :
    Orderly size (Grammar.operand limits (fuel + 1) s) := by
  refine (orderly_recognise _ hs).bind fun opened s₁ hopen => ?_
  rcases char_eq_ok hs hopen with ⟨rfl, -, rfl⟩ | ⟨r, rfl, hmark, htook⟩
  · exact ih.predicate hs (by omega)
  · refine (orderly_enter limits (htook.stands hs)).bind fun u s₂ henter => ?_
    obtain rfl := enter_eq_ok henter
    have hr : Stands size r { s₁ with depth := s₁.depth + 1 } :=
      ⟨htook.ahead, (htook.stands hs).size_eq⟩
    have hlength := hmark.length_lt
    have hend := ih.condition hr (by omega)
    refine hend.bind fun found s₃ hfound => ?_
    cases found with
    | none =>
        -- the group stays entered, but nobody will come out of it
        rw [hfound] at hend
        obtain ⟨cs₁, hs₁⟩ := hend.stands_of_ok
        exact .pure none hs₁
    | some inner =>
        obtain ⟨c, r₁, -, -, hmoves⟩ := (sound limits fuel).condition hr hfound
        have hr₁ := hmoves.stands hr
        refine (orderly_expectChar _ _ hr₁).bind fun u s₄ hclose => ?_
        obtain ⟨rest, -, htook₁⟩ := expectChar_eq_ok hr₁ hclose
        have hdepth : 0 < s₄.depth := by
          rw [htook₁.depth, hmoves.depth]
          exact Nat.succ_pos _
        exact (orderly_leave (htook₁.stands hr₁) hdepth).after fun _ _ _ hs₅ => .pure _ hs₅

theorem predicate_succ (ih : Enough limits fuel) (hs : Stands size cs s)
    (hfuel : 4 * cs.length + 1 ≤ fuel + 1) :
    Orderly size (Grammar.predicate limits (fuel + 1) s) := by
  refine (orderly_recognise _ hs).bind fun isTrue s₁ htrue => ?_
  rcases keyword_eq_ok hs htrue with ⟨rfl, -, rfl⟩ | ⟨token, rest, rfl, -, htook⟩
  · refine (orderly_path hs (by omega)).bind fun found s₁ hpath => ?_
    rcases path_sound hs hpath with ⟨rfl, rest, -, hmoves⟩ | ⟨subject, r, rfl, hpath, hmoves⟩
    · exact .pure none (hmoves.stands hs)
    · have hr := hmoves.stands hs
      refine (orderly_firstOf _ hr).bind fun found s₂ hfound => ?_
      rcases firstOf_eq_ok hr hfound with ⟨rfl, -, rfl⟩ | ⟨found, token, r₁, rfl, htake, htook⟩
      · exact orderly_refuse _ hr
      · have hr₁ := htook.stands hr
        have h₁ := hpath.length_lt
        have h₂ := htake.length_lt (Rule.sized_firstOf _)
        cases found with
        | some found =>
            exact (orderly_test _ found hr₁ (by omega)).after fun _ _ _ hs₃ => .pure _ hs₃
        | none =>
            refine (orderly_enter limits hr₁).bind fun u s₃ henter => ?_
            obtain rfl := enter_eq_ok henter
            have hinside : Stands size r₁ { s₂ with depth := s₂.depth + 1 } :=
              ⟨hr₁.ahead, hr₁.size_eq⟩
            have hcall := @ih.arguments size r₁ { s₂ with depth := s₂.depth + 1 } true hinside
              (Nat.succ_pos _) (by simp only [if_true]; omega)
            refine hcall.bind fun found s₄ hfound => ?_
            obtain ⟨arguments, r₂, harguments, -, hon, -, -⟩ :=
              (sound limits fuel).arguments hinside hfound
            have h₃ := harguments.length_lt
            refine (orderly_trailingTest (hon.stands hinside) (by omega)).after
              fun trailing _ _ hs₅ => ?_
            cases trailing with
            | none => exact .pure _ hs₅
            | some last => exact .pure _ hs₅
  · exact .pure _ (htook.stands hs)

theorem arguments_succ (ih : Enough limits fuel) {first : Bool} (hs : Stands size cs s)
    (hdepth : 0 < s.depth) (hfuel : 4 * cs.length + (if first then 5 else 1) ≤ fuel + 1) :
    Orderly size (Grammar.arguments limits first (fuel + 1) s) := by
  -- an argument that there is fuel for, and the others behind it
  have hothers : ∀ {r : List Char} {s₁ : State}, Stands size r s₁ → 0 < s₁.depth →
      r.length ≤ cs.length → 4 * r.length + 4 ≤ fuel →
      Orderly size ((do
        let next ← Grammar.argument limits fuel
        return next :: (← Grammar.arguments limits false fuel)) s₁) := by
    intro r s₁ hr hpos hle hfuel
    refine (ih.argument hr hfuel).bind fun next s₂ hnext => ?_
    obtain ⟨argument, r₁, hargument, -, hmoves⟩ := (sound limits fuel).argument hr hnext
    have hlength := hargument.length_lt
    have hrest := @ih.arguments size r₁ s₂ false (hmoves.stands hr) (by rwa [hmoves.depth])
      (by simp only [Bool.false_eq_true, if_false]; omega)
    exact hrest.after fun _ _ _ hs₃ => .pure _ hs₃
  refine (orderly_recognise _ hs).bind fun closed s₁ hclose => ?_
  rcases char_eq_ok hs hclose with ⟨rfl, -, rfl⟩ | ⟨rest, rfl, -, htook⟩
  · cases first with
    | true => exact hothers hs hdepth (Nat.le_refl _) (by simp only [if_true] at hfuel; omega)
    | false =>
        simp only [Bool.false_eq_true, if_false] at hfuel ⊢
        refine (orderly_expectChar _ _ hs).bind fun u s₁ hcomma => ?_
        obtain ⟨r, hcomma, htook⟩ := expectChar_eq_ok hs hcomma
        have hlength := hcomma.length_lt
        exact hothers (htook.stands hs) (by rwa [htook.depth]) (by omega) (by omega)
  · have hinside : 0 < s₁.depth := by rwa [htook.depth]
    exact (orderly_leave (htook.stands hs) hinside).after fun _ _ _ hs₂ => .pure [] hs₂

theorem argument_succ (ih : Enough limits fuel) (hs : Stands size cs s)
    (hfuel : 4 * cs.length + 4 ≤ fuel + 1) :
    Orderly size (Grammar.argument limits (fuel + 1) s) := by
  refine (orderly_value hs).bind fun found s₁ hvalue => ?_
  rcases value_sound hs hvalue with ⟨rfl, -, hmoves⟩ | ⟨v, rest, rfl, -, hmoves⟩
  · have hthere := hmoves.stands hs
    refine (Orderly.answered _ hthere).bind fun start s₂ hstart => ?_
    cases hstart
    rw [hthere.offset]
    refine (orderly_path hthere (by omega)).bind fun found s₂ hpath => ?_
    rcases path_sound hthere hpath with ⟨rfl, r, hno, hmoves₁⟩ | ⟨field, r, rfl, -, hmoves₁⟩
    · have hlength := hno.length_le
      exact orderly_require _ (ih.condition (hmoves₁.stands hthere) (by omega))
    · have hr := hmoves₁.stands hthere
      refine (orderly_peek ',' hr).bind fun isComma s₃ hcomma => ?_
      rw [peek_eq ',' hr] at hcomma
      cases hcomma
      split
      · exact .pure _ hr
      · refine (orderly_peek ')' hr).bind fun isClose s₃ hclose => ?_
        rw [peek_eq ')' hr] at hclose
        cases hclose
        split
        · exact .pure _ hr
        · obtain ⟨s₃, hreturn, hon, -, -⟩ := returnTo_eq hthere hmoves₁.toOnward
          rw [bind_of_ok _ hreturn]
          exact orderly_require _ (ih.condition (hon.stands hthere) (by omega))
  · exact .pure _ (hmoves.stands hs)

end Enough

/-- The readers of conditions end orderly, whatever their fuel is enough for. -/
theorem enough (limits : Limits) (fuel : Nat) : Enough limits fuel := by
  induction fuel with
  | zero =>
      have hnone : ∀ {n : Nat} {p : Prop}, n + 1 ≤ 0 → p :=
        fun h => absurd h (Nat.not_succ_le_zero _)
      refine ⟨fun _ h => hnone h, fun _ h => hnone h, fun _ h => hnone h, fun _ h => hnone h,
        fun {_ _ _ first} _ _ h => ?_, fun _ h => hnone h⟩
      cases first <;> exact hnone h
  | succ fuel ih =>
      exact ⟨ih.condition_succ, ih.links_succ, ih.operand_succ, ih.predicate_succ,
        ih.arguments_succ, ih.argument_succ⟩

/-! ## Clauses -/

/-- With so much more fuel than the characters need, the reader of a clause ends orderly. -/
structure Suffices (size extra : Nat) (reader : Nat → Read α) : Prop where
  orderly : ∀ {fuel : Nat} {cs : List Char} {s : State}, Stands size cs s →
    4 * cs.length + extra ≤ fuel → Orderly size (reader fuel s)

/-- Behind a part that is read with enough fuel, there is no more ahead than before. -/
theorem Suffices.next {reader : Nat → Read α} {part : Written.Part α} {extra fuel : Nat}
    (hreader : Suffices size extra reader) (hsound : Accepts size (reader fuel) part)
    (hspends : Spends part) (hs : Stands size cs s) (hfuel : 4 * cs.length + extra ≤ fuel)
    {f : α → Read β}
    (hf : ∀ a r s₁, Stands size r s₁ → r.length ≤ cs.length → Orderly size (f a s₁)) :
    Orderly size ((reader fuel >>= f) s) := by
  refine (hreader.orderly hs hfuel).bind fun a s₁ hresult => ?_
  obtain ⟨cost, r, hpart, hmoves⟩ := hsound hs hresult
  exact hf a r s₁ (hmoves.stands hs) (hspends.length_le hpart)

theorem suffices_commaSeparated {item : Nat → Read α} {part : Written.Part α} {extra : Nat}
    (hitem : Suffices size extra item) (hsound : ∀ fuel, Accepts size (item fuel) part)
    (hspends : Spends part) : Suffices size (extra + 1) (commaSeparated item) := by
  refine ⟨fun {fuel cs s} hs hfuel => ?_⟩
  induction fuel generalizing cs s with
  | zero => omega
  | succ fuel ih =>
      refine (hitem.orderly hs (by omega)).bind fun first s₁ hfirst => ?_
      obtain ⟨cost, r, hpart, hmoves⟩ := hsound fuel hs hfirst
      have hr := hmoves.stands hs
      have h₁ := hspends.length_le hpart
      refine (orderly_recognise _ hr).bind fun comma s₂ hcomma => ?_
      rcases char_eq_ok hr hcomma with ⟨rfl, -, rfl⟩ | ⟨r₁, rfl, hmark, htook⟩
      · exact .pure _ hr
      · have h₂ := hmark.length_lt
        exact (ih (htook.stands hr) (by omega)).after fun _ _ _ hs₃ => .pure _ hs₃

theorem suffices_optional {reader : Nat → Read α} {extra : Nat} (keyword : Keyword)
    (hreader : Suffices size extra reader) :
    Suffices size extra (fun fuel => optional keyword (reader fuel)) := by
  refine ⟨fun {fuel cs s} hs hfuel => ?_⟩
  refine (orderly_recognise _ hs).bind fun found s₁ hword => ?_
  rcases keyword_eq_ok hs hword with ⟨rfl, -, rfl⟩ | ⟨token, r, rfl, htake, htook⟩
  · exact .pure none hs
  · have hlength := htake.length_lt (Rule.sized_phrase _)
    exact (hreader.orderly (htook.stands hs) (by omega)).after fun _ _ _ hs₂ => .pure _ hs₂

theorem orderly_script (hs : Stands size cs s) : Orderly size (script s) := by
  refine (orderly_recognise _ hs).after fun found _ _ hs₁ => ?_
  cases found with
  | false => exact .pure none hs₁
  | true => exact .answered _ hs₁

theorem suffices_asName (needsAs : Bool) : Suffices size 0 (asName needsAs) := by
  refine ⟨fun {fuel cs s} hs hfuel => ?_⟩
  refine (orderly_firstOf _ hs).bind fun found s₁ hword => ?_
  rcases anyKeyword_eq_ok hs hword with ⟨rfl, -, rfl⟩ | ⟨keyword, token, r, rfl, htake, htook⟩
  · cases needsAs with
    | true => exact .pure none hs
    | false => exact (orderly_path hs (by omega)).after fun _ _ _ hs₂ => .pure _ hs₂
  · by_cases has : keyword = .as_
    · subst has
      have hlength := htake.length_lt (Rule.sized_firstOf _)
      exact (orderly_require _ (orderly_path (htook.stands hs) (by omega))).after
        fun _ _ _ hs₂ => .pure _ hs₂
    · obtain ⟨s₂, hunread, hmoves⟩ := unread_eq hs htake.split htook
      have hback : Orderly size ((do unread; return none : Read (Option String)) s₁) := by
        rw [bind_of_ok _ hunread]
        exact .pure none (hmoves.stands hs)
      cases keyword <;> first | exact hback | exact absurd rfl has

theorem suffices_argumentList (limits : Limits) : Suffices size 5 (argumentList limits) := by
  refine ⟨fun {fuel cs s} hs hfuel => ?_⟩
  refine (orderly_enter limits hs).bind fun u s₁ henter => ?_
  obtain rfl := enter_eq_ok henter
  exact (enough limits fuel).arguments ⟨hs.ahead, hs.size_eq⟩ (Nat.succ_pos _) hfuel

theorem suffices_filter (limits : Limits) (e : Expectation) :
    Suffices size 3 (fun fuel => require e (condition limits fuel)) :=
  ⟨fun hs hfuel => orderly_require e ((enough limits _).condition hs hfuel)⟩

theorem suffices_fieldOrCall (limits : Limits) : Suffices size 5 (fieldOrCall limits) := by
  refine ⟨fun {fuel cs s} hs hfuel => ?_⟩
  refine (orderly_path hs (by omega)).bind fun name s₁ hpath => ?_
  rcases path_sound hs hpath with ⟨rfl, rest, -, hmoves⟩ | ⟨name, r, rfl, hpath, hmoves⟩
  · exact .pure none (hmoves.stands hs)
  · have hr := hmoves.stands hs
    refine (orderly_recognise _ hr).bind fun opened s₂ hopen => ?_
    rcases char_eq_ok hr hopen with ⟨rfl, -, rfl⟩ | ⟨r₁, rfl, hmark, htook⟩
    · exact .pure _ hr
    · have h₁ := hpath.length_lt
      have h₂ := hmark.length_lt
      exact ((suffices_argumentList limits).orderly (htook.stands hr) (by omega)).after
        fun _ _ _ hs₃ => .pure _ hs₃

/-! ## Items -/

theorem suffices_groupField : Suffices size 0 groupField :=
  ⟨fun hs hfuel => orderly_require _ (orderly_path hs (by omega))⟩

theorem orderly_sortType (hs : Stands size cs s) : Orderly size (sortType s) := by
  refine (orderly_recognise _ hs).after fun found _ _ hs₁ => ?_
  cases found with
  | false => exact .pure _ hs₁
  | true => exact orderly_require _ (orderly_firstOf _ hs₁)

theorem orderly_ascending (hs : Stands size cs s) : Orderly size (ascending s) := by
  refine (orderly_firstOf _ hs).after fun found _ _ hs₁ => ?_
  cases found with
  | none => exact .pure true hs₁
  | some keyword => cases keyword <;> exact .pure _ hs₁

theorem suffices_orderTerm (limits : Limits) : Suffices size 5 (orderTerm limits) := by
  refine ⟨fun {fuel cs s} hs hfuel => ?_⟩
  refine (orderly_require _ ((suffices_fieldOrCall limits).orderly hs hfuel)).after fun key _ _ hs₁ => ?_
  refine (orderly_sortType hs₁).after fun sortType _ _ hs₂ => ?_
  exact (orderly_ascending hs₂).after fun _ _ _ hs₃ => .pure _ hs₃

theorem suffices_projection (limits : Limits) (clause : ProjectionClause) (needsAs : Bool) :
    Suffices size 5 (projection limits clause needsAs) := by
  refine ⟨fun {fuel cs s} hs hfuel => ?_⟩
  have hprojected : Orderly size (projected limits clause fuel s) := by
    refine ((suffices_fieldOrCall limits).orderly hs hfuel).after fun found _ _ hs₁ => ?_
    cases found with
    | some body => exact .pure body hs₁
    | none => exact (orderly_require _ (orderly_value hs₁)).after fun _ _ _ hs₂ => .pure _ hs₂
  refine hprojected.bind fun body s₁ hbody => ?_
  obtain ⟨cost, r, hpart, hmoves⟩ := projected_sound limits clause fuel hs hbody
  have hlength := hpart.cost_lt
  exact ((suffices_asName needsAs).orderly (hmoves.stands hs) (by omega)).after
    fun _ _ _ hs₂ => .pure _ hs₂

theorem suffices_includeEntry : Suffices size 0 includeEntry := by
  refine ⟨fun {fuel cs s} hs hfuel => ?_⟩
  refine (orderly_value hs).bind fun found s₁ hvalue => ?_
  rcases value_sound hs hvalue with ⟨rfl, -, hmoves⟩ | ⟨v, rest, rfl, -, hmoves⟩
  · exact (orderly_require _ (orderly_path (hmoves.stands hs) (by omega))).after
      fun _ _ _ hs₂ => .pure _ hs₂
  · exact .pure _ (hmoves.stands hs)

theorem suffices_selection (limits : Limits) : Suffices size 6 (selection limits) := by
  refine ⟨fun {fuel cs s} hs hfuel => ?_⟩
  refine (orderly_recognise _ hs).bind fun distinct s₁ hdistinct => ?_
  obtain ⟨r, hr, hle⟩ : ∃ r, Stands size r s₁ ∧ r.length ≤ cs.length := by
    rcases keyword_eq_ok hs hdistinct with ⟨-, -, rfl⟩ | ⟨token, r, -, htake, htook⟩
    · exact ⟨cs, hs, Nat.le_refl _⟩
    · exact ⟨r, htook.stands hs, Nat.le_of_lt (htake.length_lt (Rule.sized_phrase _))⟩
  refine (orderly_recognise _ hr).bind fun star s₂ hstar => ?_
  rcases char_eq_ok hr hstar with ⟨rfl, -, rfl⟩ | ⟨rest, rfl, -, htook⟩
  · refine (orderly_script hr).bind fun found s₃ hscript => ?_
    rcases script_sound hr hscript with ⟨rfl, -, rfl⟩ | ⟨body, rest, rfl, -, hmoves⟩
    · exact ((suffices_commaSeparated (suffices_projection limits .select true)
        (projection_sound limits .select true) (spends_projection true)).orderly hr (by omega)).after
          fun _ _ _ hs₄ => .pure _ hs₄
    · exact .pure _ (hmoves.stands hr)
  · exact .pure _ (htook.stands hr)

/-! ## The source -/

theorem suffices_sourceFilter (limits : Limits) : Suffices size 3 (sourceFilter limits) := by
  refine ⟨fun {fuel cs s} hs hfuel => ?_⟩
  refine (orderly_recognise _ hs).bind fun opened s₁ hopen => ?_
  rcases char_eq_ok hs hopen with ⟨rfl, -, rfl⟩ | ⟨r, rfl, hmark, htook⟩
  · exact .pure none hs
  · refine (orderly_enter limits (htook.stands hs)).bind fun u s₂ henter => ?_
    obtain rfl := enter_eq_ok henter
    have hr : Stands size r { s₁ with depth := s₁.depth + 1 } :=
      ⟨htook.ahead, (htook.stands hs).size_eq⟩
    have hlength := hmark.length_lt
    refine ((suffices_filter limits .sourceFilter).orderly hr (by omega)).bind fun filter s₃ hfilter => ?_
    obtain ⟨cost, r₁, -, hmoves⟩ := filter_sound limits .sourceFilter fuel hr hfilter
    have hr₁ := hmoves.stands hr
    refine (orderly_expectChar _ _ hr₁).bind fun u s₄ hclose => ?_
    obtain ⟨rest, -, htook₁⟩ := expectChar_eq_ok hr₁ hclose
    have hdepth : 0 < s₄.depth := by
      rw [htook₁.depth, hmoves.depth]
      exact Nat.succ_pos _
    exact (orderly_leave (htook₁.stands hr₁) hdepth).after fun _ _ _ hs₅ => .pure _ hs₅

theorem suffices_source (limits : Limits) : Suffices size 3 (source limits) := by
  refine ⟨fun {fuel cs s} hs hfuel => ?_⟩
  refine (orderly_expectKeyword _ _ hs).bind fun u s₁ hstart => ?_
  obtain ⟨token, r, hfrom, htook⟩ := expectKeyword_eq_ok hs hstart
  have hr := htook.stands hs
  have h₁ := hfrom.length_lt (Rule.sized_phrase _)
  refine (orderly_recognise _ hr).bind fun isIndex s₂ hindex => ?_
  obtain ⟨r₁, hr₁, hle⟩ : ∃ r₁, Stands size r₁ s₂ ∧ r₁.length ≤ r.length := by
    rcases keyword_eq_ok hr hindex with ⟨-, -, rfl⟩ | ⟨token, r₁, -, htake, htook⟩
    · exact ⟨r, hr, Nat.le_refl _⟩
    · exact ⟨r₁, htook.stands hr, Nat.le_of_lt (htake.length_lt (Rule.sized_phrase _))⟩
  refine (orderly_require _ (orderly_segment true hr₁)).bind fun name s₃ hname => ?_
  rcases segment_sound hr₁ (require_eq_ok hname) with
    ⟨hnone, -, -⟩ | ⟨text, quoted, token, r₂, hsome, hsegment, htook₂⟩
  · cases hnone
  · cases hsome
    have hr₂ := htook₂.stands hr₁
    have h₂ := hsegment.length_lt
    refine (orderly_token hr₂).bind fun first s₄ hfirst => ?_
    cases hfirst
    have hname : ∀ {filter : Option Expr} {r₃ : List Char} {s₄ : State}, Stands size r₃ s₄ →
        r₃.length ≤ r₂.length →
        Orderly size ((do
          let asName ← asName false fuel
          return ⟨⟨text, s₃.scanner.token.span, quoted⟩, asName, filter, isIndex⟩ :
            Read Source) s₄) := by
      intro filter r₃ s₄ hr₃ hle
      exact ((suffices_asName false).orderly hr₃ (by omega)).after fun _ _ _ hs₅ => .pure _ hs₅
    cases isIndex with
    | true => exact hname hr₂ (Nat.le_refl _)
    | false =>
        refine ((suffices_sourceFilter limits).orderly hr₂ (by omega)).bind fun filter s₄ hfilter => ?_
        obtain ⟨cost, r₃, hpart, hmoves⟩ := sourceFilter_sound limits fuel hr₂ hfilter
        exact hname (hmoves.stands hr₂) (spends_sourceFilter.length_le hpart)

/-! ## Declared functions -/

theorem suffices_declaration (limits : Limits) : Suffices size 5 (declaration limits) := by
  refine ⟨fun {fuel cs s} hs hfuel => ?_⟩
  refine (orderly_expectKeyword _ _ hs).bind fun u s₁ hword => ?_
  obtain ⟨keyword, r, hkeyword, htook⟩ := expectKeyword_eq_ok hs hword
  have hr := htook.stands hs
  refine (orderly_token hr).bind fun first s₂ hfirst => ?_
  cases hfirst
  refine (orderly_recognise _ hr).bind fun named s₂ hfound => ?_
  rcases identifier_eq_ok hr hfound with ⟨rfl, -, rfl⟩ | ⟨name, r₁, rfl, hname, htook₁⟩
  · exact orderly_refuse _ hr
  · have hr₁ := htook₁.stands hr
    refine (orderly_token hr₁).bind fun last s₃ hlast => ?_
    cases hlast
    refine (orderly_expectChar _ _ hr₁).bind fun u s₃ hopened => ?_
    obtain ⟨r₂, hopen, htook₂⟩ := expectChar_eq_ok hr₁ hopened
    have hr₂ := htook₂.stands hr₁
    have h₁ := hkeyword.length_lt (Rule.sized_phrase _)
    have h₂ := hname.length_lt (Rule.sized_identifier true)
    have h₃ := hopen.length_lt
    refine ((suffices_argumentList limits).orderly hr₂ (by omega)).bind fun found s₄ hfound => ?_
    obtain ⟨arguments, r₃, harguments, -, hmoves⟩ := argumentList_sound hr₂ hfound
    have hr₃ := hmoves.stands hr₂
    refine (orderly_require _ (orderly_script hr₃)).bind fun body s₅ hbody => ?_
    rcases script_sound hr₃ (require_eq_ok hbody) with
      ⟨hnone, -, -⟩ | ⟨body', rest, hsome, hscript, hmoves₁⟩
    · cases hnone
    · have hall := (((htook.toMoves.next htook₁.toMoves).next htook₂.toMoves).next
        hmoves).trans hmoves₁
      have h₄ := harguments.length_lt
      have h₅ := hscript.length_lt
      obtain ⟨text, -, htext⟩ :=
        textFrom_since hs hkeyword.split htook hall.toOnward (by omega)
      rw [bind_of_ok _ htext]
      exact .pure _ (hall.stands hs)

theorem suffices_declarations (limits : Limits) (known : Functions) :
    Suffices size 6 (declarations limits known) := by
  refine ⟨fun {fuel cs s} hs hfuel => ?_⟩
  induction fuel generalizing known cs s with
  | zero => omega
  | succ fuel ih =>
      refine (orderly_recognise _ hs).bind fun found s₁ hword => ?_
      rcases keyword_eq_ok hs hword with ⟨rfl, -, rfl⟩ | ⟨token, r, rfl, htake, htook⟩
      · exact .pure known hs
      · have hr := htook.stands hs
        have h₁ := htake.length_lt (Rule.sized_phrase _)
        refine ((suffices_declaration limits).orderly hr (by omega)).bind fun entry s₂ hentry => ?_
        obtain ⟨name, body⟩ := entry
        obtain ⟨cost, r₁, hdeclaration, hmoves⟩ := declaration_sound limits fuel hr hentry
        have h₂ := spends_declaration.length_le hdeclaration
        cases hknown : known.contains name with
        | true =>
            simp only [hknown]
            exact orderly_refuse _ (hmoves.stands hr)
        | false =>
            simp only [hknown]
            exact ih _ (hmoves.stands hr) (by omega)

/-! ## The whole query -/

theorem suffices_body (limits : Limits) (functions : Functions) :
    Suffices size 6 (body limits functions) := by
  refine ⟨fun {fuel cs s} hs hfuel => ?_⟩
  refine (Orderly.answered _ hs).bind fun state s₁ hstate => ?_
  cases hstate
  refine (suffices_source limits).next (source_sound limits fuel) spends_source hs (by omega)
    fun source r₁ s₁ hr₁ h₁ => ?_
  refine (suffices_optional .groupBy (suffices_commaSeparated suffices_groupField
      groupField_sound spends_groupField)).next
    (optional_sound .groupBy (commaSeparated_sound groupField_sound fuel))
    (spends_clause (spends_items spends_groupField)) hr₁ (by omega)
    fun groupBy r₂ s₂ hr₂ h₂ => ?_
  refine (suffices_optional .where_ (suffices_filter limits .whereCondition)).next
    (optional_sound .where_ (filter_sound limits .whereCondition fuel))
    (spends_clause spends_filter) hr₂ (by omega) fun filter r₃ s₃ hr₃ h₃ => ?_
  refine (suffices_optional .orderBy (suffices_commaSeparated (suffices_orderTerm limits)
      (orderTerm_sound limits) spends_orderTerm)).next
    (optional_sound .orderBy (commaSeparated_sound (orderTerm_sound limits) fuel))
    (spends_clause (spends_items spends_orderTerm)) hr₃ (by omega)
    fun orderBy r₄ s₄ hr₄ h₄ => ?_
  refine ((suffices_optional .load (suffices_commaSeparated
      (suffices_projection limits .load false) (projection_sound limits .load false)
      (spends_projection false))).orderly hr₄ (by omega)).after fun load _ _ hs₅ => ?_
  exact .pure _ hs₅

theorem suffices_ending (limits : Limits) (query : Query) (kind : QueryKind) :
    Suffices size 6 (fun fuel => ending limits fuel query kind) := by
  refine ⟨fun {fuel cs s} hs hfuel => ?_⟩
  cases kind with
  | select =>
      refine (suffices_optional .select (suffices_selection limits)).next
        (optional_sound .select (selection_sound limits fuel)) (spends_clause spends_selection)
        hs hfuel fun selection r s₁ hr hle => ?_
      refine ((suffices_optional .include_ (suffices_commaSeparated suffices_includeEntry
        includeEntry_sound spends_include)).orderly hr (by omega)).after fun includes _ _ hs₂ => ?_
      exact .pure _ hs₂
  | update =>
      have hscript : Orderly size (updateScript s) :=
        (orderly_expectKeyword _ _ hs).after fun _ _ _ hs₁ =>
          orderly_require _ (orderly_script hs₁)
      exact hscript.after fun _ _ _ hs₁ => .pure _ hs₁

/-- The reader of a whole query ends orderly. -/
theorem suffices_query (limits : Limits) (kind : QueryKind) :
    Suffices size 6 (query limits kind) := by
  refine ⟨fun {fuel cs s} hs hfuel => ?_⟩
  refine ((suffices_declarations limits .empty).orderly hs hfuel).bind fun functions s₁ hfound => ?_
  obtain ⟨cost, r, hdeclarations, hmoves⟩ := declarations_sound hs hfound
  have hr := hmoves.stands hs
  have hle := hdeclarations.cost_le
  refine ((suffices_body limits functions).orderly hr (by omega)).bind fun body s₂ hfound => ?_
  obtain ⟨cost, r₁, hbody, hmoves₁⟩ := body_sound limits functions fuel hr hfound
  have hr₁ := hmoves₁.stands hr
  have hle₁ := spends_body.length_le hbody
  refine ((suffices_ending limits body kind).orderly hr₁ (by omega)).after fun query _ s₃ hs₃ => ?_
  refine Orderly.bind (x := scan Scanner.atEnd) ?_ fun done s₄ hend => ?_
  · rw [atEnd_eq hs₃]
    exact .answered _ hs₃
  · rw [atEnd_eq hs₃] at hend
    cases hend
    split
    · exact .pure _ hs₃
    · exact orderly_refuse _ hs₃

end DocQuery.Grammar
