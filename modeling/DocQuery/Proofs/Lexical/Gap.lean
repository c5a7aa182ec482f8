import DocQuery.Lexical.Trivia

/-!
# What trivia is made of

A gap is white space and comments in any order and number.  A comment in a gap
is closed, unless the text ends in it.  Whatever a reader skips is a gap in front
of the rest, and it skips every gap in front of any text.  The main statements
are `Trivia.gap_skipped` and `Trivia.Gap.rest_append`.
-/

namespace DocQuery.Lexical.Trivia

open DocQuery.Text

/-- The first characters are white space and comments in front of the others. -/
inductive Gap : List Char → List Char → Prop where
  | nil {rest : List Char} : Gap [] rest
  | blank {c : Char} {gap rest : List Char} : isBlank c = true → Gap gap rest →
      Gap (c :: gap) rest
  | line {c : Char} {body gap rest : List Char} : c ∈ ['-', '/'] → '\n' ∉ body → Gap gap rest →
      Gap (c :: c :: (body ++ '\n' :: gap)) rest
  | block {body gap rest : List Char} : ¬ ['*', '/'] <:+: body → Gap gap rest →
      Gap ('/' :: '*' :: (body ++ '*' :: '/' :: gap)) rest
  /-- A comment that the end of the text ends. -/
  | lastLine {c : Char} {body : List Char} : c ∈ ['-', '/'] → '\n' ∉ body →
      Gap (c :: c :: body) []
  | lastBlock {body : List Char} : ¬ ['*', '/'] <:+: body → Gap ('/' :: '*' :: body) []

/-- The first characters are what is left of a comment up to its stop, and a gap behind it. -/
inductive Ending (stop : List Char) : List Char → List Char → Prop where
  | closed {body gap rest : List Char} : ¬ stop <:+: body → Gap gap rest →
      Ending stop (body ++ stop ++ gap) rest
  | unclosed {body : List Char} : ¬ stop <:+: body → Ending stop body []

/-- What the first characters are to a reader of trivia that stands at a place. -/
def IsFrom : Place → List Char → List Char → Prop
  | .between => Gap
  | .line => Ending ['\n']
  | .block => Ending ['*', '/']

variable {stop gap rest : List Char} {c : Char}

/-- What stops a comment is not in its body either if it is not at the start of the body. -/
theorem not_infix_cons {body more : List Char} (hstop : ¬ stop <+: c :: (body ++ more))
    (hbody : ¬ stop <:+: body) : ¬ stop <:+: c :: body := by
  intro hinfix
  rcases List.infix_cons_iff.mp hinfix with hhead | hinfix
  · exact hstop (hhead.trans (List.cons_prefix_cons.mpr ⟨rfl, List.prefix_append _ _⟩))
  · exact hbody hinfix

/-- A comment is longer by a character that does not stop it. -/
theorem Ending.cons (h : Ending stop gap rest) (hstop : ¬ stop <+: c :: (gap ++ rest)) :
    Ending stop (c :: gap) rest := by
  cases h with
  | closed hclear hgap =>
      simp only [List.append_assoc] at hstop
      exact .closed (not_infix_cons hstop hclear) hgap
  | unclosed hclear => exact .unclosed (not_infix_cons hstop hclear)

theorem not_infix_singleton {body : List Char} (h : ¬ ['\n'] <:+: body) : '\n' ∉ body := by
  intro hmem
  obtain ⟨before, after, rfl⟩ := List.append_of_mem hmem
  exact h ⟨before, after, by simp⟩

theorem Ending.line (h : Ending ['\n'] gap rest) (hc : c ∈ ['-', '/']) :
    Gap (c :: c :: gap) rest := by
  cases h with
  | closed hclear hgap =>
      rw [List.append_assoc]
      exact .line hc (not_infix_singleton hclear) hgap
  | unclosed hclear => exact .lastLine hc (not_infix_singleton hclear)

theorem Ending.block (h : Ending ['*', '/'] gap rest) : Gap ('/' :: '*' :: gap) rest := by
  cases h with
  | closed hclear hgap =>
      rw [List.append_assoc]
      exact .block hclear hgap
  | unclosed hclear => exact .lastBlock hclear

/-- The characters that are measured from a place on are what the place says. -/
theorem isFrom_take (place : Place) (cs : List Char) :
    IsFrom place (cs.take (lengthFrom place cs)) (cs.drop (lengthFrom place cs)) := by
  fun_induction lengthFrom place cs with
  | case1 place =>
      cases place with
      | between => exact .nil
      | line => exact .unclosed (by simp)
      | block => exact .unclosed (by simp)
  | case2 cs ih => exact ih.line (by simp)
  | case3 cs ih => exact ih.line (by simp)
  | case4 cs ih => exact ih.block
  | case5 c cs _ _ _ hblank ih => exact .blank hblank ih
  | case6 c cs _ _ _ hblank => exact .nil
  | case7 cs ih => exact @Ending.closed _ [] _ _ (by simp) ih
  | case8 c cs hc ih => exact ih.cons (by simpa using Ne.symm hc)
  | case9 cs ih => exact @Ending.closed _ [] _ _ (by simp) ih
  | case10 c cs hclose ih =>
      refine ih.cons ?_
      rw [List.take_append_drop]
      rintro ⟨more, hmore⟩
      obtain ⟨rfl, rfl⟩ := List.cons.inj hmore
      exact hclose more rfl rfl

/-- What is skipped is a gap in front of the rest. -/
theorem gap_skipped (cs : List Char) : Gap (skipped cs) (Trivia.rest cs) :=
  isFrom_take .between cs

/-! ## Every gap is skipped -/

section Skipped

variable {body tail : List Char}

/-- What is left of a comment does not close it unless the text behind it does. -/
theorem not_close_of_clear (h : ¬ ['*', '/'] <:+: c :: body) (htail : tail.head? ≠ some '/') :
    ∀ more, c = '*' → body ++ tail = '/' :: more → False := by
  rintro more rfl hmore
  cases body with
  | nil => exact htail (congrArg List.head? hmore)
  | cons d body =>
      obtain ⟨rfl, -⟩ := List.cons.inj hmore
      exact h (List.infix_cons_iff.mpr (Or.inl ⟨body, rfl⟩))

theorem lengthFrom_line (h : '\n' ∉ body) :
    lengthFrom .line (body ++ tail) = body.length + lengthFrom .line tail := by
  induction body with
  | nil => simp
  | cons c body ih =>
      rw [List.mem_cons, not_or] at h
      rw [List.cons_append, lengthFrom, if_neg (Ne.symm h.1), ih h.2, List.length_cons]
      omega

theorem lengthFrom_block (h : ¬ ['*', '/'] <:+: body) (htail : tail.head? ≠ some '/') :
    lengthFrom .block (body ++ tail) = body.length + lengthFrom .block tail := by
  induction body with
  | nil => simp
  | cons c body ih =>
      rw [List.cons_append, lengthFrom,
        ih fun hclose => h (hclose.trans (List.suffix_cons c body).isInfix), List.length_cons]
      · omega
      · exact not_close_of_clear h htail

/-- Two characters that start a comment up to the end of its line. -/
theorem length_line (cs : List Char) (hc : c ∈ ['-', '/']) :
    length (c :: c :: cs) = lengthFrom .line cs + 2 := by
  simp only [List.mem_cons, List.not_mem_nil, or_false] at hc
  rcases hc with rfl | rfl <;> rw [length, lengthFrom]

end Skipped

/-- A gap is skipped as far as it goes, and what trivia comes behind it too. -/
theorem Gap.length_append (h : Gap gap rest) :
    Trivia.length (gap ++ rest) = gap.length + Trivia.length rest := by
  induction h with
  | nil => simp
  | blank hblank _ ih =>
      rw [List.cons_append, length_blank _ hblank, ih, List.length_cons]
      omega
  | @line _ body gap rest hc hbody _ ih =>
      have hstop : lengthFrom .line ('\n' :: (gap ++ rest)) = Trivia.length (gap ++ rest) + 1 := by
        rw [lengthFrom, if_pos rfl, Trivia.length]
      rw [List.cons_append, List.cons_append, List.append_assoc, length_line _ hc,
        lengthFrom_line hbody, List.cons_append, hstop, ih]
      simp only [List.length_cons, List.length_append]
      omega
  | @block body gap rest hbody _ ih =>
      have hstop : lengthFrom .block ('*' :: '/' :: (gap ++ rest)) =
          Trivia.length (gap ++ rest) + 2 := by
        rw [lengthFrom, Trivia.length]
      rw [List.cons_append, List.cons_append, List.append_assoc, Trivia.length, lengthFrom,
        lengthFrom_block hbody (by simp), List.cons_append, List.cons_append, hstop, ih]
      simp only [List.length_cons, List.length_append]
      omega
  | @lastLine _ body hc hbody =>
      have hall := @lengthFrom_line body [] hbody
      rw [List.append_nil] at hall ⊢
      rw [length_line _ hc, hall]
      rfl
  | @lastBlock body hbody =>
      have hall := @lengthFrom_block body [] hbody (by simp)
      rw [List.append_nil] at hall ⊢
      rw [Trivia.length, lengthFrom, hall]
      rfl

/-- What is behind the trivia is the same with a gap in front of it. -/
theorem Gap.rest_append (h : Gap gap rest) : Trivia.rest (gap ++ rest) = Trivia.rest rest := by
  rw [Trivia.rest, h.length_append, List.drop_length_add_append, Trivia.rest]

end DocQuery.Lexical.Trivia
