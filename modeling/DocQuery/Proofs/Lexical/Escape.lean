import DocQuery.Proofs.Lexical.Quoted
import DocQuery.Text.Quoting

/-!
# Escapes in single quotes and their decoding

A plain text is written in single quotes with its backslashes and single quotes
doubled.  That is always a body of single quotes, with one escape for each
doubled character.  Decoding does not know the quotes around a body and makes one
of two double quotes as well, which were never escaped.  A body that is taken out
of its quotes and put into others closes them where it should if there are none of
them in it.  The main statements are `body_escape`, `unescape_escape_iff` and
`exists_body_quoteFor_iff`.
-/

namespace DocQuery.Lexical.Quoted

open Text

/-- The character is doubled where a plain text is written in single quotes. -/
def isDoubled (c : Char) : Bool :=
  c == '\'' || c == '\\'

/-- An escaped text can stand between single quotes. -/
theorem body_escape (cs : List Char) : Body '\'' (escape cs) (cs.countP isDoubled) := by
  fun_induction escape cs with
  | case1 => exact .nil
  | case2 cs ih =>
      rw [List.countP_cons_of_pos rfl]
      exact ih.slashed
  | case3 cs ih =>
      rw [List.countP_cons_of_pos rfl]
      exact ih.doubled
  | case4 c cs hslash hquote ih =>
      have hcount : isDoubled c = false := by
        simpa [isDoubled] using ⟨fun h => hquote h, fun h => hslash h⟩
      rw [List.countP_cons_of_neg (by simp [hcount])]
      exact ih.plain hquote hslash

/-! ## Decoding what was escaped -/

/-- Two double quotes, which stand for one where a text is decoded. -/
def pair : List Char :=
  ['\"', '\"']

/-- A character that opens no escape is kept. -/
theorem unescape_cons {c : Char} {cs : List Char} (hslash : c ≠ '\\')
    (hnext : isQuote c = true → cs.head? ≠ some c) : unescape (c :: cs) = c :: unescape cs := by
  cases cs with
  | nil =>
      rw [unescape, unescape]
      exact hslash
  | cons d cs =>
      rw [unescape, if_neg]
      · rintro ⟨hquote, rfl⟩
        exact hnext (isQuote_eq_true.mpr hquote) rfl
      · exact hslash

theorem unescape_doubled {c : Char} (hquote : isQuote c = true) (cs : List Char) :
    unescape (c :: c :: cs) = c :: unescape cs := by
  rw [unescape, if_pos ⟨isQuote_eq_true.mp hquote, rfl⟩]
  exact ne_backslash_of_isQuote hquote

theorem escape_cons {c : Char} {cs : List Char} (hslash : c ≠ '\\') (hquote : c ≠ '\'') :
    escape (c :: cs) = c :: escape cs := by
  rw [escape]
  · exact hslash
  · exact hquote

theorem head?_escape (cs : List Char) : (escape cs).head? = cs.head? := by
  fun_cases escape cs <;> rfl

/-- Unless a pair of double quotes is next, the first character is decoded as it was. -/
theorem unescape_escape_cons {c : Char} {cs : List Char} (hnext : c = '\"' → cs.head? ≠ some '\"') :
    unescape (escape (c :: cs)) = c :: unescape (escape cs) := by
  by_cases hslash : c = '\\'
  · subst hslash
    rw [escape, unescape]
  by_cases hquote : c = '\''
  · subst hquote
    rw [escape, unescape_doubled rfl]
  rw [escape_cons hslash hquote, unescape_cons hslash]
  intro hc
  obtain rfl := (isQuote_eq_true.mp hc).resolve_left hquote
  rw [head?_escape]
  exact hnext rfl

theorem unescape_escape_pair (cs : List Char) :
    unescape (escape ('\"' :: '\"' :: cs)) = '\"' :: unescape (escape cs) := by
  rw [escape_cons (by decide) (by decide), escape_cons (by decide) (by decide),
    unescape_doubled rfl]

theorem length_unescape_escape_le : ∀ cs : List Char, (unescape (escape cs)).length ≤ cs.length
  | [] => Nat.le_refl 0
  | [c] => by
      rw [unescape_escape_cons (fun _ h => by cases h), List.length_cons, List.length_cons]
      exact Nat.le_refl 1
  | c :: d :: cs => by
      by_cases hpair : c = '\"' ∧ d = '\"'
      · obtain ⟨rfl, rfl⟩ := hpair
        have hrest := length_unescape_escape_le cs
        rw [unescape_escape_pair, List.length_cons, List.length_cons, List.length_cons]
        omega
      · have hrest := length_unescape_escape_le (d :: cs)
        rw [unescape_escape_cons (by simpa using hpair), List.length_cons, List.length_cons]
        omega

/-- An escaped text is decoded to itself exactly if it has no pair of double quotes. -/
theorem unescape_escape_iff : ∀ cs : List Char,
    unescape (escape cs) = cs ↔ ¬pair <:+: cs
  | [] => iff_of_true rfl (by decide)
  | [c] => by
      rw [unescape_escape_cons (fun _ h => by cases h)]
      refine iff_of_true rfl fun h => ?_
      have hlength := h.length_le
      rw [pair, List.length_cons, List.length_cons, List.length_cons] at hlength
      omega
  | c :: d :: cs => by
      by_cases hpair : c = '\"' ∧ d = '\"'
      · obtain ⟨rfl, rfl⟩ := hpair
        refine iff_of_false (fun h => ?_) fun h => h ⟨[], cs, rfl⟩
        -- a character of the text is gone, so it cannot have been decoded to itself
        have hlength := length_unescape_escape_le cs
        rw [unescape_escape_pair] at h
        rw [(List.cons.inj h).2, List.length_cons] at hlength
        omega
      · have hhead : ¬pair <+: c :: d :: cs := by
          rintro ⟨rest, h⟩
          simp only [pair, List.cons_append, List.cons.injEq] at h
          exact hpair ⟨h.1.symm, h.2.1.symm⟩
        rw [unescape_escape_cons (by simpa using hpair), List.cons_inj_right,
          unescape_escape_iff (d :: cs), @List.infix_cons_iff _ _ c, not_or, and_iff_right hhead]

/-! ## Bodies without their quotes -/

/-- Each backslash of the text takes a character with it. -/
inductive Paired : List Char → Prop where
  | nil : Paired []
  | plain {c : Char} {cs : List Char} : c ≠ '\\' → Paired cs → Paired (c :: cs)
  | slashed {c : Char} {cs : List Char} : Paired cs → Paired ('\\' :: c :: cs)

theorem Paired.append {cs ds : List Char} (h : Paired cs) (hds : Paired ds) :
    Paired (cs ++ ds) := by
  induction h with
  | nil => exact hds
  | plain hslash _ ih => exact ih.plain hslash
  | slashed _ ih => exact ih.slashed

theorem Paired.of_not_mem {cs : List Char} (h : '\\' ∉ cs) : Paired cs := by
  induction cs with
  | nil => exact .nil
  | cons c cs ih =>
      rw [List.mem_cons, not_or] at h
      exact (ih h.2).plain fun hc => h.1 hc.symm

theorem Body.paired {quote : Char} {cs : List Char} {escapes : Nat} (h : Body quote cs escapes)
    (hslash : quote ≠ '\\') : Paired cs := by
  induction h with
  | nil => exact .nil
  | plain _ hc _ ih => exact ih.plain hc
  | doubled _ ih => exact (ih.plain hslash).plain hslash
  | slashed _ ih => exact ih.slashed

/-- Between quotes that are not in the text nothing closes them. -/
theorem Paired.exists_body {quote : Char} {cs : List Char} (h : Paired cs) (hquote : quote ∉ cs) :
    ∃ escapes, Body quote cs escapes := by
  induction h with
  | nil => exact ⟨0, .nil⟩
  | plain hslash _ ih =>
      rw [List.mem_cons, not_or] at hquote
      obtain ⟨escapes, hbody⟩ := ih hquote.2
      exact ⟨escapes, hbody.plain (fun hc => hquote.1 hc.symm) hslash⟩
  | slashed _ ih =>
      rw [List.mem_cons, List.mem_cons, not_or, not_or] at hquote
      obtain ⟨escapes, hbody⟩ := ih hquote.2.2
      exact ⟨escapes + 1, hbody.slashed⟩

/--
The chosen quotes close where they should, except around a text with quotes of
both kinds in which the single ones are no escapes.
-/
theorem exists_body_quoteFor_iff {cs : List Char} (h : Paired cs) :
    (∃ escapes, Body (quoteFor cs) cs escapes) ↔
      '\'' ∉ cs ∨ '\"' ∉ cs ∨ ∃ escapes, Body '\'' cs escapes := by
  by_cases hsingle : '\'' ∈ cs
  · by_cases hdouble : '\"' ∈ cs
    · have hquote : quoteFor cs = '\'' := by simp [quoteFor, hdouble]
      rw [hquote]
      simp [hsingle, hdouble]
    · have hquote : quoteFor cs = '\"' := by simp [quoteFor, hsingle, hdouble]
      rw [hquote]
      exact iff_of_true (h.exists_body hdouble) (Or.inr (Or.inl hdouble))
  · have hquote : quoteFor cs = '\'' := by simp [quoteFor, hsingle]
    rw [hquote]
    exact iff_of_true (h.exists_body hsingle) (Or.inl hsingle)

end DocQuery.Lexical.Quoted
