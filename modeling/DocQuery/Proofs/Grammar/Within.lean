import DocQuery.Proofs.Canonical.Terminal
import DocQuery.Proofs.Grammar.Alike
import DocQuery.Proofs.Grammar.Progress

/-!
# Paths cut out of a text

How far a path goes is decided by its own characters and by what comes directly
behind it.  So a path that was read somewhere is read from its own characters
alone, whatever the text around them.
-/

namespace DocQuery

open Lexical

/-- The text is empty, or it starts with the same character as the other one. -/
def StartsAs (other rest : List Char) : Prop :=
  other.head? = none ∨ other.head? = rest.head?

namespace StartsAs

variable {other rest : List Char}

theorem nil (rest : List Char) : StartsAs [] rest :=
  Or.inl rfl

theorem append (mid : List Char) (h : StartsAs other rest) :
    StartsAs (mid ++ other) (mid ++ rest) := by
  cases mid with
  | nil => exact h
  | cons c mid => exact Or.inr rfl

theorem noPart (h : StartsAs other rest) (hrest : Identifier.NoPart rest) :
    Identifier.NoPart other := by
  unfold Identifier.NoPart at *
  rcases h with hnone | hsame
  · rw [hnone]
    rfl
  · rwa [hsame]

end StartsAs

namespace Written

variable {size : Nat} {cs rest : List Char}

/-- There is no trivia in front of a quoted text. -/
theorem rest_quoted {token : List Char} {escapes : Nat}
    (h : Takes Rule.quoted cs token escapes rest) (other : List Char) :
    Trivia.rest (token ++ other) = token ++ other ∧
      ∀ beginning, Rule.identifier beginning (token ++ other) = none := by
  obtain ⟨quote, body, hquote, rfl, -⟩ := Rule.quoted_eq_some h.measured
  obtain ⟨hsolid, -, hnone⟩ := quote_facts hquote ((body ++ [quote]) ++ other)
  exact ⟨Trivia.rest_solid _ hsolid, hnone⟩

/-- A mark is read again with any other text behind it. -/
theorem Mark.within {c : Char} (h : Mark c cs rest) (hsolid : isSolid c = true) :
    ∃ gap, cs = gap ++ c :: rest ∧
      ∀ other, Trivia.rest (gap ++ c :: other) = c :: other ∧ Mark c (gap ++ c :: other) other := by
  obtain ⟨gap, rfl, hgap⟩ := Trivia.exists_gap h.split (List.cons_ne_nil c rest)
  refine ⟨gap, rfl, fun other => ?_⟩
  have hrest := hgap (Trivia.rest_solid other hsolid)
  exact ⟨hrest, hrest, Rule.char_eq_some.mpr ⟨rfl, rfl⟩⟩

/-- A segment is read again in front of a text that starts alike. -/
theorem Segment.within {beginning quoted : Bool} {token : List Char} {text : String}
    (h : Segment beginning cs token text quoted rest) :
    ∃ gap, cs = gap ++ (token ++ rest) ∧ ∀ {other}, StartsAs other rest →
      Alike (token ++ other) (gap ++ (token ++ other)) ∧
        Segment beginning (gap ++ (token ++ other)) token text quoted other := by
  cases h with
  | name htake =>
      obtain ⟨hname, hend⟩ := name_of_takes htake
      have hne : token ++ rest ≠ [] := by
        rintro hnil
        rw [(List.append_eq_nil_iff.mp hnil).1] at hname
        cases hname
      obtain ⟨gap, rfl, hgap⟩ := Trivia.exists_gap htake.split hne
      refine ⟨gap, rfl, fun {other} hother => ?_⟩
      have hsolid := rest_name hname other
      have hrest := hgap hsolid
      exact ⟨hsolid.trans hrest.symm, .name ⟨hrest, (takes_name hname (hother.noPart hend)).measured⟩⟩
  | quoted _ htake =>
      have hne : token ++ rest ≠ [] := by
        obtain ⟨_, _, -, rfl, -⟩ := Rule.quoted_eq_some htake.measured
        exact List.cons_ne_nil _ _
      obtain ⟨gap, rfl, hgap⟩ := Trivia.exists_gap htake.split hne
      refine ⟨gap, rfl, fun {other} hother => ?_⟩
      obtain ⟨hsolid, hnone⟩ := rest_quoted htake other
      have hrest := hgap hsolid
      refine ⟨hsolid.trans hrest.symm, .quoted ?_ ⟨hrest, Rule.quoted_again htake.measured hother⟩⟩
      rw [Passes, hrest]
      exact hnone beginning

/-- An index is read again behind itself, or it is absent in front of any text without one. -/
theorem Index.within {text : String} (h : Index cs text rest) :
    ∃ mid, cs = mid ++ rest ∧
      ∀ {other}, (NoMark '[' rest → NoMark '[' other) → Index (mid ++ other) text other := by
  cases h with
  | absent hno => exact ⟨[], rfl, fun hother => .absent (hother hno)⟩
  | empty hopen _ hclose =>
      obtain ⟨gap, rfl, hagain⟩ := hopen.within rfl
      obtain ⟨gap₁, rfl, hagain₁⟩ := hclose.within rfl
      refine ⟨gap ++ '[' :: (gap₁ ++ [']']), by simp, fun {other} _ => ?_⟩
      obtain ⟨hrest₁, hclose₁⟩ := hagain₁ other
      have hpass : Passes Rule.number (gap₁ ++ ']' :: other) := by
        rw [Passes, hrest₁]
        rfl
      simpa using Index.empty (hagain (gap₁ ++ ']' :: other)).2 hpass hclose₁
  | @number _ _ token _ hopen htake hpositive hclose =>
      obtain ⟨gap, rfl, hagain⟩ := hopen.within rfl
      obtain ⟨gap₂, rfl, hagain₂⟩ := hclose.within rfl
      have hne : token ++ (gap₂ ++ ']' :: rest) ≠ [] := by
        simp
      obtain ⟨gap₁, rfl, hgap₁⟩ := Trivia.exists_gap htake.split hne
      refine ⟨gap ++ '[' :: (gap₁ ++ (token ++ (gap₂ ++ [']']))), by simp, fun {other} _ => ?_⟩
      -- the bracket ends the number, whatever is behind it
      have hapart : ∀ ds, Rule.number (token ++ (gap₂ ++ ']' :: ds)) =
          Numeral.size? (token ++ gap₂) := by
        intro ds
        rw [← List.append_assoc]
        exact Numeral.size?_apart (token ++ gap₂) rfl
      have hmeasured : Rule.number (token ++ (gap₂ ++ ']' :: other)) = some (token.length, .long) := by
        rw [hapart, ← hapart rest]
        exact htake.measured
      have hnumber := hgap₁ (Numeral.rest_of_size? hmeasured)
      simpa using Index.number (hagain _).2 ⟨hnumber, hmeasured⟩ hpositive (hagain₂ other).2

/-- What follows the first segment of a path is read again in front of a text that starts alike. -/
theorem Tail.within {more : String} {quoted : Bool} (h : Tail cs more quoted rest) :
    ∃ mid, cs = mid ++ rest ∧ ∀ {other}, StartsAs other rest →
      (∀ {c}, NoMark c rest → NoMark c other) → Tail (mid ++ other) more quoted other := by
  induction h with
  | last hindex hdot =>
      obtain ⟨mid, rfl, hagain⟩ := hindex.within
      exact ⟨mid, rfl, fun _ hmarks => .last (hagain hmarks) (hmarks hdot)⟩
  | more hindex hdot hsegment _ ih =>
      obtain ⟨mid₂, rfl, hagain₂⟩ := ih
      obtain ⟨gap₁, rfl, hagain₁⟩ := hsegment.within
      obtain ⟨gap, rfl, hagain⟩ := hdot.within rfl
      obtain ⟨mid, rfl, hbracket⟩ := hindex.within
      refine ⟨mid ++ (gap ++ '.' :: (gap₁ ++ (_ ++ mid₂))), by simp; rfl, ?_⟩
      intro other hother hmarks
      have htail := hagain₂ hother hmarks
      have hsegment := (hagain₁ (hother.append mid₂)).2
      obtain ⟨hrest, hmark⟩ := hagain (gap₁ ++ (_ ++ (mid₂ ++ other)))
      simpa using Tail.more (hbracket fun _ => noMark_of_head hrest (by decide)) hmark hsegment htail

/-- A path is read again from its own characters alone. -/
theorem Path.within {p : DocQuery.Path} (h : Path size cs p rest) :
    ∃ mid, Trivia.rest cs = mid ++ rest ∧
      p.span = Span.between (place size (mid ++ rest)) (place size rest) ∧
      ∀ size, ∃ span, Path size mid ⟨p.text, span, p.quoted⟩ [] := by
  cases h with
  | @mk token _ _ _ _ _ _ hsegment hfree htail =>
      have hcut := hsegment.split
      obtain ⟨mid, rfl, hmore⟩ := htail.within
      obtain ⟨gap, rfl, hagain⟩ := hsegment.within
      have hmid := (StartsAs.nil rest).append mid
      rw [List.append_nil] at hmid
      obtain ⟨halike, hfirst⟩ := hagain hmid
      have hrest := @hmore [] (StartsAs.nil rest) fun _ => rfl
      rw [List.append_nil] at hrest
      refine ⟨token ++ mid, by rw [hcut, List.append_assoc], by rw [List.append_assoc], ?_⟩
      exact fun size => ⟨_, .mk (hfirst.alike halike) hfree hrest⟩

end Written

end DocQuery
