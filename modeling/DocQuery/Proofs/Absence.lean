import DocQuery.Proofs.Grammar.Sound.Clause
import DocQuery.Proofs.Invisible
import DocQuery.Proofs.Lexical.Spelling

/-!
# Parts that are not there

Some parts of the grammar are looked for without a need.  A reader that does not
find such a part is as it was, but for trivia that it may have gone over: a path
that breaks off is given back as a whole, and so is a word that opens a clause.
The token ahead is the same as before.  The main statement is
`Grammar.Tentative.keeps_next_token`.
-/

namespace DocQuery

/-- Tokens no bytes apart are at the same place. -/
theorem Scanner.Later.token_eq {s t : Scanner} (h : Scanner.Later 0 s t) : t.token = s.token := by
  have hparts : ∀ a b : Token, a.chars = b.chars → a.start = b.start → a = b := by
    rintro ⟨start, chars⟩ ⟨_, _⟩ rfl rfl
    rfl
  exact hparts _ _ h.chars h.start

/-- A token that is found in both steps is the same one at the same place. -/
theorem Scanner.InStep.token_eq {s t s' t' : Scanner} (h : Scanner.InStep 0 s t true s' t') :
    t'.token = s'.token := by
  cases h with
  | took hlater _ => exact hlater.token_eq

namespace Grammar

open Lexical Written

/-- A part of the grammar that may be absent, by what it is read as. -/
inductive Tentative : Type → Type where
  | value : Tentative Value
  | path (fuel : Nat) : Tentative Path
  | asName (needsAs : Bool) (fuel : Nat) : Tentative String
  | trailingTest (fuel : Nat) : Tentative Expr
  | script : Tentative Script

/-- Look for the part. -/
def Tentative.read {α : Type} : Tentative α → Read (Option α)
  | .value => Grammar.value
  | .path fuel => Grammar.path fuel
  | .asName needsAs fuel => Grammar.asName needsAs fuel
  | .trailingTest fuel => Grammar.trailingTest fuel
  | .script => Grammar.script

/-- The reader is as it was, but for trivia that it has gone over. -/
structure Stayed (s s' : State) : Prop where
  text : s'.scanner.text = s.scanner.text
  depth : s'.depth = s.depth
  connectives : s'.connectives = s.connectives
  trivia : ∃ gap rest, s.scanner.ahead = some (gap ++ rest) ∧ Trivia.Gap gap rest ∧
    s'.scanner.ahead = some rest ∧
    s'.scanner.offset = s.scanner.offset + Text.byteLength gap

section

variable {α : Type} {size : Nat} {cs gap token rest : List Char} {s s' : State}

theorem Moves.stayed (h : Moves s rest 0 s') (hs : Stands size (gap ++ rest) s)
    (hgap : Trivia.Gap gap rest) : Stayed s s' := by
  refine ⟨h.text, h.depth, h.connectives, gap, rest, hs.ahead, hgap, h.ahead, ?_⟩
  have hle := hs.byteLength_le
  rw [(h.toOnward.stands hs).offset, hs.offset, place, place, Text.byteLength_append]
  rw [Text.byteLength_append] at hle
  omega

theorem Moves.stayed_here (h : Moves s cs 0 s') (hs : Stands size cs s) : Stayed s s' :=
  @Moves.stayed _ [] _ _ _ h hs .nil

theorem gap_of_takes {rule : Rule α} {a : α} (h : Takes rule cs token a rest) :
    ∃ gap, cs = gap ++ (token ++ rest) ∧ Trivia.Gap gap (token ++ rest) := by
  obtain ⟨gap, hcut, hlongest⟩ := h.exists_longest
  exact ⟨gap, hcut, hlongest.isGap⟩

theorem gap_of_noPath (h : NoPath cs rest) : ∃ gap, cs = gap ++ rest ∧ Trivia.Gap gap rest := by
  cases h with
  | blank => exact ⟨[], rfl, .nil⟩
  | reserved htake => exact gap_of_takes htake
  | broken => exact ⟨[], rfl, .nil⟩

theorem gap_of_noAsName {needsAs : Bool} (h : AsName size needsAs cs none rest) :
    ∃ gap, cs = gap ++ rest ∧ Trivia.Gap gap rest := by
  cases h with
  | clause htake => exact gap_of_takes htake
  | needed => exact ⟨[], rfl, .nil⟩
  | absent _ _ hnone => exact gap_of_noPath hnone

/-! ## Each part -/

theorem stayed_value (hs : Stands size cs s) (h : value s = .ok none s') : Stayed s s' := by
  rcases value_sound hs h with ⟨-, -, hmoves⟩ | ⟨v, rest, hsome, -, -⟩
  · exact hmoves.stayed_here hs
  · cases hsome

theorem stayed_path {fuel : Nat} (hs : Stands size cs s) (h : path fuel s = .ok none s') :
    Stayed s s' := by
  rcases path_sound hs h with ⟨-, rest, hnone, hmoves⟩ | ⟨p, rest, hsome, -, -⟩
  · obtain ⟨gap, rfl, hgap⟩ := gap_of_noPath hnone
    exact hmoves.stayed hs hgap
  · cases hsome

theorem stayed_asName {needsAs : Bool} {fuel : Nat} (hs : Stands size cs s)
    (h : asName needsAs fuel s = .ok none s') : Stayed s s' := by
  obtain ⟨rest, hnone, hmoves⟩ := asName_sound hs h
  obtain ⟨gap, rfl, hgap⟩ := gap_of_noAsName hnone
  exact hmoves.stayed hs hgap

theorem stayed_trailingTest {fuel : Nat} (hs : Stands size cs s)
    (h : trailingTest fuel s = .ok none s') : Stayed s s' := by
  obtain ⟨place, s₁, hplace, h⟩ := bind_eq_ok h
  cases hplace
  obtain ⟨found, s₁, hfirst, h⟩ := bind_eq_ok h
  rcases firstOf_eq_ok hs hfirst with ⟨rfl, -, rfl⟩ | ⟨a, token, rest, rfl, -, -⟩
  · obtain ⟨-, rfl⟩ := pure_eq_ok h
    exact (Moves.refl hs).stayed_here hs
  · obtain ⟨e, s₂, -, h⟩ := bind_eq_ok h
    cases (pure_eq_ok h).1

theorem stayed_script (hs : Stands size cs s) (h : script s = .ok none s') : Stayed s s' := by
  rcases script_sound hs h with ⟨-, -, rfl⟩ | ⟨body, rest, hsome, -, -⟩
  · exact (Moves.refl hs).stayed_here hs
  · cases hsome

theorem Tentative.stayed (part : Tentative α) (hs : Stands size cs s)
    (h : part.read s = .ok none s') : Stayed s s' := by
  cases part with
  | value => exact stayed_value hs h
  | path fuel => exact stayed_path hs h
  | asName needsAs fuel => exact stayed_asName hs h
  | trailingTest fuel => exact stayed_trailingTest hs h
  | script => exact stayed_script hs h

/-- A part is absent if evaluation comes to nothing. -/
theorem exists_absent {read : Read (Option α)} (h : (read.run' s).any Option.isNone = true) :
    ∃ s', read s = .ok none s' := by
  delta EStateM.run' EStateM.run at h
  cases hresult : read s with
  | error failure s' =>
      rw [hresult] at h
      cases h
  | ok found s' =>
      rw [hresult] at h
      exact ⟨s', Option.isNone_iff_eq_none.mp h ▸ rfl⟩

/-! ## What comes next -/

/-- Whatever token is looked for, it is found by a reader that stayed as it was found before. -/
theorem Stayed.measure (h : Stayed s s') (rule : Rule α) :
    ∃ found t t', Scanner.measure rule s.scanner = .ok (found, t) ∧
      Scanner.measure rule s'.scanner = .ok (found, t') ∧
      Scanner.InStep 0 s'.scanner s.scanner found.isSome t' t := by
  obtain ⟨gap, rest, hahead, hgap, hahead', hoffset⟩ := h.trivia
  have hplaces : s.scanner.offset + Text.byteLength gap = s'.scanner.offset + 0 := hoffset.symm
  obtain ⟨found, t', t, hlater, hearlier, hstep⟩ :=
    Scanner.inStep_measure_of_ahead rule hahead' hahead hplaces hgap
  exact ⟨found, t, t', hearlier, hlater, hstep⟩

theorem Stayed.anyKeyword (h : Stayed s s') (keywords : List Keyword) :
    ∃ found t t', s.scanner.anyKeyword keywords = .ok (found, t) ∧
      s'.scanner.anyKeyword keywords = .ok (found, t') ∧
      Scanner.InStep 0 s'.scanner s.scanner found.isSome t' t := by
  obtain ⟨gap, rest, hahead, -, hahead', -⟩ := h.trivia
  have hmeasure : ∀ {t : Scanner} {ds : List Char}, t.ahead = some ds →
      t.anyKeyword keywords = Scanner.measure (Rule.anyKeyword keywords) t :=
    firstOf_eq_measure _
  rw [hmeasure hahead, hmeasure hahead']
  exact h.measure _

end

/--
A reader that does not find a part of the grammar is as deep as before, has met no
connective, and has gone over nothing but trivia.  Whatever token is looked for
then, a keyword for one, it is found or missed as it would have been before, and it
is the same token at the same place.
-/
theorem Tentative.keeps_next_token {α : Type} (part : Tentative α) {s s' : State}
    {cs : List Char} (hahead : s.scanner.ahead = some cs) (habsent : part.read s = .ok none s') :
    Stayed s s' ∧
    (∀ {β : Type} (rule : Rule β), ∃ found t t',
      Scanner.measure rule s.scanner = .ok (found, t) ∧
      Scanner.measure rule s'.scanner = .ok (found, t') ∧
      Scanner.InStep 0 s'.scanner s.scanner found.isSome t' t) ∧
    ∀ keywords, ∃ found t t',
      s.scanner.anyKeyword keywords = .ok (found, t) ∧
      s'.scanner.anyKeyword keywords = .ok (found, t') ∧
      Scanner.InStep 0 s'.scanner s.scanner found.isSome t' t := by
  have hstayed : Stayed s s' := part.stayed ⟨hahead, rfl⟩ habsent
  exact ⟨hstayed, hstayed.measure, hstayed.anyKeyword⟩

/--
No alias stands in front of `where`, and the path that starts with `a` breaks off
behind its last dot.
-/
theorem Tentative.keeps_next_token_clause :
    (∃ s' t, (asName false 5).read ⟨.ofText " /*AS*/ where a", 2, 1⟩ = .ok none s' ∧
      s'.depth = 2 ∧ s'.connectives = 1 ∧
      s'.scanner.anyKeyword Keyword.reserved = .ok (some .where_, t) ∧
      t.token = ⟨8, "where".toList⟩) ∧
    ∃ s' t, (path 5).read ⟨.ofText " a.'b'[2]. = 1", 2, 1⟩ = .ok none s' ∧
      s'.depth = 2 ∧ s'.connectives = 1 ∧
      Scanner.measure (Rule.identifier true) s'.scanner = .ok (some (), t) ∧
      t.token = ⟨1, ['a']⟩ := by
  constructor
  · have hread : ((asName false 5).read.run' ⟨.ofText " /*AS*/ where a", 2, 1⟩).any
        Option.isNone = true := by
      decide +kernel
    have hscan : ((Scanner.ofText " /*AS*/ where a").anyKeyword Keyword.reserved).toOption.any
        (fun r => r.1 == some .where_ && r.2.token == ⟨8, "where".toList⟩) = true := by
      decide +kernel
    obtain ⟨s', hnone⟩ := exists_absent hread
    obtain ⟨hstayed, -, hkeyword⟩ := (asName false 5).keeps_next_token rfl hnone
    obtain ⟨found, t, t', hbefore, hafter, hstep⟩ := hkeyword Keyword.reserved
    rw [hbefore] at hscan
    obtain ⟨rfl, htoken⟩ : found = some .where_ ∧ t.token = ⟨8, "where".toList⟩ := by
      simpa [Except.toOption] using hscan
    exact ⟨s', t', hnone, hstayed.depth, hstayed.connectives, hafter, hstep.token_eq ▸ htoken⟩
  · have hread : ((path 5).read.run' ⟨.ofText " a.'b'[2]. = 1", 2, 1⟩).any
        Option.isNone = true := by
      decide +kernel
    have hscan : (Scanner.measure (Rule.identifier true) (.ofText " a.'b'[2]. = 1")).toOption.any
        (fun r => r.1 == some () && r.2.token == ⟨1, ['a']⟩) = true := by
      decide +kernel
    obtain ⟨s', hnone⟩ := exists_absent hread
    obtain ⟨hstayed, hrule, -⟩ := (path 5).keeps_next_token rfl hnone
    obtain ⟨found, t, t', hbefore, hafter, hstep⟩ := hrule (Rule.identifier true)
    rw [hbefore] at hscan
    obtain ⟨rfl, htoken⟩ : found = some () ∧ t.token = ⟨1, ['a']⟩ := by
      simpa [Except.toOption] using hscan
    exact ⟨s', t', hnone, hstayed.depth, hstayed.connectives, hafter, hstep.token_eq ▸ htoken⟩

end Grammar

end DocQuery
