import DocQuery.Proofs.Canonical.Plain

/-!
# Paths that need no quotes

Canonical text leaves the quotes of a path out where its characters and its first
word allow it.  That is what a predicate reads as the same path without quotes, for
every text but two kinds.  A text with a dot or a bracket out of place passes the
check and is not read back, and a path with `@` behind a dot is read and does not
pass the check.  The main statement is `Path.isBare_isReadBack`.
-/

namespace DocQuery

open Lexical

/-- The field that a predicate starts with, unless it is the condition `true`. -/
def Grammar.leadingField (fuel : Nat) : Read (Option Path) := do
  if ← scan (Scanner.keyword .true_) then return none else path fuel

namespace Path

/-- A predicate starts with the text as a path without quotes that ends where the text does. -/
def isReadBack (text : String) : Bool :=
  (Grammar.readWhole Grammar.leadingField text).any fun path => path.text == text && !path.quoted

theorem isReadBack_iff {text : String} :
    isReadBack text = true ↔ Written.NoWord .true_ text.toList ∧ Spelled text := by
  have hs := Grammar.stands_ofText text
  rw [← isSpelled_iff]
  constructor
  · intro h
    obtain ⟨p, hread, hp⟩ := (Option.any_eq_true _ _).mp h
    obtain ⟨s', hrun, hahead⟩ := Grammar.exists_of_readWhole hread
    obtain ⟨found, s₁, hword, hrun⟩ := Grammar.bind_eq_ok hrun
    rcases Grammar.keyword_eq_ok hs hword with ⟨rfl, hno, rfl⟩ | ⟨_, _, rfl, -, -⟩
    · refine ⟨hno, ?_⟩
      rw [isSpelled, Grammar.readWhole_eq_some hrun hahead]
      exact hp
    · obtain ⟨hnone, -⟩ := Grammar.pure_eq_ok hrun
      cases hnone
  · rintro ⟨hno, h⟩
    obtain ⟨p, hread, hp⟩ := (Option.any_eq_true _ _).mp h
    obtain ⟨s', hrun, hahead⟩ := Grammar.exists_of_readWhole hread
    have hleading : Grammar.leadingField (Session.fuelFor text) ⟨.ofText text, 0, 0⟩ =
        .ok (some p) s' := by
      rw [Grammar.leadingField, Grammar.bind_of_ok _ (Grammar.keyword_of_noWord hs hno)]
      exact hrun
    rw [isReadBack, Grammar.readWhole_eq_some hleading hahead]
    exact hp

/-! ## Dots and brackets in their places -/

/-- A character that neither joins pieces of a path nor encloses an index. -/
def isInner (c : Char) : Bool :=
  c != '.' && c != '[' && c != ']'

/-- Nothing, or digits in brackets. -/
inductive Bracketed : List Char → Prop where
  | absent : Bracketed []
  | digits {ds : List Char} : ds.all Char.isDigit = true → Bracketed ('[' :: (ds ++ [']']))

/-- Pieces with dots between them, of which each has a name and at most one index. -/
inductive Joined : List Char → Prop where
  | last {name index : List Char} :
      name ≠ [] → name.all isInner = true → Bracketed index → Joined (name ++ index)
  | more {name index cs : List Char} :
      name ≠ [] → name.all isInner = true → Bracketed index → Joined cs →
      Joined (name ++ (index ++ '.' :: cs))

theorem isPart_of_isInner {c : Char} (hbare : isBarePart c = true) (hinner : isInner c = true) :
    Identifier.isPart c = true := by
  simp only [isInner, Bool.and_eq_true, bne_iff_ne] at hinner
  obtain ⟨⟨hdot, hopen⟩, hclose⟩ := hinner
  simpa [isBarePart, hdot, hopen, hclose] using hbare

theorem all_isInner {beginning : Bool} {name : List Char}
    (hname : Identifier.isName beginning name = true) : name ≠ [] ∧ name.all isInner = true := by
  constructor
  · rintro rfl
    cases hname
  have hdot := Identifier.not_mem_of_isName hname (c := '.') (by decide) (by decide)
  have hopen := Identifier.not_mem_of_isName hname (c := '[') (by decide) (by decide)
  have hclose := Identifier.not_mem_of_isName hname (c := ']') (by decide) (by decide)
  rw [List.all_eq_true]
  intro c hc
  simp only [isInner, Bool.and_eq_true, bne_iff_ne]
  exact ⟨⟨fun h => hdot (h ▸ hc), fun h => hopen (h ▸ hc)⟩, fun h => hclose (h ▸ hc)⟩

end Path

namespace Written

variable {cs rest : List Char} {text : String}

theorem Index.bracketed (h : Index cs text rest) : DocQuery.Path.Bracketed text.toList := by
  cases h with
  | absent _ => exact .absent
  | empty _ _ _ => exact @DocQuery.Path.Bracketed.digits [] rfl
  | @number _ _ token _ _ htake hpositive _ =>
      have hbracketed := DocQuery.Path.Bracketed.digits
        (Numeral.all_isDigit htake.measured hpositive)
      simpa using hbracketed

/-- A first name with what follows it without quotes has its dots and brackets in their places. -/
theorem Tail.joined {quoted : Bool} (h : Tail cs text quoted rest) (hquoted : quoted = false)
    {beginning : Bool} {name : List Char} (hname : Identifier.isName beginning name = true) :
    DocQuery.Path.Joined (name ++ text.toList) := by
  obtain ⟨hne, hinner⟩ := DocQuery.Path.all_isInner hname
  induction h generalizing beginning name with
  | last hindex _ => exact .last hne hinner hindex.bracketed
  | @more _ _ _ _ token _ bracket text more _ _ hindex _ hsegment _ ih =>
      simp only [Bool.or_eq_false_iff] at hquoted
      obtain ⟨rfl, hothers⟩ := hquoted
      cases hsegment with
      | name htake =>
          obtain ⟨htoken, -⟩ := name_of_takes htake
          obtain ⟨hne', hinner'⟩ := DocQuery.Path.all_isInner htoken
          have hjoined := DocQuery.Path.Joined.more hne hinner hindex.bracketed
            (ih hothers htoken hne' hinner')
          simpa using hjoined

end Written

namespace Lexical

/-- Digits by themselves are a whole number. -/
theorem Numeral.size?_digits {ds : List Char} (hne : ds ≠ []) (hdigits : ds.all Char.isDigit = true)
    {rest : List Char} (hrest : NoPart rest) : size? (ds ++ rest) = some (ds.length, .long) := by
  have hpieces : IsDigits ds := ⟨hne, List.all_eq_true.mp hdigits⟩
  refine Rule.number_eq_some_iff.mpr
    ⟨⟨⟨[], ds, [], [], .inl rfl, hpieces, .inl rfl, .inl rfl⟩, ?_, rfl⟩, fun pieces hprefix => ?_⟩
  · simp [Pieces.chars]
  · exact (Pieces.prefix_of_noPart hprefix hrest).length_le

end Lexical

namespace Path

theorem Bracketed.index {index : List Char} (h : Bracketed index) {other : List Char}
    (hother : Written.NoMark '[' other) :
    Written.Index (index ++ other) (String.ofList index) other := by
  cases h with
  | absent => exact .absent hother
  | @digits ds hdigits =>
      by_cases hne : ds = []
      · subst hne
        exact .empty (Written.mark_cons _ rfl) rfl (Written.mark_cons _ rfl)
      · have hmeasured : Rule.number (ds ++ ']' :: other) = some (ds.length, .long) :=
          Numeral.size?_digits hne hdigits rfl
        obtain ⟨d, more, rfl⟩ := List.exists_cons_of_ne_nil hne
        rw [List.all_cons, Bool.and_eq_true] at hdigits
        have htake : Takes Rule.number (d :: more ++ ']' :: other) (d :: more) .long (']' :: other) :=
          ⟨Trivia.rest_solid _ (isSolid_of_isDigit hdigits.1), hmeasured⟩
        have hpositive : (d :: more).head? ≠ some '-' := by
          rintro h
          cases h
          cases hdigits.1
        have htext : String.ofList ('[' :: (d :: more ++ [']'])) =
            "[" ++ String.ofList (d :: more) ++ "]" := by
          rw [← String.toList_inj]
          simp
        rw [htext, List.cons_append, List.append_assoc, List.singleton_append]
        exact .number (Written.mark_cons _ rfl) htake hpositive (Written.mark_cons _ rfl)

/-- Pieces in their places are a first name and what follows it in a path without quotes. -/
theorem Joined.exists_tail {cs : List Char} (h : Joined cs) (hbare : cs.tail.all isBarePart = true) :
    ∃ name more, cs = name ++ String.toList more ∧ name ≠ [] ∧ name.all isInner = true ∧
      Identifier.NoPart more.toList ∧ Written.Tail more.toList more false [] := by
  induction h with
  | @last name index hne hinner hindex =>
      have htail := @Bracketed.index _ hindex [] rfl
      rw [List.append_nil] at htail
      refine ⟨name, String.ofList index, by simp, hne, hinner, ?_, ?_⟩
      · rw [String.toList_ofList]
        cases hindex <;> rfl
      · rw [String.toList_ofList]
        exact .last htail rfl
  | @more name index cs hne hinner hindex hjoined ih =>
      obtain ⟨c, first, rfl⟩ := List.exists_cons_of_ne_nil hne
      rw [List.cons_append, List.tail_cons, List.all_append, List.all_append, List.all_cons,
        Bool.and_eq_true, Bool.and_eq_true, Bool.and_eq_true] at hbare
      have hcs := hbare.2.2.2
      obtain ⟨second, more, rfl, hsecond, hinner', hpart, htail⟩ :=
        ih (List.all_eq_true.mpr fun c hc => List.all_eq_true.mp hcs c (List.mem_of_mem_tail hc))
      -- a name behind a dot has no characters but those that go on with a name
      have hparts : second.all Identifier.isPart = true := by
        rw [List.all_append, Bool.and_eq_true] at hcs
        rw [List.all_eq_true] at hinner' ⊢
        exact fun c hc => isPart_of_isInner (List.all_eq_true.mp hcs.1 c hc) (hinner' c hc)
      have hname : Identifier.isName false second = true := by
        obtain ⟨d, second, rfl⟩ := List.exists_cons_of_ne_nil hsecond
        rw [List.all_cons, Bool.and_eq_true] at hparts
        simp [Identifier.isName, Identifier.mayOpen, hparts]
      have hsegment := Written.Segment.name (Written.takes_name hname hpart)
      have hwhole := Written.Tail.more (hindex.index (Written.noMark_cons _ rfl (by decide)))
        (Written.mark_cons (second ++ more.toList) rfl) hsegment htail
      refine ⟨c :: first, String.ofList index ++ "." ++ String.ofList second ++ more, by simp, hne,
        hinner, ?_, ?_⟩
      · cases hindex <;> simp [Identifier.NoPart] <;> decide
      · simpa using hwhole

theorem Spelled.joined {text : String} (h : Spelled text) : Joined text.toList := by
  obtain ⟨size, cs, span, rest, hpath⟩ := h
  generalize hp : (⟨text, span, false⟩ : Path) = p at hpath
  cases hpath with
  | @mk token r _ _ more quoted others hsegment _ htail =>
      simp only [Path.mk.injEq, Bool.false_eq, Bool.or_eq_false_iff] at hp
      obtain ⟨rfl, -, rfl, hothers⟩ := hp
      cases hsegment with
      | name htake =>
          rw [String.toList_append, String.toList_ofList]
          exact htail.joined hothers (Written.name_of_takes htake).1

/-- A text that may do without quotes and has its dots and brackets in their places is a path. -/
theorem Joined.spelled {text : String} (h : Joined text.toList)
    (hbare : isBare text.toList = true) : Spelled text := by
  cases htext : text.toList with
  | nil =>
      rw [htext] at hbare
      cases hbare
  | cons c cs =>
      rw [htext] at h hbare
      simp only [isBare, Bool.and_eq_true, Bool.not_eq_true'] at hbare
      obtain ⟨⟨hstart, hparts⟩, hword⟩ := hbare
      obtain ⟨name, more, hsplit, hne, hinner, hpart, htail⟩ := h.exists_tail hparts
      obtain ⟨d, first, rfl⟩ := List.exists_cons_of_ne_nil hne
      rw [List.cons_append] at hsplit
      obtain ⟨rfl, rfl⟩ := List.cons.inj hsplit
      have hname : Identifier.isName true (c :: first) = true := by
        rw [List.all_append, Bool.and_eq_true] at hparts
        rw [List.all_cons, Bool.and_eq_true] at hinner
        rw [Identifier.isName, Identifier.mayOpen, if_pos rfl, hstart, Bool.true_and,
          List.all_eq_true]
        exact fun d hd => isPart_of_isInner (List.all_eq_true.mp hparts.1 d hd)
          (List.all_eq_true.mp hinner.2 d hd)
      have hfree : Written.isReserved (c :: first) = false := by
        rw [← List.cons_append, head_name hname htail.start, ← Bool.not_eq_true,
          Option.any_eq_true] at hword
        rw [Written.isReserved, ← Bool.not_eq_true, Option.any_eq_true]
        rintro ⟨keyword, hfound, hreserved⟩
        exact hword ⟨keyword, hfound, Bool.or_eq_true_iff.mpr (Or.inl hreserved)⟩
      have hpath : Written.Path 0 (c :: first ++ more.toList) _ [] :=
        .mk (.name (Written.takes_name hname hpart)) hfree htail
      have hwhole : String.ofList (c :: first) ++ more = text := by
        rw [← String.toList_inj, htext]
        simp
      rw [hwhole] at hpath
      exact ⟨0, _, _, _, hpath⟩

/--
The check for a path that needs no quotes and the reading of a path without quotes
agree but for two kinds of texts.  A text that passes the check is read back if its
dots and brackets are in their places, and only then.  A path that is read without
quotes passes the check if it has `@` at most in front, and only then.
-/
theorem isBare_isReadBack (text : String) :
    (isBare text.toList = true → (isReadBack text = true ↔ Joined text.toList)) ∧
      (isReadBack text = true → (isBare text.toList = true ↔ '@' ∉ text.toList.tail)) := by
  rw [isReadBack_iff]
  constructor
  · intro hbare
    refine ⟨fun h => h.2.joined, fun hjoined => ?_⟩
    have hlegible : Path.Legible ⟨text, .zero, false⟩ := ⟨hbare, hjoined.spelled hbare⟩
    have hstart := (@Legible.start _ hlegible [] rfl).2
    rw [render_of_bare rfl hbare, List.append_nil] at hstart
    exact ⟨hstart, hjoined.spelled hbare⟩
  · rintro ⟨hno, hspelled⟩
    rw [hspelled.isBare_iff, and_iff_left]
    obtain ⟨name, more, htext, hname, hfree, hhead, hmore, -⟩ := hspelled.split
    have hpart : Identifier.NoPart more := by
      have hend := @hmore [] rfl
      rwa [List.append_nil] at hend
    rw [Written.NoWord, Passes, htext, Written.rest_name hname,
      Keyword.noKeyword_at_name_iff rfl hname hpart] at hno
    have hnames : Keyword.names [.true_] name = false := by rw [Keyword.names, List.any_cons, hno]; rfl
    rw [Keyword.names_eq (by decide) hname] at hnames
    rw [hhead, ← Bool.not_eq_true, Option.any_eq_true]
    rintro ⟨keyword, hfound, hbarred⟩
    rw [Written.isReserved, hfound, Option.any_some] at hfree
    rw [hfound, Option.any_some] at hnames
    rcases Bool.or_eq_true_iff.mp hbarred with hreserved | htrue
    · rw [Keyword.isReserved, hfree] at hreserved
      cases hreserved
    · rw [beq_iff_eq.mp htrue] at hnames
      cases hnames

/-- A path with an index behind a dot passes the check and is read back. -/
theorem isBare_isReadBack_index :
    isBare "a.b[3]".toList = true ∧ isReadBack "a.b[3]" = true := by
  have hjoined : Joined "a.b[3]".toList :=
    .more (List.cons_ne_nil 'a' []) rfl .absent
      (.last (List.cons_ne_nil 'b' []) rfl (@Bracketed.digits ['3'] rfl))
  have hbare : isBare "a.b[3]".toList = true := by decide +kernel
  have hread := ((isBare_isReadBack "a.b[3]").1 hbare).mpr hjoined
  exact ⟨((isBare_isReadBack "a.b[3]").2 hread).mpr (by decide +kernel), hread⟩

end Path

end DocQuery
