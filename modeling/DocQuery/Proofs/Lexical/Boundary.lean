import DocQuery.Proofs.Lexical.Phrase

/-!
# Where words end

A name is the longest run of its characters, so it is found again in front of
any text that does not go on with it.  A word of the language is found at a name
exactly if the whole name is that word.  Canonical text puts a blank, a comma, a
parenthesis or its own end behind every token.
-/

namespace DocQuery.Text

/-! ## Words -/

theorem sameWord_iff {v w : List Char} :
    sameWord v w = true ↔ v.map Char.toLower = w.map Char.toLower := by
  induction v generalizing w with
  | nil => cases w <;> simp [sameWord]
  | cons c v ih =>
      cases w with
      | nil => simp [sameWord]
      | cons d w => simp [sameWord, sameLetter, ih]

theorem sameWord_congr {u v w : List Char} (h : sameWord v w = true) :
    sameWord u w = sameWord u v := by
  rw [Bool.eq_iff_iff, sameWord_iff, sameWord_iff, sameWord_iff.mp h]

/-- Characters without white space are one word. -/
theorem words_of_solid {cs : List Char} (hne : cs ≠ []) (h : ∀ c ∈ cs, isBlank c = false) :
    words cs = [cs] := by
  induction cs with
  | nil => exact absurd rfl hne
  | cons c cs ih =>
      have hc := h c List.mem_cons_self
      cases cs with
      | nil => simp [words, hc]
      | cons d cs =>
          have hd := h d (List.mem_cons_of_mem c List.mem_cons_self)
          rw [words, if_neg (by simp [hc])]
          simp only [hd, Bool.false_eq_true, if_false]
          rw [ih (List.cons_ne_nil d cs) fun e he => h e (List.mem_cons_of_mem c he), consFirst]

end DocQuery.Text

namespace DocQuery.Lexical

open Text

/-! ## Trivia -/

/-- The character is no trivia, and no comment starts with it. -/
def isSolid (c : Char) : Bool :=
  !isBlank c && c != '/' && c != '-'

namespace Trivia

theorem rest_solid {c : Char} (cs : List Char) (h : isSolid c = true) :
    rest (c :: cs) = c :: cs := by
  simp only [isSolid, Bool.and_eq_true, Bool.not_eq_true', bne_iff_ne, ne_eq] at h
  obtain ⟨⟨hblank, hslash⟩, hminus⟩ := h
  have hlength : length (c :: cs) = 0 := by
    rw [length, lengthFrom, if_neg (by simp [hblank])]
    · exact fun _ heq => absurd heq hminus
    · exact fun _ heq => absurd heq hslash
    · exact fun _ heq => absurd heq hslash
  rw [rest, hlength, List.drop_zero]

theorem rest_minus {d : Char} (cs : List Char) (h : d ≠ '-') :
    rest ('-' :: d :: cs) = '-' :: d :: cs := by
  have hlength : length ('-' :: d :: cs) = 0 := by
    rw [length, lengthFrom, if_neg (by decide)]
    · intro _ _ heq
      exact h (List.cons.inj heq).1
    · exact fun _ heq => absurd heq (by decide)
    · exact fun _ heq => absurd heq (by decide)
  rw [rest, hlength, List.drop_zero]

theorem lengthFrom_pos {place : Place} {c : Char} (cs : List Char) (h : place ≠ .between) :
    0 < lengthFrom place (c :: cs) := by
  cases place with
  | between => exact absurd rfl h
  | line =>
      rw [lengthFrom]
      split <;> omega
  | block =>
      unfold lengthFrom
      split <;> first | omega | simp_all

/-- The first character of a piece is that of the text that it starts. -/
theorem cons_of_append {gap ds cs : List Char} {c : Char} {n : Nat} (h : gap ++ ds = c :: cs)
    (hn : n + 1 = gap.length) : ∃ gap', gap = c :: gap' ∧ gap' ++ ds = cs ∧ n = gap'.length := by
  cases gap with
  | nil => cases hn
  | cons d gap =>
      obtain ⟨rfl, rfl⟩ := List.cons.inj h
      exact ⟨gap, rfl, rfl, Nat.succ.inj hn⟩

/-- Trivia that ends in front of one text ends in front of any other one. -/
theorem lengthFrom_append {place : Place} {gap ds : List Char}
    (h : lengthFrom place (gap ++ ds) = gap.length) (hds : ds ≠ []) (es : List Char) :
    lengthFrom place (gap ++ es) = gap.length + lengthFrom .between es := by
  generalize hcs : gap ++ ds = cs at h
  fun_induction lengthFrom place cs generalizing gap with
  | case1 => exact absurd (List.append_eq_nil_iff.mp hcs).2 hds
  | case2 cs ih =>
      obtain ⟨gap, rfl, hcs, h⟩ := cons_of_append hcs h
      obtain ⟨gap, rfl, hcs, h⟩ := cons_of_append hcs h
      rw [List.cons_append, List.cons_append, lengthFrom, ih hcs h]
      simp only [List.length_cons]
      omega
  | case3 cs ih =>
      obtain ⟨gap, rfl, hcs, h⟩ := cons_of_append hcs h
      obtain ⟨gap, rfl, hcs, h⟩ := cons_of_append hcs h
      rw [List.cons_append, List.cons_append, lengthFrom, ih hcs h]
      simp only [List.length_cons]
      omega
  | case4 cs ih =>
      obtain ⟨gap, rfl, hcs, h⟩ := cons_of_append hcs h
      obtain ⟨gap, rfl, hcs, h⟩ := cons_of_append hcs h
      rw [List.cons_append, List.cons_append, lengthFrom, ih hcs h]
      simp only [List.length_cons]
      omega
  | case5 c cs _ _ _ hblank ih =>
      obtain ⟨gap, rfl, hcs, h⟩ := cons_of_append hcs h
      have hstep := length_blank (gap ++ es) hblank
      simp only [length] at hstep
      rw [List.cons_append, hstep, ih hcs h]
      simp only [List.length_cons]
      omega
  | case6 c cs _ _ _ hblank =>
      obtain rfl : gap = [] := List.length_eq_zero_iff.mp h.symm
      simp
  | case7 cs ih =>
      obtain ⟨gap, rfl, hcs, h⟩ := cons_of_append hcs h
      rw [List.cons_append, lengthFrom, if_pos rfl, ih hcs h]
      simp only [List.length_cons]
      omega
  | case8 c cs hc ih =>
      obtain ⟨gap, rfl, hcs, h⟩ := cons_of_append hcs h
      rw [List.cons_append, lengthFrom, if_neg hc, ih hcs h]
      simp only [List.length_cons]
      omega
  | case9 cs ih =>
      obtain ⟨gap, rfl, hcs, h⟩ := cons_of_append hcs h
      obtain ⟨gap, rfl, hcs, h⟩ := cons_of_append hcs h
      rw [List.cons_append, List.cons_append, lengthFrom, ih hcs h]
      simp only [List.length_cons]
      omega
  | case10 c cs hclose ih =>
      obtain ⟨gap, rfl, hcs, h⟩ := cons_of_append hcs h
      rw [List.cons_append, lengthFrom, ih hcs h]
      · simp only [List.length_cons]
        omega
      · intro rest hc heq
        cases gap with
        | nil =>
            obtain ⟨d, ds, rfl⟩ := List.exists_cons_of_ne_nil hds
            have hpos := @lengthFrom_pos .block d ds (by decide)
            rw [← hcs, List.nil_append, List.length_nil] at h
            omega
        | cons d gap =>
            obtain ⟨rfl, -⟩ := List.cons.inj heq
            exact hclose _ hc hcs.symm

/-- What is behind trivia may be exchanged for anything that does not start with trivia. -/
theorem rest_append {gap ds es : List Char} (h : rest (gap ++ ds) = ds) (hds : ds ≠ [])
    (hes : rest es = es) : rest (gap ++ es) = es := by
  have hle := lengthFrom_le .between (gap ++ ds)
  have hpos := List.length_pos_iff.mpr hds
  have hcut := congrArg List.length h
  have hnone := congrArg List.length hes
  have hle' := lengthFrom_le .between es
  simp only [rest, length, List.length_drop, List.length_append] at hcut hnone hle
  have hlength := lengthFrom_append (show lengthFrom .between (gap ++ ds) = gap.length by omega)
    hds es
  rw [rest, length, hlength, show lengthFrom .between es = 0 by omega, Nat.add_zero,
    List.drop_left]

/-- The trivia in front of a text may stand in front of any other one as well. -/
theorem exists_gap {cs ds : List Char} (h : rest cs = ds) (hds : ds ≠ []) :
    ∃ gap, cs = gap ++ ds ∧ ∀ {es}, rest es = es → rest (gap ++ es) = es := by
  have hcut := skipped_append_rest cs
  rw [h] at hcut
  refine ⟨skipped cs, hcut.symm, fun hes => rest_append ?_ hds hes⟩
  rw [hcut, h]

end Trivia

/-! ## Characters of names -/

namespace Identifier

/-- A text does not go on with a name. -/
def NoPart (cs : List Char) : Prop :=
  cs.head?.any isPart = false

/-- A letter that has another case starts a name in either case. -/
theorem isStart_of_toLower_ne {c : Char} (h : c.toLower ≠ c) :
    isStart c = true ∧ isStart c.toLower = true ∧ isPart c = true ∧ isPart c.toLower = true := by
  have hrange : 65 ≤ c.toNat ∧ c.toNat ≤ 90 := by
    unfold Char.toLower at h
    split at h
    · next hupper => exact ⟨hupper.1, hupper.2⟩
    · exact absurd rfl h
  have hletters : ∀ n ≤ 90, 65 ≤ n →
      isStart (Char.ofNat n) = true ∧ isStart (Char.ofNat n).toLower = true ∧
        isPart (Char.ofNat n) = true ∧ isPart (Char.ofNat n).toLower = true := by
    decide
  have hletter := hletters c.toNat hrange.2 hrange.1
  rwa [Char.ofNat_toNat] at hletter

theorem isPart_of_sameLetter {c d : Char} (h : sameLetter c d = true) : isPart c = isPart d := by
  have hlower : ∀ c : Char, isPart c.toLower = isPart c := by
    intro c
    by_cases hsame : c.toLower = c
    · rw [hsame]
    · obtain ⟨-, -, hpart, hpart'⟩ := isStart_of_toLower_ne hsame
      rw [hpart, hpart']
  rw [← hlower c, ← hlower d, beq_iff_eq.mp h]

theorem isStart_of_sameLetter {c d : Char} (h : sameLetter c d = true) :
    isStart c = isStart d := by
  have hlower : ∀ c : Char, isStart c.toLower = isStart c := by
    intro c
    by_cases hsame : c.toLower = c
    · rw [hsame]
    · obtain ⟨hstart, hstart', -, -⟩ := isStart_of_toLower_ne hsame
      rw [hstart, hstart']
  rw [← hlower c, ← hlower d, beq_iff_eq.mp h]

theorem isSolid_of_mayOpen {beginning : Bool} {c : Char} (h : mayOpen beginning c = true) :
    isSolid c = true := by
  have hopen : (isStart c || isPart c) = true := by
    unfold mayOpen at h
    split at h
    · rw [h, Bool.true_or]
    · exact h
  have hother : ∀ d, (isStart d || isPart d) = false → c ≠ d := by
    rintro d hd rfl
    rw [hopen] at hd
    cases hd
  have hblank : isBlank c = false := by
    rw [← Bool.not_eq_true]
    intro hmem
    have hblanks : blanks.all (fun d => !(isStart d || isPart d)) = true := by decide +kernel
    have hnone := List.all_eq_true.mp hblanks c (List.contains_iff_mem.mp hmem)
    exact hother c ((Bool.not_eq_true' _).mp hnone) rfl
  simp only [isSolid, hblank, Bool.not_false, Bool.true_and, Bool.and_eq_true, bne_iff_ne]
  exact ⟨hother '/' (by decide), hother '-' (by decide)⟩

/-! ## Names -/

/-- All of the text is one name. -/
def isName (beginning : Bool) : List Char → Bool
  | [] => false
  | c :: cs => mayOpen beginning c && cs.all isPart

theorem isStart_or_isPart {beginning : Bool} {name : List Char}
    (hname : isName beginning name = true) {c : Char} (hc : c ∈ name) :
    isStart c = true ∨ isPart c = true := by
  cases name with
  | nil => cases hname
  | cons d ds =>
      simp only [isName, Bool.and_eq_true] at hname
      rcases List.mem_cons.mp hc with rfl | hmem
      · cases beginning with
        | true => exact Or.inl hname.1
        | false => exact Bool.or_eq_true_iff.mp hname.1
      · exact Or.inr (List.all_eq_true.mp hname.2 c hmem)

/-- Punctuation does not stand in a name. -/
theorem not_mem_of_isName {beginning : Bool} {name : List Char}
    (hname : isName beginning name = true) {c : Char} (hstart : isStart c = false)
    (hpart : isPart c = false) : c ∉ name := by
  intro hc
  rcases isStart_or_isPart hname hc with h | h
  · rw [hstart] at h
    cases h
  · rw [hpart] at h
    cases h

/-- A name is a name in any case. -/
theorem isName_of_sameWord {beginning : Bool} {v w : List Char} (h : sameWord v w = true)
    (hv : isName beginning v = true) : isName beginning w = true := by
  have hparts : ∀ {v w : List Char}, sameWord v w = true → v.all isPart = w.all isPart := by
    intro v
    induction v with
    | nil =>
        intro w h
        cases w with
        | nil => rfl
        | cons d w => cases h
    | cons c v ih =>
        intro w h
        cases w with
        | nil => cases h
        | cons d w =>
            simp only [sameWord, Bool.and_eq_true] at h
            rw [List.all_cons, List.all_cons, isPart_of_sameLetter h.1, ih h.2]
  cases v with
  | nil => cases hv
  | cons c v =>
      cases w with
      | nil => cases h
      | cons d w =>
          simp only [sameWord, Bool.and_eq_true] at h
          rw [isName] at hv ⊢
          rw [← hparts h.2]
          cases beginning with
          | true => simpa [mayOpen, isStart_of_sameLetter h.1] using hv
          | false =>
              simpa [mayOpen, isStart_of_sameLetter h.1, isPart_of_sameLetter h.1] using hv

theorem length?_name {beginning : Bool} {name : List Char} (hname : isName beginning name = true)
    {other : List Char} (hother : NoPart other) :
    length? beginning (name ++ other) = some name.length := by
  cases name with
  | nil => cases hname
  | cons c cs =>
      simp only [isName, Bool.and_eq_true] at hname
      have hrun : (cs ++ other).takeWhile isPart = cs := by
        rw [List.takeWhile_append_of_pos (List.all_eq_true.mp hname.2)]
        cases other with
        | nil => simp
        | cons d other =>
            have hd : isPart d = false := hother
            simp [hd]
      rw [List.cons_append, length?, if_pos hname.1, hrun, List.length_cons]

/-- What is measured at the head of a text is a name that ends there. -/
theorem name_of_length? {beginning : Bool} {token rest : List Char}
    (h : length? beginning (token ++ rest) = some token.length) :
    isName beginning token = true ∧ NoPart rest := by
  cases token with
  | nil => exact absurd (length?_pos h) (Nat.lt_irrefl 0)
  | cons c cs =>
      rw [List.cons_append, length?] at h
      split at h
      · next hopen =>
          simp only [List.length_cons, Option.some.injEq, Nat.add_right_cancel_iff] at h
          rw [List.takeWhile_append] at h
          split at h
          · next hall =>
              have hcs : cs.takeWhile isPart = cs :=
                (List.takeWhile_prefix isPart).eq_of_length hall
              refine ⟨?_, ?_⟩
              · rw [isName, hopen, Bool.true_and, ← hcs]
                exact List.all_takeWhile
              · rw [List.length_append] at h
                have hnone : rest.takeWhile isPart = [] := List.length_eq_zero_iff.mp (by omega)
                cases rest with
                | nil => rfl
                | cons d rest =>
                    rw [List.takeWhile_cons] at hnone
                    split at hnone
                    · cases hnone
                    · next hd => exact Bool.not_eq_true _ |>.mp hd
          · next hsome => exact absurd h hsome
      · cases h

/-- A name is one word. -/
theorem words_name {beginning : Bool} {name : List Char} (hname : isName beginning name = true) :
    words name = [name] := by
  cases name with
  | nil => cases hname
  | cons c cs =>
      simp only [isName, Bool.and_eq_true] at hname
      refine words_of_solid (List.cons_ne_nil c cs) ?_
      intro d hd
      have hsolid : isSolid d = true := by
        rcases List.mem_cons.mp hd with rfl | hmem
        · exact isSolid_of_mayOpen hname.1
        · have hpart := List.all_eq_true.mp hname.2 d hmem
          exact @isSolid_of_mayOpen false d (by simp [mayOpen, hpart])
      simp only [isSolid, Bool.and_eq_true, Bool.not_eq_true'] at hsolid
      exact hsolid.1.1

end Identifier

/-! ## Words at names -/

namespace Phrase

open Identifier

/-- A word matches characters of a name, and ends with them, if it is those characters. -/
theorem startsWithWord_parts {word cs other : List Char} (hword : word.all isPart = true)
    (hcs : cs.all isPart = true) (hother : NoPart other) :
    (startsWithWord word (cs ++ other) &&
      !((cs ++ other).drop word.length).head?.any isPart) = sameWord word cs := by
  induction word generalizing cs with
  | nil =>
      cases cs with
      | nil => simp [startsWithWord, sameWord, show other.head?.any isPart = false from hother]
      | cons c cs =>
          simp only [List.all_cons, Bool.and_eq_true] at hcs
          simp [startsWithWord, sameWord, hcs.1]
  | cons d word ih =>
      simp only [List.all_cons, Bool.and_eq_true] at hword
      cases cs with
      | nil =>
          cases other with
          | nil => rfl
          | cons e other =>
              have hletter : sameLetter d e = false := by
                rw [← Bool.not_eq_true]
                intro hsame
                have he : isPart e = false := hother
                rw [← isPart_of_sameLetter hsame, hword.1] at he
                cases he
              simp only [List.nil_append, startsWithWord, hletter, Bool.false_and, sameWord]
      | cons c cs =>
          simp only [List.all_cons, Bool.and_eq_true] at hcs
          rw [List.cons_append, startsWithWord, sameWord, List.length_cons, List.drop_succ_cons,
            Bool.and_assoc, ih hword.2 hcs.2]

/-- A word is found at a name exactly if it is the name. -/
theorem wordMatches_name {beginning : Bool} {word name other : List Char} (hne : word ≠ [])
    (hword : word.all isPart = true) (hname : isName beginning name = true)
    (hother : NoPart other) : wordMatches word (name ++ other) = sameWord word name := by
  have hlast : word.getLast?.any isPart = true := by
    rw [List.getLast?_eq_some_getLast hne]
    exact List.all_eq_true.mp hword _ (List.getLast_mem hne)
  cases word with
  | nil => exact absurd rfl hne
  | cons d word =>
      cases name with
      | nil => cases hname
      | cons c cs =>
          simp only [isName, Bool.and_eq_true] at hname
          simp only [List.all_cons, Bool.and_eq_true] at hword
          rw [wordMatches, runsOn, hlast, Bool.true_and, List.cons_append, startsWithWord, sameWord,
            List.length_cons, List.drop_succ_cons, Bool.and_assoc,
            startsWithWord_parts hword.2 hname.2 hother]

/-- A word of punctuation is not found at a name. -/
theorem wordMatches_mark {beginning : Bool} {word name other : List Char} {d : Char}
    (hd : word.head? = some d) (hmark : mayOpen false d = false)
    (hname : isName beginning name = true) : wordMatches word (name ++ other) = false := by
  cases word with
  | nil => cases hd
  | cons e word =>
      cases hd
      cases name with
      | nil => cases hname
      | cons c cs =>
          simp only [isName, Bool.and_eq_true] at hname
          have hletter : sameLetter d c = false := by
            rw [← Bool.not_eq_true]
            intro hsame
            have hopen := hname.1
            simp only [mayOpen, ← isStart_of_sameLetter hsame, ← isPart_of_sameLetter hsame]
              at hopen
            simp only [mayOpen, Bool.false_eq_true, if_false] at hmark
            rw [hmark] at hopen
            rw [Bool.or_eq_false_iff] at hmark
            rw [hmark.1, ite_self] at hopen
            cases hopen
          rw [wordMatches, List.cons_append, startsWithWord, hletter, Bool.false_and,
            Bool.false_and]

/-- The first word is a name or starts with punctuation. -/
def isClear (words : List (List Char)) : Bool :=
  words.head?.any fun word =>
    !word.isEmpty && word.all isPart || word.head?.any fun d => !mayOpen false d

/-- The first word is this name, in any case. -/
def opensWith (words : List (List Char)) (name : List Char) : Bool :=
  words.head?.any fun word => sameWord word name

/-- A phrase is not found at a name that is not its first word. -/
theorem length?_eq_none_of_name {beginning : Bool} {words : List (List Char)}
    {name other : List Char} (hclear : isClear words = true)
    (hopens : opensWith words name = false) (hname : isName beginning name = true)
    (hother : NoPart other) : length? words (name ++ other) = none := by
  cases words with
  | nil => rfl
  | cons word words =>
      have hword : wordMatches word (name ++ other) = false := by
        simp only [isClear, List.head?_cons, Option.any_some, Bool.or_eq_true, Bool.and_eq_true,
          Bool.not_eq_true', List.isEmpty_eq_false_iff] at hclear
        rcases hclear with ⟨hne, hparts⟩ | hmark
        · rw [wordMatches_name hne hparts hname hother]
          exact hopens
        · obtain ⟨d, hd, hmark⟩ := (Option.any_eq_true _ _).mp hmark
          exact wordMatches_mark hd (by simpa using hmark) hname
      rw [length?, if_neg (by simp [hword])]

end Phrase

namespace Rule

open Identifier

/-- No literal of a table is found at a name that none of them starts with. -/
theorem firstOf_eq_none_of_name {α : Type} {beginning : Bool} {table : List (String × α)}
    {name other : List Char}
    (hclear : ∀ entry ∈ table, Phrase.isClear (words entry.1.toList) = true)
    (hopens : ∀ entry ∈ table, Phrase.opensWith (words entry.1.toList) name = false)
    (hname : isName beginning name = true) (hother : NoPart other) :
    firstOf table (name ++ other) = none := by
  induction table with
  | nil => rfl
  | cons entry table ih =>
      obtain ⟨literal, meaning⟩ := entry
      rw [firstOf, Phrase.length?_eq_none_of_name (hclear _ List.mem_cons_self)
        (hopens _ List.mem_cons_self) hname hother]
      exact ih (fun entry hmem => hclear entry (List.mem_cons_of_mem _ hmem))
        (fun entry hmem => hopens entry (List.mem_cons_of_mem _ hmem))

/-- In a table of names, the first one is found that is the name at the head of the text. -/
theorem firstOf_name {α : Type} {beginning : Bool} {table : List (String × α)}
    {name other : List Char}
    (htable : ∀ entry ∈ table, isName true entry.1.toList = true ∧
      entry.1.toList.all isPart = true)
    (hname : isName beginning name = true) (hother : NoPart other) :
    firstOf table (name ++ other) =
      (table.find? fun entry => sameWord entry.1.toList name).map fun entry =>
        (entry.1.toList.length, entry.2) := by
  induction table with
  | nil => rfl
  | cons entry table ih =>
      obtain ⟨literal, meaning⟩ := entry
      obtain ⟨hword, hparts⟩ := htable _ List.mem_cons_self
      have hne : literal.toList ≠ [] := by
        intro hnil
        rw [hnil] at hword
        cases hword
      have hmatch := Phrase.wordMatches_name hne hparts hname hother
      rw [firstOf, words_name hword, Phrase.length?, hmatch, Phrase.tailLength?, List.find?_cons]
      cases hsame : sameWord literal.toList name with
      | true => rfl
      | false => exact ih fun entry hmem => htable entry (List.mem_cons_of_mem _ hmem)

end Rule

/-- What a table finds is one of its literals. -/
theorem Rule.firstOf_eq_some {α : Type} {table : List (String × α)} {cs : List Char} {n : Nat}
    {a : α}
    (h : firstOf table cs = some (n, a)) :
    ∃ literal, (literal, a) ∈ table ∧ Phrase.length? (Text.words literal.toList) cs = some n := by
  induction table with
  | nil => cases h
  | cons entry table ih =>
      simp only [firstOf] at h
      split at h
      · next hentry =>
          cases h
          exact ⟨entry.1, List.mem_cons_self, hentry⟩
      · obtain ⟨literal, hmem, hlength⟩ := ih h
        exact ⟨literal, List.mem_cons_of_mem _ hmem, hlength⟩

/-- A phrase of one word is written as that word, in any case. -/
theorem Phrase.sameWord_of_length? {word token rest : List Char}
    (h : length? [word] (token ++ rest) = some token.length) :
    Text.sameWord word token = true := by
  rw [length?] at h
  split at h
  · next hmatch =>
      simp only [tailLength?, Option.map_some, Option.some.injEq, Nat.add_zero] at h
      rw [wordMatches, Bool.and_eq_true] at hmatch
      obtain ⟨first, more, hcut, hlength, hsame⟩ := Text.startsWithWord_iff.mp hmatch.1
      obtain ⟨rfl, -⟩ := List.append_inj hcut (h.symm.trans hlength.symm)
      exact hsame
  · cases h

end DocQuery.Lexical

namespace DocQuery.Keyword

open Lexical Text

/-! ## Keywords at names -/

/-- A keyword that is one word. -/
def isSingle (keyword : Keyword) : Bool :=
  keyword.words == [keyword.text.toList]

theorem words_of_isSingle {keyword : Keyword} (h : keyword.isSingle = true) :
    keyword.words = [keyword.text.toList] :=
  beq_iff_eq.mp h

theorem isName_text {keyword : Keyword} (hsingle : keyword.isSingle = true) :
    Identifier.isName true keyword.text.toList = true ∧
      keyword.text.toList.all Identifier.isPart = true := by
  revert hsingle
  cases keyword <;> decide

/-- A keyword of one word is found at a name that is this word. -/
theorem length?_of_opensWith {beginning : Bool} {keyword : Keyword} {name other : List Char}
    (hsingle : keyword.isSingle = true) (hopens : Phrase.opensWith keyword.words name = true)
    (hname : Identifier.isName beginning name = true) (hother : Identifier.NoPart other) :
    Phrase.length? keyword.words (name ++ other) = some keyword.text.toList.length := by
  obtain ⟨hword, hparts⟩ := isName_text hsingle
  have hne : keyword.text.toList ≠ [] := by
    intro hnil
    rw [hnil] at hword
    cases hword
  have hmatch := Phrase.wordMatches_name hne hparts hname hother
  rw [words_of_isSingle hsingle] at hopens ⊢
  rw [Phrase.length?, if_pos (hmatch.trans hopens), Phrase.tailLength?]
  rfl

theorem isClear_words (keyword : Keyword) : Phrase.isClear keyword.words = true := by
  cases keyword <;> decide

theorem isStart_words (keyword : Keyword) :
    (keyword.words.head?.any fun word => word.head?.any Identifier.isStart) = true := by
  cases keyword <;> decide

/-- No keyword is found at punctuation. -/
theorem noKeyword_at_mark (keyword : Keyword) {c : Char} (hc : Identifier.isStart c = false)
    (cs : List Char) : Rule.keyword keyword (c :: cs) = none := by
  obtain ⟨word, hword, hstart⟩ := (Option.any_eq_true _ _).mp keyword.isStart_words
  obtain ⟨d, hd, hstart⟩ := (Option.any_eq_true _ _).mp hstart
  obtain ⟨words, hwords⟩ := List.head?_eq_some_iff.mp hword
  obtain ⟨more, hmore⟩ := List.head?_eq_some_iff.mp hd
  have hletter : sameLetter d c = false := by
    rw [← Bool.not_eq_true]
    intro hsame
    rw [Identifier.isStart_of_sameLetter hsame, hc] at hstart
    cases hstart
  refine Rule.ofLength_eq_none.mpr ?_
  rw [show Text.words keyword.text.toList = (d :: more) :: words by rw [← hmore, ← hwords]; rfl,
    Phrase.length?, if_neg]
  simp [Phrase.wordMatches, startsWithWord, hletter]

/-- The name is one of the keywords, in any case. -/
def names (keywords : List Keyword) (name : List Char) : Bool :=
  keywords.any fun keyword => Phrase.opensWith keyword.words name

theorem noKeyword_at_name {beginning : Bool} {keyword : Keyword} {name other : List Char}
    (hopens : Phrase.opensWith keyword.words name = false)
    (hname : Identifier.isName beginning name = true) (hother : Identifier.NoPart other) :
    Rule.keyword keyword (name ++ other) = none :=
  Rule.ofLength_eq_none.mpr
    (Phrase.length?_eq_none_of_name keyword.isClear_words hopens hname hother)

theorem noneOf_at_name {beginning : Bool} {keywords : List Keyword} {name other : List Char}
    (hopens : names keywords name = false)
    (hname : Identifier.isName beginning name = true) (hother : Identifier.NoPart other) :
    Rule.anyKeyword keywords (name ++ other) = none := by
  refine Rule.firstOf_eq_none_of_name ?_ ?_ hname hother
  · intro entry hmem
    obtain ⟨keyword, -, rfl⟩ := List.mem_map.mp hmem
    exact keyword.isClear_words
  · intro entry hmem
    obtain ⟨keyword, hkeyword, rfl⟩ := List.mem_map.mp hmem
    exact Bool.not_eq_true _ |>.mp (List.any_eq_false.mp hopens keyword hkeyword)

/-! ## The keyword that a name is -/

theorem sameWords_singleton {ws : List (List Char)} {v w : List Char}
    (h : sameWord v w = true) : sameWords ws [w] = sameWords ws [v] := by
  cases ws with
  | nil => rfl
  | cons u ws =>
      cases ws with
      | nil => simp only [sameWords, sameWord_congr h]
      | cons u' ws => simp only [sameWords, Bool.and_false]

theorem ofText?_text (keyword : Keyword) : ofText? keyword.text.toList = some keyword := by
  cases keyword <;> decide

/-- A name that is a keyword of one word is recognised as that keyword. -/
theorem ofText?_of_sameWord {beginning : Bool} {keyword : Keyword} {name : List Char}
    (hsingle : keyword.isSingle = true) (hname : Identifier.isName beginning name = true)
    (hsame : sameWord keyword.text.toList name = true) : ofText? name = some keyword := by
  have hwords : Text.words keyword.text.toList = [keyword.text.toList] := words_of_isSingle hsingle
  have hsame' : ∀ other : Keyword, sameWords other.words (Text.words name) =
      sameWords other.words (Text.words keyword.text.toList) := by
    intro other
    rw [Identifier.words_name hname, hwords]
    exact sameWords_singleton hsame
  rw [← ofText?_text keyword, ofText?, ofText?, ofWords?, ofWords?]
  simp only [hsame']

/-- Some keyword of the list, each of one word, is the name. -/
theorem names_eq {beginning : Bool} {keywords : List Keyword} {name : List Char}
    (hsingle : ∀ keyword ∈ keywords, keyword.isSingle = true)
    (hname : Identifier.isName beginning name = true) :
    names keywords name = (ofText? name).any keywords.contains := by
  rw [Bool.eq_iff_iff, names, List.any_eq_true]
  constructor
  · rintro ⟨keyword, hmem, hopens⟩
    have hsame : sameWord keyword.text.toList name = true := by
      simpa [Phrase.opensWith, words_of_isSingle (hsingle keyword hmem)] using hopens
    rw [ofText?_of_sameWord (hsingle keyword hmem) hname hsame]
    exact List.contains_iff_mem.mpr hmem
  · intro hany
    obtain ⟨keyword, hfound, hmem⟩ := (Option.any_eq_true _ _).mp hany
    have hmem := List.contains_iff_mem.mp hmem
    have hsame := List.find?_some hfound
    rw [Identifier.words_name hname, words_of_isSingle (hsingle keyword hmem), sameWords, sameWords,
      Bool.and_true] at hsame
    refine ⟨keyword, hmem, ?_⟩
    simpa [Phrase.opensWith, words_of_isSingle (hsingle keyword hmem)] using hsame

/-- A keyword of one word is passed over at a name exactly if the name is another one. -/
theorem noKeyword_at_name_iff {beginning : Bool} {keyword : Keyword} {name other : List Char}
    (hsingle : keyword.isSingle = true) (hname : Identifier.isName beginning name = true)
    (hother : Identifier.NoPart other) :
    Rule.keyword keyword (name ++ other) = none ↔
      Phrase.opensWith keyword.words name = false := by
  refine ⟨fun hnone => ?_, fun hopens => noKeyword_at_name hopens hname hother⟩
  rw [← Bool.not_eq_true]
  intro hopens
  have hfound := length?_of_opensWith hsingle hopens hname hother
  have hlength := Rule.ofLength_eq_none.mp hnone
  rw [← words, hfound] at hlength
  cases hlength

/-- Keywords of one word are passed over at a name exactly if none of them is the name. -/
theorem noneOf_at_name_iff {beginning : Bool} {keywords : List Keyword} {name other : List Char}
    (hsingle : ∀ keyword ∈ keywords, keyword.isSingle = true)
    (hname : Identifier.isName beginning name = true) (hother : Identifier.NoPart other) :
    Rule.anyKeyword keywords (name ++ other) = none ↔ names keywords name = false := by
  refine ⟨fun hnone => ?_, fun hopens => noneOf_at_name hopens hname hother⟩
  induction keywords with
  | nil => rfl
  | cons first keywords ih =>
      simp only [Rule.anyKeyword, List.map_cons, Rule.firstOf] at hnone ih
      split at hnone
      · cases hnone
      · next hfirst =>
          have hrest := ih (fun keyword hmem => hsingle keyword (List.mem_cons_of_mem _ hmem)) hnone
          rw [names, List.any_cons, Bool.or_eq_false_iff]
          refine ⟨?_, hrest⟩
          rw [← Bool.not_eq_true]
          intro hopens
          have hfound := length?_of_opensWith (hsingle first List.mem_cons_self) hopens hname hother
          rw [words, hfirst] at hfound
          cases hfound

/-! ## Keywords where they are written -/

theorem mem_of_anyKeyword {keywords : List Keyword} {cs : List Char} {n : Nat} {keyword : Keyword}
    (h : Rule.anyKeyword keywords cs = some (n, keyword)) : keyword ∈ keywords := by
  induction keywords with
  | nil => cases h
  | cons first keywords ih =>
      simp only [Rule.anyKeyword, List.map_cons, Rule.firstOf] at h
      split at h
      · cases h
        exact List.mem_cons_self
      · exact List.mem_cons_of_mem _ (ih h)

theorem length?_text {keyword : Keyword} (hsingle : keyword.isSingle = true) {other : List Char}
    (hother : Identifier.NoPart other) :
    Phrase.length? keyword.words (keyword.text.toList ++ other) =
      some keyword.text.toList.length := by
  refine length?_of_opensWith hsingle ?_ (isName_text hsingle).1 hother
  rw [words_of_isSingle hsingle]
  exact sameWord_self _

/-- No keyword of one word starts with another one. -/
theorem opensWith_text {first keyword : Keyword} (hfirst : first.isSingle = true)
    (hsingle : keyword.isSingle = true) (hne : first ≠ keyword) :
    Phrase.opensWith first.words keyword.text.toList = false := by
  rw [← Bool.not_eq_true]
  intro hopens
  have hsame : sameWord first.text.toList keyword.text.toList = true := by
    simpa [Phrase.opensWith, words_of_isSingle hfirst] using hopens
  have hfound := ofText?_of_sameWord hfirst (isName_text hsingle).1 hsame
  rw [ofText?_text] at hfound
  exact hne (Option.some.inj hfound).symm

/-- Of several keywords of one word, the one that is written is found. -/
theorem anyKeyword_text {keywords : List Keyword} {keyword : Keyword} (hmem : keyword ∈ keywords)
    (hsingle : ∀ keyword ∈ keywords, keyword.isSingle = true) {other : List Char}
    (hother : Identifier.NoPart other) :
    Rule.anyKeyword keywords (keyword.text.toList ++ other) =
      some (keyword.text.toList.length, keyword) := by
  have hkeyword := hsingle keyword hmem
  induction keywords with
  | nil => cases hmem
  | cons first keywords ih =>
      have hfirst := hsingle first List.mem_cons_self
      simp only [Rule.anyKeyword, List.map_cons, Rule.firstOf] at ih ⊢
      by_cases heq : first = keyword
      · subst heq
        have hfound := length?_text hfirst hother
        rw [words] at hfound
        rw [hfound]
      · have hnone := Phrase.length?_eq_none_of_name first.isClear_words
          (opensWith_text hfirst hkeyword heq) (isName_text hkeyword).1 hother
        rw [words] at hnone
        rw [hnone]
        exact ih ((List.mem_cons.mp hmem).resolve_left (Ne.symm heq))
          fun keyword hmem => hsingle keyword (List.mem_cons_of_mem _ hmem)

/-- A keyword of one word is written as a name, in any case. -/
theorem name_of_anyKeyword {keywords : List Keyword} {token rest : List Char} {keyword : Keyword}
    (hsingle : ∀ keyword ∈ keywords, keyword.isSingle = true)
    (h : Rule.anyKeyword keywords (token ++ rest) = some (token.length, keyword)) :
    Identifier.isName true token = true ∧ Identifier.NoPart rest ∧
      sameWord keyword.text.toList token = true := by
  obtain ⟨literal, hmem, hlength⟩ := Rule.firstOf_eq_some h
  obtain ⟨_, hkeyword, heq⟩ := List.mem_map.mp hmem
  cases heq
  obtain ⟨hname, hparts⟩ := isName_text (hsingle keyword hkeyword)
  have hwords : Text.words keyword.text.toList = [keyword.text.toList] :=
    words_of_isSingle (hsingle keyword hkeyword)
  rw [hwords] at hlength
  have hsame := Phrase.sameWord_of_length? hlength
  refine ⟨Identifier.isName_of_sameWord hsame hname, ?_, hsame⟩
  have hne : keyword.text.toList ≠ [] := by
    intro hnil
    rw [hnil] at hname
    cases hname
  have hlast : keyword.text.toList.getLast?.any Identifier.isPart = true := by
    rw [List.getLast?_eq_some_getLast hne]
    exact List.all_eq_true.mp hparts _ (List.getLast_mem hne)
  have hcut : (token ++ rest).drop keyword.text.toList.length = rest := by
    have hlen := congrArg List.length (sameWord_iff.mp hsame)
    rw [List.length_map, List.length_map] at hlen
    rw [hlen, List.drop_left]
  rw [Phrase.length?] at hlength
  split at hlength
  · next hmatch =>
      rw [Phrase.wordMatches, Phrase.runsOn, hlast, hcut, Bool.true_and, Bool.and_eq_true,
        Bool.not_eq_true'] at hmatch
      exact hmatch.2
  · cases hlength

end DocQuery.Keyword
