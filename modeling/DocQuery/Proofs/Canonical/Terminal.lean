import DocQuery.Proofs.Erase
import DocQuery.Proofs.Grammar.Unique
import DocQuery.Proofs.Lexical.Boundary
import DocQuery.Proofs.Lexical.Numeral
import DocQuery.Proofs.Lexical.Quoted
import DocQuery.Proofs.Lexical.Script

/-!
# Canonical paths and values

Canonical text writes a path or a value as one piece without trivia.  It is read
back in front of any text that stands apart from it, provided that the piece was
read from some text before.  A path in quotes needs more: its quotes have to
close where they were put.
-/

namespace DocQuery

open Lexical

/-! ## Text behind a token -/

namespace Lexical

theorem not_isStart_of_isDigit {c : Char} (h : c.isDigit = true) : Identifier.isStart c = false := by
  have hrange : 48 ≤ c.toNat ∧ c.toNat ≤ 57 := by
    simp only [Char.isDigit, Bool.and_eq_true, decide_eq_true_eq] at h
    exact ⟨h.1, h.2⟩
  have hdigits : ∀ n ≤ 57, 48 ≤ n → Identifier.isStart (Char.ofNat n) = false := by decide
  have hdigit := hdigits c.toNat hrange.2 hrange.1
  rwa [Char.ofNat_toNat] at hdigit

theorem isPart_of_isDigit {c : Char} (h : c.isDigit = true) : Identifier.isPart c = true := by
  have hascii : c.toNat < 0x80 := by
    simp only [Char.isDigit, Bool.and_eq_true, decide_eq_true_eq] at h
    have hle : c.toNat ≤ 57 := h.2
    omega
  simp [Identifier.isPart, Text.isAlphanumeric, Text.isNumber, hascii, h]

theorem isSolid_of_isDigit {c : Char} (h : c.isDigit = true) : isSolid c = true :=
  @Identifier.isSolid_of_mayOpen false c (by simp [Identifier.mayOpen, isPart_of_isDigit h])

/-- There is no trivia in front of a number. -/
theorem Numeral.rest_of_size? {cs : List Char} {size : Nat × Kind} (h : size? cs = some size) :
    Trivia.rest cs = cs := by
  obtain ⟨c, more, rfl, hc⟩ := head_of_size? h
  rcases hc with hdigit | ⟨rfl, d, more, rfl, hdigit⟩
  · exact Trivia.rest_solid _ (isSolid_of_isDigit hdigit)
  · refine Trivia.rest_minus _ ?_
    rintro rfl
    cases hdigit

end Lexical

/-- The text does not go on with a name or a number, and no quote follows. -/
structure Apart (cs : List Char) : Prop where
  name : Identifier.NoPart cs
  number : Numeral.NoPart cs
  quote : cs.head?.any Quoted.isQuote = false

namespace Apart

/-- The characters that canonical text puts behind tokens. -/
def separators : List Char := [' ', '\n', ',', '(', ')']

theorem nil : Apart [] := ⟨rfl, rfl, rfl⟩

theorem cons {c : Char} (cs : List Char) (h : c ∈ separators) : Apart (c :: cs) := by
  have hall : separators.all (fun c => !Identifier.isPart c && !Numeral.isPart c &&
      !Quoted.isQuote c) = true := by
    decide
  have hc := List.all_eq_true.mp hall c h
  simp only [Bool.and_eq_true, Bool.not_eq_true'] at hc
  exact ⟨hc.1.1, hc.1.2, hc.2⟩

theorem head?_ne {quote : Char} {cs : List Char} (h : Apart cs)
    (hquote : Quoted.isQuote quote = true) : cs.head? ≠ some quote := by
  intro hhead
  have hnone := h.quote
  rw [hhead, Option.any_some, hquote] at hnone
  cases hnone

end Apart

namespace Written

variable {size : Nat} {cs rest : List Char}

/-! ## Marks and tokens at the head of a text -/

theorem mark_cons {c : Char} (cs : List Char) (h : isSolid c = true) : Mark c (c :: cs) cs :=
  ⟨Trivia.rest_solid cs h, Rule.char_eq_some.mpr ⟨rfl, rfl⟩⟩

theorem noMark_of_head {c d : Char} (h : Trivia.rest cs = d :: rest) (hne : d ≠ c) :
    NoMark c cs := by
  rw [NoMark, Passes, h, Rule.char_eq_none, List.head?_cons]
  exact fun heq => hne (Option.some.inj heq)

theorem noMark_cons {c d : Char} (cs : List Char) (h : isSolid d = true) (hne : d ≠ c) :
    NoMark c (d :: cs) :=
  noMark_of_head (Trivia.rest_solid cs h) hne

/-- There is no trivia in front of a name. -/
theorem rest_name {beginning : Bool} {name : List Char}
    (hname : Identifier.isName beginning name = true) (rest : List Char) :
    Trivia.rest (name ++ rest) = name ++ rest := by
  cases name with
  | nil => cases hname
  | cons c cs =>
      simp only [Identifier.isName, Bool.and_eq_true] at hname
      exact Trivia.rest_solid _ (Identifier.isSolid_of_mayOpen hname.1)

theorem takes_name {beginning : Bool} {name : List Char}
    (hname : Identifier.isName beginning name = true) (hrest : Identifier.NoPart rest) :
    Takes (Rule.identifier beginning) (name ++ rest) name () rest :=
  ⟨rest_name hname rest, Rule.ofLength_eq_some.mpr (Identifier.length?_name hname hrest)⟩

theorem name_of_takes {beginning : Bool} {token : List Char}
    (h : Takes (Rule.identifier beginning) cs token () rest) :
    Identifier.isName beginning token = true ∧ Identifier.NoPart rest :=
  Identifier.name_of_length? (Rule.ofLength_eq_some.mp h.measured)

/-- A name starts no number and no quoted text. -/
theorem name_facts {name : List Char} (hname : Identifier.isName true name = true)
    (rest : List Char) :
    Rule.number (name ++ rest) = none ∧ Rule.quoted (name ++ rest) = none := by
  cases name with
  | nil => cases hname
  | cons c cs =>
      simp only [Identifier.isName, Identifier.mayOpen, if_true, Bool.and_eq_true] at hname
      have hne : ∀ d, Identifier.isStart d = false → c ≠ d := by
        rintro d hd rfl
        rw [hname.1] at hd
        cases hd
      constructor
      · cases hnumber : Rule.number (c :: cs ++ rest) with
        | none => rfl
        | some size =>
            obtain ⟨d, more, heq, hd⟩ := Numeral.head_of_size? hnumber
            cases heq
            rcases hd with hdigit | ⟨hminus, -⟩
            · exact absurd rfl (hne c (not_isStart_of_isDigit hdigit))
            · exact absurd hminus (hne '-' (by decide))
      · have hquote : Quoted.isQuote c = false := by
          rw [← Bool.not_eq_true, Quoted.isQuote_eq_true, not_or]
          exact ⟨hne _ (by decide), hne _ (by decide)⟩
        rw [Rule.quoted, List.cons_append, Quoted.size?, if_neg (by simp [hquote])]
        rfl

/-- A name does not start with punctuation. -/
theorem noMark_name {c : Char} {name : List Char} (hname : Identifier.isName true name = true)
    (hc : Identifier.isStart c = false) (rest : List Char) : NoMark c (name ++ rest) := by
  cases name with
  | nil => cases hname
  | cons d ds =>
      refine noMark_of_head (rest_name hname rest) ?_
      rintro rfl
      simp only [Identifier.isName, Identifier.mayOpen, if_true, Bool.and_eq_true] at hname
      rw [hname.1] at hc
      cases hc

/-- Quotes start no name and no number, and no trivia. -/
theorem quote_facts {quote : Char} (h : Quoted.isQuote quote = true) (cs : List Char) :
    isSolid quote = true ∧ Rule.number (quote :: cs) = none ∧
      ∀ beginning, Rule.identifier beginning (quote :: cs) = none := by
  rcases Quoted.isQuote_eq_true.mp h with rfl | rfl
  · exact ⟨rfl, rfl, fun beginning => by cases beginning <;> rfl⟩
  · exact ⟨rfl, rfl, fun beginning => by cases beginning <;> rfl⟩

/-! ## Pieces of a path -/

theorem Index.again {text : String} (h : Index cs text rest) {other : List Char}
    (hother : NoMark '[' other) : Index (text.toList ++ other) text other := by
  cases h with
  | absent _ => exact .absent hother
  | empty _ _ _ => exact .empty (mark_cons _ rfl) rfl (mark_cons _ rfl)
  | @number _ _ token _ _ htake hpositive _ =>
      have hmeasured : Numeral.size? (token ++ ']' :: other) = some (token.length, .long) :=
        Numeral.size?_append htake.measured rfl
      obtain ⟨c, more, htoken, hc⟩ := Numeral.head_of_size? hmeasured
      have hsolid : isSolid c = true := by
        rcases hc with hdigit | ⟨rfl, -⟩
        · exact isSolid_of_isDigit hdigit
        · cases token with
          | nil => cases hmeasured
          | cons d token => exact absurd (by rw [(List.cons.inj htoken).1]; rfl) hpositive
      have hnumber : Takes Rule.number (token ++ ']' :: other) token .long (']' :: other) :=
        ⟨by rw [htoken]; exact Trivia.rest_solid more hsolid, hmeasured⟩
      have htext : ("[" ++ String.ofList token ++ "]").toList ++ other =
          '[' :: (token ++ ']' :: other) := by
        simp
      rw [htext]
      exact .number (mark_cons _ rfl) hnumber hpositive (mark_cons _ rfl)

/-- An index starts with a bracket, if it is there. -/
theorem Index.noPart {text : String} (h : Index cs text rest) {other : List Char}
    (hother : Identifier.NoPart other) : Identifier.NoPart (text.toList ++ other) := by
  cases h with
  | absent _ => exact hother
  | empty _ _ _ => rfl
  | number _ _ _ _ => rw [String.toList_append, String.toList_append]; rfl

theorem Tail.noPart {text : String} {quoted : Bool} (h : Tail cs text quoted rest)
    {other : List Char} (hother : Identifier.NoPart other) :
    Identifier.NoPart (text.toList ++ other) := by
  cases h with
  | last hindex _ => exact hindex.noPart hother
  | more hindex _ _ _ =>
      simp only [String.toList_append, List.append_assoc]
      exact hindex.noPart rfl

end Written

/-- The text stands apart from a path, and does not go on with it behind trivia either. -/
structure EndsPath (cs : List Char) : Prop where
  apart : Apart cs
  bracket : Written.NoMark '[' cs
  dot : Written.NoMark '.' cs

namespace Written

variable {size : Nat} {cs rest : List Char}

/-- What follows the first segment of a path starts with a bracket or a dot. -/
theorem Tail.start {text : String} {quoted : Bool} (h : Tail cs text quoted rest) :
    text.toList = [] ∨ ∃ c more, text.toList = c :: more ∧ (c = '[' ∨ c = '.') := by
  cases h with
  | last hindex _ =>
      cases hindex with
      | absent _ => exact Or.inl rfl
      | empty _ _ _ => exact Or.inr ⟨_, _, rfl, Or.inl rfl⟩
      | number _ _ _ _ =>
          rw [String.toList_append, String.toList_append]
          exact Or.inr ⟨_, _, rfl, Or.inl rfl⟩
  | more hindex _ _ _ =>
      simp only [String.toList_append, List.append_assoc]
      cases hindex with
      | absent _ => exact Or.inr ⟨_, _, rfl, Or.inr rfl⟩
      | empty _ _ _ => exact Or.inr ⟨_, _, rfl, Or.inl rfl⟩
      | number _ _ _ _ =>
          rw [String.toList_append, String.toList_append]
          exact Or.inr ⟨_, _, rfl, Or.inl rfl⟩

/-- The rest of a path without quotes is read again where it is written without trivia. -/
theorem Tail.again {text : String} {quoted : Bool} (h : Tail cs text quoted rest)
    (hquoted : quoted = false) {other : List Char} (hother : EndsPath other) :
    Tail (text.toList ++ other) text false other := by
  induction h with
  | last hindex _ => exact .last (hindex.again hother.bracket) hother.dot
  | @more _ _ _ _ token _ bracket text more _ _ hindex _ hsegment htail ih =>
      simp only [Bool.or_eq_false_iff] at hquoted
      obtain ⟨rfl, hothers⟩ := hquoted
      cases hsegment with
      | name htake =>
          obtain ⟨hname, -⟩ := name_of_takes htake
          have htext : (bracket ++ "." ++ String.ofList token ++ more).toList ++ other =
              bracket.toList ++ '.' :: (token ++ (more.toList ++ other)) := by
            simp
          rw [htext]
          exact .more (hindex.again (noMark_cons _ rfl (by decide))) (mark_cons _ rfl)
            (.name (takes_name hname (htail.noPart hother.apart.name))) (ih hothers)

end Written

/-! ## Paths without quotes -/

namespace Path

/-- Some text has a path of this text without quotes. -/
def Spelled (text : String) : Prop :=
  ∃ size cs span rest, Written.Path size cs ⟨text, span, false⟩ rest

/-- The first piece of a path is the name in front of the first bracket or dot. -/
theorem head_name {name more : List Char} (hname : Identifier.isName true name = true)
    (hmore : more = [] ∨ ∃ c cs, more = c :: cs ∧ (c = '[' ∨ c = '.')) :
    head (name ++ more) = name := by
  have hdot := Identifier.not_mem_of_isName hname (c := '.') (by decide) (by decide)
  have hopen := Identifier.not_mem_of_isName hname (c := '[') (by decide) (by decide)
  have hplain : ∀ c ∈ name, (c != '.' && c != '[') = true := by
    intro c hc
    rw [Bool.and_eq_true, bne_iff_ne, bne_iff_ne]
    exact ⟨fun h => hdot (h ▸ hc), fun h => hopen (h ▸ hc)⟩
  rw [head, List.takeWhile_append_of_pos hplain]
  rcases hmore with rfl | ⟨c, cs, rfl, rfl | rfl⟩
  · simp
  · simp
  · simp

/--
A path without quotes is a name that may start a path and what follows it.  It is
read again in front of any text that ends it.
-/
theorem Spelled.split {text : String} (h : Spelled text) :
    ∃ name more, text.toList = name ++ more ∧ Identifier.isName true name = true ∧
      Written.isReserved name = false ∧ head text.toList = name ∧
      (∀ {other}, Identifier.NoPart other → Identifier.NoPart (more ++ other)) ∧
      ∀ size {other}, EndsPath other → ∃ span, Written.Path size (text.toList ++ other)
        ⟨text, span, false⟩ other := by
  obtain ⟨size, cs, span, rest, hpath⟩ := h
  generalize hp : (⟨text, span, false⟩ : Path) = p at hpath
  cases hpath with
  | @mk token r _ _ more quoted others hsegment hallowed htail =>
      simp only [Path.mk.injEq, Bool.false_eq, Bool.or_eq_false_iff] at hp
      obtain ⟨rfl, -, rfl, hothers⟩ := hp
      cases hsegment with
      | name htake =>
          obtain ⟨hname, -⟩ := Written.name_of_takes htake
          have hhead : head (String.ofList token ++ more).toList = token := by
            rw [String.toList_append, String.toList_ofList]
            exact head_name hname htail.start
          refine ⟨token, more.toList, by simp, hname, by simpa using hallowed, hhead,
            fun hother => htail.noPart hother, fun size other hother => ?_⟩
          rw [String.toList_append, String.toList_ofList, List.append_assoc]
          exact ⟨_, .mk (.name (Written.takes_name hname (htail.noPart hother.apart.name)))
            hallowed (htail.again hothers hother)⟩

/-! ## Paths in quotes -/

/-- The quotes around the text close where they were put. -/
def QuoteSafe (text : String) : Prop :=
  ∃ escapes, Rule.quoted (Text.inQuotes text).toList =
    some ((Text.inQuotes text).toList.length, escapes)

theorem isQuote_quoteFor (cs : List Char) : Quoted.isQuote (Text.quoteFor cs) = true := by
  unfold Text.quoteFor
  split <;> rfl

/-- The quotes close where they were put around a body of them. -/
theorem quoteSafe_iff {text : String} : QuoteSafe text ↔
    ∃ escapes, Quoted.Body (Text.quoteFor text.toList) text.toList escapes := by
  refine exists_congr fun escapes => ?_
  have hclosed := @Rule.quoted_eq_some_iff (Text.inQuotes text).toList [] escapes
  rw [List.append_nil] at hclosed
  rw [hclosed, Text.toList_inQuotes]
  constructor
  · rintro ⟨quote, body, -, hshape, hbody, -⟩
    obtain ⟨rfl, hsplit⟩ := List.cons.inj hshape
    rwa [← List.append_cancel_right hsplit] at hbody
  · intro hbody
    exact ⟨_, _, isQuote_quoteFor _, rfl, hbody, by simp⟩

/-- No name is in front of a quote. -/
theorem passes_name_inQuotes (text : String) (other : List Char) :
    Passes (Rule.identifier true) ((Text.inQuotes text).toList ++ other) := by
  have hquote := isQuote_quoteFor text.toList
  rw [Text.toList_inQuotes, List.cons_append, List.cons_append, Passes,
    Trivia.rest_solid _ (Written.quote_facts hquote []).1]
  exact (Written.quote_facts hquote _).2.2 true

theorem QuoteSafe.takes {text : String} (h : QuoteSafe text) {other : List Char}
    (hother : Apart other) : ∃ escapes,
      Takes Rule.quoted ((Text.inQuotes text).toList ++ other) (Text.inQuotes text).toList
        escapes other := by
  obtain ⟨escapes, hmeasured⟩ := h
  have hclosed : Rule.quoted ((Text.inQuotes text).toList ++ []) =
      some ((Text.inQuotes text).toList.length, escapes) := by
    rwa [List.append_nil]
  obtain ⟨quote, body, hquote, hshape, hagain⟩ := Rule.quoted_eq_some hclosed
  refine ⟨escapes, ?_, hagain (hother.head?_ne hquote)⟩
  rw [hshape]
  exact Trivia.rest_solid _ (Written.quote_facts hquote []).1

/-- A path in quotes is read again in front of any text that ends it. -/
theorem QuoteSafe.path {text : String} (h : QuoteSafe text) (size : Nat) {other : List Char}
    (hother : EndsPath other) : ∃ span, Written.Path size ((Text.inQuotes text).toList ++ other)
      ⟨text, span, true⟩ other := by
  obtain ⟨escapes, htake⟩ := h.takes hother.apart
  have hpass := passes_name_inQuotes text other
  have hbody : String.ofList (Text.inQuotes text).toList.tail.dropLast = text := by
    simp
  have hpath : Written.Path size _ _ _ := .mk (.quoted hpass htake) (by simp)
    (.last (.absent hother.bracket) hother.dot)
  rw [hbody] at hpath
  exact ⟨_, by simpa using hpath⟩

/-! ## Paths that are read back -/

/-- The canonical text of the path is read back as the path. -/
def Legible (path : Path) : Prop :=
  if path.quoted then QuoteSafe path.text else isBare path.text.toList = true ∧ Spelled path.text

theorem render_of_bare {path : Path} (hquoted : path.quoted = false)
    (hbare : isBare path.text.toList = true) : path.render = path.text := by
  simp [render, hquoted, hbare]

theorem render_of_quoted {path : Path} (hquoted : path.quoted = true) :
    path.render = Text.inQuotes path.text := by
  simp [render, hquoted]

theorem Legible.written {path : Path} (h : path.Legible) (size : Nat) {other : List Char}
    (hother : EndsPath other) : ∃ p, Written.Path size (path.render.toList ++ other) p other ∧
      p.erase = path.erase := by
  unfold Legible at h
  split at h
  · next hquoted =>
      obtain ⟨span, hpath⟩ := h.path size hother
      rw [render_of_quoted hquoted]
      exact ⟨_, hpath, by simp [erase, hquoted]⟩
  · next hquoted =>
      rw [Bool.not_eq_true] at hquoted
      obtain ⟨-, -, -, -, -, -, -, hagain⟩ := h.2.split
      obtain ⟨span, hpath⟩ := hagain size hother
      rw [render_of_bare hquoted h.1]
      exact ⟨_, hpath, by simp [erase, hquoted]⟩

/-- A path that is read from quotes is in quotes, and has no more text than they hold. -/
theorem written_inQuotes {size : Nat} {text : String} {other rest : List Char} {p : Path}
    (h : Written.Path size ((Text.inQuotes text).toList ++ other) p rest) :
    p.quoted = true ∧ (p.text = text → QuoteSafe text) := by
  have hquote := isQuote_quoteFor text.toList
  have hhead : ((Text.inQuotes text).toList ++ other) =
      Text.quoteFor text.toList :: (text.toList ++ Text.quoteFor text.toList :: other) := by
    simp
  cases h with
  | @mk token r _ _ more _ _ hsegment _ htail =>
      cases hsegment with
      | name htake => exact absurd (passes_name_inQuotes text other) htake.not_passes
      | quoted _ htake =>
          refine ⟨rfl, fun htext => ?_⟩
          obtain ⟨quote, body, hquote', hshape, hagain⟩ := Rule.quoted_eq_some htake.measured
          have hsplit := htake.split
          rw [hhead, Trivia.rest_solid _ (Written.quote_facts hquote []).1, hshape,
            List.cons_append, List.cons.injEq] at hsplit
          obtain ⟨heq, hsplit⟩ := hsplit
          have htext := congrArg String.toList htext
          simp only [hshape, String.toList_append, String.toList_ofList, List.tail_cons,
            List.dropLast_concat] at htext
          rw [← htext, List.append_assoc, List.append_assoc, List.append_cancel_left_eq] at hsplit
          -- behind the closing quote there is nothing left of the text
          have hmore : more.toList = [] := by
            cases hlist : more.toList with
            | nil => rfl
            | cons c cs =>
                rw [hlist] at hsplit
                rcases htail.start with hnil | ⟨d, ds, hstart, hd⟩
                · rw [hnil] at hlist
                  cases hlist
                · rw [hlist] at hstart
                  cases hstart
                  rw [(List.cons.inj hsplit).1] at hd
                  rcases hd with rfl | rfl
                  · cases hquote'
                  · cases hquote'
          rw [hmore, List.append_nil] at htext
          have htoken : token = (Text.inQuotes text).toList := by
            rw [hshape, Text.toList_inQuotes, htext, ← heq]
            rfl
          have hmeasured := @hagain [] (by simp)
          rw [List.append_nil, htoken] at hmeasured
          exact ⟨_, hmeasured⟩

/-- A path that is read back from its canonical text is legible. -/
theorem legible_of_written {size : Nat} {path p : Path} {other rest : List Char}
    (h : Written.Path size (path.render.toList ++ other) p rest) (hsame : p.erase = path.erase)
    (hother : EndsPath other) : path.Legible ∧ rest = other := by
  obtain ⟨htext, hflag⟩ := erase_eq_iff.mp hsame
  have hlegible : path.Legible := by
    unfold Legible
    split
    · next hquoted =>
        rw [render_of_quoted hquoted] at h
        exact (written_inQuotes h).2 htext
    · next hquoted =>
        rw [Bool.not_eq_true] at hquoted
        by_cases hbare : isBare path.text.toList = true
        · refine ⟨hbare, size, path.text.toList ++ other, p.span, rest, ?_⟩
          rw [render_of_bare hquoted hbare, ← htext] at h
          rw [← htext, ← hquoted, ← hflag]
          exact h
        · rw [render, if_pos (by simp [hbare])] at h
          rw [(written_inQuotes h).1, hquoted] at hflag
          cases hflag
  obtain ⟨q, hq, -⟩ := hlegible.written size hother
  exact ⟨hlegible, (h.unique hq).2⟩

/-- A path starts no group. -/
theorem noOpen_render (path : Path) (other : List Char) :
    Written.NoMark '(' (path.render.toList ++ other) := by
  rw [render]
  split
  · rw [Text.toList_inQuotes]
    rcases Quoted.isQuote_eq_true.mp (isQuote_quoteFor path.text.toList) with hquote | hquote
    · rw [hquote]
      rfl
    · rw [hquote]
      rfl
  · next hbare =>
      cases htext : path.text.toList with
      | nil => simp [htext, isBare] at hbare
      | cons c cs =>
          simp only [htext, isBare, Bool.or_eq_true, Bool.not_eq_true', Bool.and_eq_true, not_or,
            Bool.not_eq_false] at hbare
          have hopens : Identifier.mayOpen true c = true := by
            rw [Identifier.mayOpen, if_pos rfl]
            exact hbare.2.1.1
          refine Written.noMark_cons _ (Identifier.isSolid_of_mayOpen hopens) ?_
          rintro rfl
          cases hopens

/-- A legible path starts no group, and it is not the condition `true`. -/
theorem Legible.start {path : Path} (h : path.Legible) {other : List Char}
    (hother : Identifier.NoPart other) :
    Written.NoMark '(' (path.render.toList ++ other) ∧
      Written.NoWord .true_ (path.render.toList ++ other) := by
  refine ⟨noOpen_render path other, ?_⟩
  unfold Legible at h
  split at h
  · next hquoted =>
      have hquote := isQuote_quoteFor path.text.toList
      rw [render_of_quoted hquoted, Text.toList_inQuotes]
      rcases Quoted.isQuote_eq_true.mp hquote with hq | hq
      · rw [hq]
        exact Keyword.noKeyword_at_mark .true_ rfl _
      · rw [hq]
        exact Keyword.noKeyword_at_mark .true_ rfl _
  · next hquoted =>
      rw [Bool.not_eq_true] at hquoted
      obtain ⟨hbare, hspelled⟩ := h
      obtain ⟨name, more, htext, hname, -, hhead, hmore, -⟩ := hspelled.split
      have hopens : Phrase.opensWith (Keyword.words .true_) name = false := by
        rw [← Bool.not_eq_true]
        intro hopens
        have hsame : Text.sameWord (Keyword.text .true_).toList name = true := hopens
        have hfound := Keyword.ofText?_of_sameWord rfl hname hsame
        unfold isBare at hbare
        split at hbare
        · cases hbare
        · rw [hhead, hfound] at hbare
          simp [isBarred] at hbare
      rw [render_of_bare hquoted hbare, htext, List.append_assoc]
      unfold Written.NoWord Passes
      rw [Written.rest_name hname]
      exact Keyword.noKeyword_at_name hopens hname (hmore hother)

end Path

/-! ## Values -/

namespace Value

/-- Some text has this value. -/
def Spelled (value : Value) : Prop :=
  ∃ size cs v rest, Written.Value size cs v rest ∧ v.erase = value.erase

theorem takes_number {token : List Char} {kind : Numeral.Kind} {cs rest other : List Char}
    (h : Takes Rule.number cs token kind rest) (hother : Apart other) :
    Takes Rule.number (token ++ other) token kind other := by
  have hmeasured := Numeral.size?_append h.measured hother.number
  exact ⟨Numeral.rest_of_size? hmeasured, hmeasured⟩

theorem takes_quoted {token : List Char} {escapes : Nat} {cs rest other : List Char}
    (h : Takes Rule.quoted cs token escapes rest) (hother : Apart other) :
    Takes Rule.quoted (token ++ other) token escapes other ∧
      Passes Rule.number (token ++ other) := by
  obtain ⟨quote, body, hquote, hshape, hagain⟩ := Rule.quoted_eq_some h.measured
  have hrest : Trivia.rest (token ++ other) = token ++ other := by
    rw [hshape]
    exact Trivia.rest_solid _ (Written.quote_facts hquote []).1
  refine ⟨⟨hrest, hagain (hother.head?_ne hquote)⟩, ?_⟩
  rw [Passes, hrest, hshape]
  exact (Written.quote_facts hquote _).2.1

theorem render_of_ne {value : Value} (h : value.kind ≠ .parameter) : value.render = value.token :=
  if_neg h

/-- The value is read again where its canonical text stands apart from what follows. -/
theorem Spelled.written {value : Value} (h : value.Spelled) (size : Nat) {other : List Char}
    (hother : Apart other) : ∃ v, Written.Value size (value.render.toList ++ other) v other ∧
      v.erase = value.erase := by
  obtain ⟨_, cs, v, rest, hvalue, hsame⟩ := h
  rw [← render_erase value, ← hsame, render_erase]
  cases hvalue with
  | @number token _ kind htake =>
      rw [render_of_ne (by cases kind <;> simp [Grammar.numberKind])]
      simp only [Token.text, tokenAt, String.toList_ofList]
      exact ⟨_, .number (takes_number htake hother), rfl⟩
  | @quoted token _ escapes _ htake =>
      obtain ⟨hagain, hnumber⟩ := takes_quoted htake hother
      rw [render_of_ne (by simp)]
      simp only [Token.text, tokenAt, String.toList_ofList]
      exact ⟨_, .quoted hnumber hagain, rfl⟩
  | @literal token _ keyword _ _ htake =>
      have hmem := Keyword.mem_of_anyKeyword htake.measured
      have hkind : Grammar.literalKind keyword ≠ .parameter := by
        cases keyword <;> simp [Grammar.literalKind]
      have hsingle : ∀ keyword ∈ Keyword.literals, keyword.isSingle = true := by decide
      have hname := (Keyword.isName_text (hsingle keyword hmem)).1
      obtain ⟨hnumber, hquoted⟩ := Written.name_facts hname other
      have hrest := Written.rest_name hname other
      have hmeasured := Keyword.anyKeyword_text hmem hsingle hother.name
      rw [render_of_ne hkind]
      refine ⟨_, .literal ?_ ?_ ⟨hrest, hmeasured⟩, rfl⟩
      · rwa [Passes, hrest]
      · rwa [Passes, hrest]
  | @parameter token _ _ _ _ hmark htake =>
      obtain ⟨hname, -⟩ := Written.name_of_takes htake
      have hagain := Written.takes_name hname hother.name
      have hrender : ∀ span, (Value.render ⟨String.ofList token, span, .parameter, false⟩).toList ++
          other = '$' :: (token ++ other) := by
        intro span
        simp [render]
      simp only [Token.text, tokenAt, hrender]
      exact ⟨_, .parameter rfl rfl rfl (Written.mark_cons _ rfl) hagain, rfl⟩

end Value

end DocQuery
