import DocQuery.Scanner

/-!
# Token rules

A token rule measures the token at the head of a text.  Every match of a scanner
is a rule applied behind the trivia at the cursor, so a match has two outcomes:
the rule takes a token and leaves a rest, or it passes and leaves everything.
`Takes` and `Passes` say which, without a scanner.
-/

namespace DocQuery.Lexical

/-- A rule gives the number of characters of a token and what the token means. -/
abbrev Rule (α : Type) : Type :=
  List Char → Option (Nat × α)

namespace Rule

/-- The rule of a measure, when the length is all there is to know. -/
def ofLength (measure : List Char → Option Nat) : Rule Unit :=
  fun cs => (measure cs).map (·, ())

/-- One character. -/
def char (expected : Char) : Rule Unit :=
  ofLength fun cs => if cs.head? = some expected then some 1 else none

/-- The words of a literal in any case. -/
def phrase (literal : String) : Rule Unit :=
  ofLength (Phrase.length? (Text.words literal.toList))

/-- A keyword. -/
def keyword (keyword : Keyword) : Rule Unit :=
  phrase keyword.text

/-- The first literal of a table that fits. -/
def firstOf {α : Type} : List (String × α) → Rule α
  | [], _ => none
  | (literal, meaning) :: table, cs =>
      match Phrase.length? (Text.words literal.toList) cs with
      | some n => some (n, meaning)
      | none => firstOf table cs

/-- The first of several keywords that fits. -/
def anyKeyword (keywords : List Keyword) : Rule Keyword :=
  firstOf (keywords.map fun keyword => (keyword.text, keyword))

/-- A name, at a beginning or behind a dot. -/
def identifier (beginning : Bool) : Rule Unit :=
  ofLength (Identifier.length? beginning)

/-- A quoted text, which means the number of its escapes. -/
def quoted : Rule Nat :=
  fun cs => (Quoted.size? cs).map fun size => (size.length, size.escapes)

/-- A number. -/
def number : Rule Numeral.Kind :=
  Numeral.size?

/-- A script block. -/
def block : Rule Unit :=
  ofLength Block.length?

/-- The rule never measures more than there is, and never nothing. -/
structure Sized {α : Type} (rule : Rule α) : Prop where
  pos : ∀ {cs n a}, rule cs = some (n, a) → 0 < n
  le : ∀ {cs n a}, rule cs = some (n, a) → n ≤ cs.length

/-- No token is measured where there is nothing. -/
theorem Sized.nil {α : Type} {rule : Rule α} (h : rule.Sized) : rule [] = none := by
  cases hrule : rule [] with
  | none => rfl
  | some found =>
      have hpos := h.pos hrule
      have hle := h.le hrule
      rw [List.length_nil] at hle
      omega

/-- What is measured is a beginning of the text. -/
theorem Sized.split {α : Type} {rule : Rule α} (h : rule.Sized) {cs : List Char} {n : Nat} {a : α}
    (hcs : rule cs = some (n, a)) : ∃ token rest, cs = token ++ rest ∧ token.length = n :=
  ⟨cs.take n, cs.drop n, (List.take_append_drop n cs).symm, List.length_take_of_le (h.le hcs)⟩

end Rule

/-- Behind the trivia, the rule takes the token and leaves the rest. -/
structure Takes {α : Type} (rule : Rule α) (cs token : List Char) (meaning : α)
    (rest : List Char) : Prop where
  split : Trivia.rest cs = token ++ rest
  measured : rule (token ++ rest) = some (token.length, meaning)

/-- Behind the trivia, the rule finds no token. -/
def Passes {α : Type} (rule : Rule α) (cs : List Char) : Prop :=
  rule (Trivia.rest cs) = none

/-! ## Bounds of the rules -/

namespace Numeral

theorem digits_le (cs : List Char) : digits cs ≤ cs.length :=
  (List.takeWhile_sublist Char.isDigit (l := cs)).length_le

theorem minus_le (cs : List Char) : minus cs ≤ cs.length := by
  rw [minus.eq_def]
  split <;> simp

theorem sign_le (cs : List Char) : sign cs ≤ cs.length := by
  rw [sign.eq_def]
  split <;> simp

theorem fraction_le (cs : List Char) : fraction cs ≤ cs.length := by
  rw [fraction.eq_def]
  split
  · next cs =>
      have hdigits := digits_le cs
      split
      · simp
      · simp only [List.length_cons]
        omega
  · simp

theorem exponent_le (cs : List Char) : exponent cs ≤ cs.length := by
  rw [exponent.eq_def]
  split
  · next c cs =>
      have h1 := sign_le cs
      have h2 := digits_le (cs.drop (sign cs))
      rw [List.length_drop] at h2
      split
      · split
        · simp
        · simp only [List.length_cons]
          omega
      · simp
  · simp

end Numeral

namespace Rule

theorem ofLength_eq_some {measure : List Char → Option Nat} {cs : List Char} {n : Nat} {a : Unit} :
    ofLength measure cs = some (n, a) ↔ measure cs = some n := by
  simp [ofLength, Option.map_eq_some_iff]

theorem ofLength_eq_none {measure : List Char → Option Nat} {cs : List Char} :
    ofLength measure cs = none ↔ measure cs = none := by
  simp [ofLength]

theorem sized_ofLength {measure : List Char → Option Nat}
    (hpos : ∀ {cs n}, measure cs = some n → 0 < n)
    (hle : ∀ {cs n}, measure cs = some n → n ≤ cs.length) : Sized (ofLength measure) :=
  ⟨fun h => hpos (ofLength_eq_some.mp h), fun h => hle (ofLength_eq_some.mp h)⟩

theorem char_eq_some {expected : Char} {cs : List Char} {n : Nat} {a : Unit} :
    char expected cs = some (n, a) ↔ cs.head? = some expected ∧ n = 1 := by
  rw [char, ofLength_eq_some]
  split <;> simp_all [eq_comm]

theorem char_eq_none {expected : Char} {cs : List Char} :
    char expected cs = none ↔ cs.head? ≠ some expected := by
  rw [char, ofLength_eq_none]
  split <;> simp_all

theorem sized_char (expected : Char) : Sized (char expected) := by
  constructor
  · intro cs n a h
    rw [char_eq_some] at h
    omega
  · intro cs n a h
    obtain ⟨hhead, rfl⟩ := char_eq_some.mp h
    cases cs with
    | nil => simp at hhead
    | cons c cs => simp

theorem sized_identifier (beginning : Bool) : Sized (identifier beginning) := by
  refine sized_ofLength (fun h => Identifier.length?_pos h) ?_
  intro cs n h
  cases cs with
  | nil => simp [Identifier.length?] at h
  | cons c cs =>
      simp only [Identifier.length?] at h
      split at h
      · cases h
        have hle := (List.takeWhile_sublist Identifier.isPart (l := cs)).length_le
        simpa using hle
      · cases h

theorem sized_number : Sized number := by
  constructor
  · intro cs n a h
    simp only [number, Numeral.size?] at h
    split at h
    · cases h
    · simp only [Option.some.injEq, Prod.mk.injEq] at h
      omega
  · intro cs n a h
    simp only [number, Numeral.size?] at h
    split at h
    · cases h
    · simp only [Option.some.injEq, Prod.mk.injEq] at h
      obtain ⟨rfl, -⟩ := h
      have h1 := Numeral.minus_le cs
      have h2 := Numeral.digits_le (cs.drop (Numeral.minus cs))
      have h3 := Numeral.fraction_le
        (cs.drop (Numeral.minus cs + Numeral.digits (cs.drop (Numeral.minus cs))))
      have h4 := Numeral.exponent_le (cs.drop (Numeral.minus cs +
        Numeral.digits (cs.drop (Numeral.minus cs)) +
        Numeral.fraction (cs.drop (Numeral.minus cs +
          Numeral.digits (cs.drop (Numeral.minus cs))))))
      simp only [List.length_drop] at h2 h3 h4
      omega

theorem lengthFrom?_le {place : Block.Place} {nested : Nat} {cs : List Char} {n : Nat}
    (h : Block.lengthFrom? place nested cs = some n) : n ≤ cs.length := by
  fun_induction Block.lengthFrom? place nested cs generalizing n <;>
    first
    | cases h; done
    | (obtain ⟨m, hm, rfl⟩ := Option.map_eq_some_iff.mp h
       rename_i ih
       have := ih hm
       simp only [List.length_cons]
       omega)
    | (cases h; simp)

theorem sized_block : Sized block := by
  refine sized_ofLength ?_ ?_
  · intro cs n h
    rw [Block.length?.eq_def] at h
    split at h
    · obtain ⟨m, hm, rfl⟩ := Option.map_eq_some_iff.mp h
      omega
    · cases h
  · intro cs n h
    rw [Block.length?.eq_def] at h
    split at h
    · obtain ⟨m, hm, rfl⟩ := Option.map_eq_some_iff.mp h
      have := lengthFrom?_le hm
      simpa using this
    · cases h

end Rule

end DocQuery.Lexical
