import DocQuery.Proofs.Lexical.Rule

/-!
# The grammar of numbers

A number is an optional minus sign, digits, an optional fraction and an optional
exponent.  A text can start with several numbers, as `1.5e3` starts with `1`,
with `1.5` and with itself.  What is measured is the longest of them, and its
kind says whether it has a fraction or an exponent.  The main statement is
`Rule.number_eq_some_iff`.
-/

namespace DocQuery.Lexical

namespace Numeral

/-! ## Pieces of a number -/

/-- One or more digits. -/
def IsDigits (cs : List Char) : Prop :=
  cs ≠ [] ∧ ∀ c ∈ cs, c.isDigit = true

/-- A point and digits. -/
inductive IsFraction : List Char → Prop where
  | mk {ds : List Char} : IsDigits ds → IsFraction ('.' :: ds)

/-- The letter of an exponent, a sign that may be missing, and digits. -/
inductive IsExponent : List Char → Prop where
  | mk {letter : Char} {sign ds : List Char} : letter = 'e' ∨ letter = 'E' →
      sign = [] ∨ sign = ['+'] ∨ sign = ['-'] → IsDigits ds → IsExponent (letter :: (sign ++ ds))

/-- The pieces that a number is made of.  Only the digits in front cannot be missing. -/
structure Pieces where
  minus : List Char
  whole : List Char
  point : List Char
  power : List Char
  minus_eq : minus = [] ∨ minus = ['-']
  isDigits_whole : IsDigits whole
  point_eq : point = [] ∨ IsFraction point
  power_eq : power = [] ∨ IsExponent power

namespace Pieces

/-- The number that the pieces make. -/
def chars (pieces : Pieces) : List Char :=
  pieces.minus ++ (pieces.whole ++ (pieces.point ++ pieces.power))

/-- A number with a fraction or an exponent is no whole number. -/
def kind (pieces : Pieces) : Kind :=
  if pieces.point = [] ∧ pieces.power = [] then .long else .double

end Pieces

/-! ## Digits -/

theorem digits_append {ds : List Char} (h : ∀ c ∈ ds, c.isDigit = true) (rest : List Char) :
    digits (ds ++ rest) = ds.length + digits rest := by
  rw [digits, List.takeWhile_append_of_pos h, List.length_append, digits]

/-- No digits come first in front of a character that is none. -/
theorem digits_cons {c : Char} (cs : List Char) (h : c.isDigit = false) : digits (c :: cs) = 0 := by
  rw [digits, List.takeWhile_cons, h]
  rfl

theorem isDigits_take {cs : List Char} (h : digits cs ≠ 0) : IsDigits (cs.take (digits cs)) := by
  have htake : cs.take (digits cs) = cs.takeWhile Char.isDigit :=
    (List.prefix_iff_eq_take.mp (List.takeWhile_prefix _)).symm
  refine ⟨fun hnil => h ?_, ?_⟩
  · rw [digits, ← htake, hnil, List.length_nil]
  · rw [htake]
    exact List.all_eq_true.mp List.all_takeWhile

theorem IsDigits.exists_cons {ds : List Char} (h : IsDigits ds) :
    ∃ d ds', ds = d :: ds' ∧ d.isDigit = true := by
  obtain ⟨d, ds', rfl⟩ := List.exists_cons_of_ne_nil h.1
  exact ⟨d, ds', rfl, h.2 d List.mem_cons_self⟩

theorem ne_of_isDigit {c d : Char} (hc : c.isDigit = true) (hd : d.isDigit = false) : c ≠ d := by
  rintro rfl
  rw [hd] at hc
  cases hc

/-! ## What is measured is made of pieces -/

theorem minus_take (cs : List Char) : cs.take (minus cs) = [] ∨ cs.take (minus cs) = ['-'] := by
  rw [minus.eq_def]
  split <;> simp

theorem sign_take (cs : List Char) :
    cs.take (sign cs) = [] ∨ cs.take (sign cs) = ['+'] ∨ cs.take (sign cs) = ['-'] := by
  rw [sign.eq_def]
  split <;> simp

theorem fraction_take (cs : List Char) :
    cs.take (fraction cs) = [] ∨ IsFraction (cs.take (fraction cs)) := by
  rw [fraction.eq_def]
  split
  · next cs =>
      split
      · exact Or.inl rfl
      · next hdigits => exact Or.inr (.mk (isDigits_take hdigits))
  · exact Or.inl rfl

theorem exponent_take (cs : List Char) :
    cs.take (exponent cs) = [] ∨ IsExponent (cs.take (exponent cs)) := by
  rw [exponent.eq_def]
  split
  · next c cs =>
      split
      · next hletter =>
          split
          · exact Or.inl rfl
          · next hdigits =>
              rw [List.take_succ_cons, List.take_add]
              exact Or.inr (.mk hletter (sign_take cs) (isDigits_take hdigits))
      · exact Or.inl rfl
  · exact Or.inl rfl

theorem take_eq_nil_iff_of_le {cs : List Char} {n : Nat} (h : n ≤ cs.length) :
    cs.take n = [] ↔ n = 0 := by
  rw [← List.length_eq_zero_iff, List.length_take_of_le h]

/-- What is measured at the head of a text is a number of the measured kind. -/
theorem exists_pieces_of_size? {token rest : List Char} {kind : Kind}
    (h : size? (token ++ rest) = some (token.length, kind)) :
    ∃ pieces : Pieces, pieces.chars = token ∧ pieces.kind = kind := by
  generalize hcs : token ++ rest = cs at h
  have htoken : cs.take token.length = token := by rw [← hcs, List.take_left]
  simp only [size?] at h
  split at h
  · cases h
  · next hdigits =>
      simp only [Option.some.injEq, Prod.mk.injEq] at h
      obtain ⟨hlength, rfl⟩ := h
      generalize hrest : cs.drop (minus cs + digits (cs.drop (minus cs))) = tail at hlength
      have hpower : cs.drop (minus cs + digits (cs.drop (minus cs)) + fraction tail) =
          tail.drop (fraction tail) := by rw [← hrest, List.drop_drop]
      rw [hpower] at hlength ⊢
      refine ⟨⟨_, _, _, _, minus_take cs, isDigits_take hdigits, fraction_take tail,
        exponent_take (tail.drop (fraction tail))⟩, ?_, ?_⟩
      · rw [Pieces.chars, ← htoken, ← hlength, List.take_add, List.take_add, List.take_add, hpower,
          hrest]
        simp only [List.append_assoc]
      · simp only [Pieces.kind, take_eq_nil_iff_of_le (fraction_le _),
          take_eq_nil_iff_of_le (exponent_le _)]
        congr 1
        simp

/-! ## No longer number is there -/

theorem minus_append {m : List Char} (hm : m = [] ∨ m = ['-']) {d : Char} (hd : d.isDigit = true)
    (cs : List Char) : minus (m ++ d :: cs) = m.length := by
  rcases hm with rfl | rfl
  · rw [List.nil_append, minus]
    · rfl
    · exact fun _ heq => ne_of_isDigit hd rfl (List.cons.inj heq).1
  · rfl

theorem sign_append {m : List Char} (hm : m = [] ∨ m = ['+'] ∨ m = ['-']) {d : Char}
    (hd : d.isDigit = true) (cs : List Char) : sign (m ++ d :: cs) = m.length := by
  rcases hm with rfl | rfl | rfl
  · rw [List.nil_append, sign]
    · rfl
    · exact fun _ heq => ne_of_isDigit hd rfl (List.cons.inj heq).1
    · exact fun _ heq => ne_of_isDigit hd rfl (List.cons.inj heq).1
  · rfl
  · rfl

/-- An exponent goes at least as far as the one that the text starts with. -/
theorem IsExponent.length_le {power : List Char} (h : IsExponent power) (rest : List Char) :
    power.length ≤ exponent (power ++ rest) := by
  obtain @⟨letter, sgn, ds, hletter, hsign, hdigits⟩ := h
  obtain ⟨d, ds', rfl, hd⟩ := hdigits.exists_cons
  have hlength := sign_append hsign hd (ds' ++ rest)
  have hcount := digits_append hdigits.2 rest
  rw [List.cons_append] at hcount
  rw [List.cons_append, List.append_assoc, List.cons_append, exponent, if_pos hletter, hlength,
    List.drop_left, hcount, List.length_cons, List.length_append, if_neg]
  · omega
  · rw [List.length_cons]
    omega

/-- An exponent starts with a letter, which is no digit and no point. -/
theorem IsExponent.exists_cons {power : List Char} (h : IsExponent power) :
    ∃ c cs, power = c :: cs ∧ c.isDigit = false ∧ c ≠ '.' := by
  obtain ⟨rfl | rfl, -, -⟩ := h
  · exact ⟨'e', _, rfl, rfl, by decide⟩
  · exact ⟨'E', _, rfl, rfl, by decide⟩

/-- A fraction and an exponent go at least as far as those that the text starts with. -/
theorem Pieces.length_point_power_le (pieces : Pieces) (rest : List Char) :
    pieces.point.length + pieces.power.length ≤
      fraction (pieces.point ++ (pieces.power ++ rest)) +
        exponent ((pieces.point ++ (pieces.power ++ rest)).drop
          (fraction (pieces.point ++ (pieces.power ++ rest)))) := by
  obtain ⟨minus, whole, point, power, -, -, hpoint, hpower⟩ := pieces
  dsimp only
  have hexponent : power.length ≤ exponent (power ++ rest) := by
    rcases hpower with rfl | hpower
    · exact Nat.zero_le _
    · exact hpower.length_le rest
  rcases hpoint with rfl | @⟨ds, hdigits⟩
  · have hfraction : power = [] ∨ fraction (power ++ rest) = 0 := by
      refine hpower.imp_right fun hpower => ?_
      obtain ⟨c, cs, rfl, -, hc⟩ := hpower.exists_cons
      rw [List.cons_append, fraction]
      exact fun _ heq => hc (List.cons.inj heq).1
    rcases hfraction with rfl | hfraction
    · exact Nat.zero_le _
    · rw [List.nil_append, hfraction, List.drop_zero, List.length_nil]
      omega
  · have hcount := digits_append hdigits.2 (power ++ rest)
    have hpos := List.length_pos_iff.mpr hdigits.1
    rw [List.cons_append, fraction, if_neg (by omega), hcount, List.length_cons]
    rcases hpower with rfl | hpower
    · rw [List.length_nil]
      omega
    · obtain ⟨c, cs, rfl, hc, -⟩ := hpower.exists_cons
      have hnone := digits_cons (cs ++ rest) hc
      rw [← List.cons_append] at hnone
      rw [hnone, Nat.add_zero, List.drop_succ_cons, List.drop_left]
      omega

/-- Behind the digits in front of a number no others follow, unless it is at its end. -/
theorem Pieces.digits_point_power (pieces : Pieces) (rest : List Char) :
    pieces.point ++ pieces.power = [] ∨
      digits (pieces.point ++ (pieces.power ++ rest)) = 0 := by
  obtain ⟨minus, whole, point, power, -, -, hpoint, hpower⟩ := pieces
  rcases hpoint with rfl | @⟨ds, -⟩
  · refine hpower.imp id fun hpower => ?_
    obtain ⟨c, cs, rfl, hc, -⟩ := hpower.exists_cons
    exact digits_cons _ hc
  · exact Or.inr (digits_cons _ rfl)

/-- Where a number is at the head of a text, one that is at least as long is measured. -/
theorem Pieces.length_le (pieces : Pieces) (rest : List Char) :
    ∃ n kind, size? (pieces.chars ++ rest) = some (n, kind) ∧ pieces.chars.length ≤ n := by
  generalize htail : pieces.point ++ (pieces.power ++ rest) = tail
  have hcs : pieces.chars ++ rest = pieces.minus ++ (pieces.whole ++ tail) := by
    simp only [chars, ← htail, List.append_assoc]
  obtain ⟨d, ds, hwhole, hd⟩ := pieces.isDigits_whole.exists_cons
  have hminus : Numeral.minus (pieces.chars ++ rest) = pieces.minus.length := by
    rw [hcs, hwhole, List.cons_append]
    exact minus_append pieces.minus_eq hd _
  have hdigits : digits ((pieces.chars ++ rest).drop pieces.minus.length) =
      pieces.whole.length + digits tail := by
    rw [hcs, List.drop_left, digits_append pieces.isDigits_whole.2]
  have hpos := List.length_pos_iff.mpr pieces.isDigits_whole.1
  have hlength : pieces.chars.length = pieces.minus.length + (pieces.whole.length +
      (pieces.point.length + pieces.power.length)) := by
    simp only [chars, List.length_append]
  simp only [size?, hminus, hdigits]
  rw [if_neg (by omega)]
  refine ⟨_, _, rfl, ?_⟩
  rcases pieces.digits_point_power rest with hnil | hnone
  · obtain ⟨hpoint, hpower⟩ := List.append_eq_nil_iff.mp hnil
    rw [hlength, hpoint, hpower]
    simp only [List.length_nil]
    omega
  · have hrest :
        (pieces.chars ++ rest).drop (pieces.minus.length + pieces.whole.length) = tail := by
      rw [hcs, ← List.append_assoc, ← List.length_append, List.drop_left]
    have hle := pieces.length_point_power_le rest
    rw [htail] at hnone hle
    rw [hnone, Nat.add_zero, hrest, ← List.drop_drop, hrest]
    omega

/-! ## The kind of a number -/

/-- A character that stands in a fraction or an exponent alone. -/
def isMark (c : Char) : Bool :=
  c == '.' || c == 'e' || c == 'E'

theorem isMark_of_isDigit {c : Char} (h : c.isDigit = true) : isMark c = false := by
  simp only [isMark, Bool.or_eq_false_iff, beq_eq_false_iff_ne]
  exact ⟨⟨ne_of_isDigit h rfl, ne_of_isDigit h rfl⟩, ne_of_isDigit h rfl⟩

/-- The characters of a number tell whether it has a fraction or an exponent. -/
theorem Pieces.kind_eq (pieces : Pieces) :
    pieces.kind = if pieces.chars.any isMark then .double else .long := by
  obtain ⟨minus, whole, point, power, hminus, hwhole, hpoint, hpower⟩ := pieces
  have hminus : minus.any isMark = false := by
    rcases hminus with rfl | rfl <;> rfl
  have hwhole : whole.any isMark = false :=
    List.any_eq_false.mpr fun c hc => by simp [isMark_of_isDigit (hwhole.2 c hc)]
  simp only [kind, chars, List.any_append, hminus, hwhole, Bool.false_or]
  rcases hpoint with rfl | @⟨ds, -⟩
  · rcases hpower with rfl | ⟨rfl | rfl, -, -⟩ <;> simp [isMark]
  · simp [isMark]

end Numeral

/-! ## Measured numbers -/

/--
A number is measured exactly if it is made of pieces, is of their kind, and no
longer one is there.
-/
theorem Rule.number_eq_some_iff {token rest : List Char} {kind : Numeral.Kind} :
    number (token ++ rest) = some (token.length, kind) ↔
      (∃ pieces : Numeral.Pieces, pieces.chars = token ∧ pieces.kind = kind) ∧
        ∀ pieces : Numeral.Pieces, pieces.chars <+: token ++ rest →
          pieces.chars.length ≤ token.length := by
  constructor
  · intro h
    refine ⟨Numeral.exists_pieces_of_size? h, ?_⟩
    rintro pieces ⟨more, hmore⟩
    obtain ⟨n, kind', hsize, hle⟩ := pieces.length_le more
    rw [hmore] at hsize
    obtain ⟨rfl, -⟩ := Prod.mk.inj (Option.some.inj (hsize.symm.trans h))
    exact hle
  · rintro ⟨⟨pieces, rfl, rfl⟩, hlongest⟩
    obtain ⟨n, kind, hsize, hle⟩ := pieces.length_le rest
    have hbound := sized_number.le hsize
    have htake : ((pieces.chars ++ rest).take n).length = n := List.length_take_of_le hbound
    obtain ⟨longest, hchars, hkind⟩ := @Numeral.exists_pieces_of_size?
      ((pieces.chars ++ rest).take n) ((pieces.chars ++ rest).drop n) kind (by
        rw [List.take_append_drop, htake, hsize])
    have hn := hlongest longest (hchars ▸ List.take_prefix _ _)
    rw [hchars, htake] at hn
    obtain rfl : n = pieces.chars.length := Nat.le_antisymm hn hle
    rw [List.take_left] at hchars
    rw [number, hsize, pieces.kind_eq, ← hchars, ← longest.kind_eq, hkind]

namespace Numeral

/-- Nothing is measured where no number is. -/
theorem size?_eq_none_iff {cs : List Char} :
    size? cs = none ↔ ∀ pieces : Pieces, ¬pieces.chars <+: cs := by
  constructor
  · rintro hnone pieces ⟨rest, rfl⟩
    obtain ⟨n, kind, hsize, -⟩ := pieces.length_le rest
    rw [hnone] at hsize
    cases hsize
  · intro hno
    cases hsize : size? cs with
    | none => rfl
    | some measured =>
        obtain ⟨n, kind⟩ := measured
        obtain ⟨token, rest, rfl, rfl⟩ := Rule.sized_number.split hsize
        obtain ⟨⟨pieces, rfl, -⟩, -⟩ := Rule.number_eq_some_iff.mp hsize
        exact absurd (List.prefix_append _ _) (hno pieces)

/-! ## Numbers in front of other texts -/

/-- A character that may stand in a number. -/
def isPart (c : Char) : Bool :=
  c.isDigit || c == '.' || c == 'e' || c == 'E' || c == '-' || c == '+'

/-- A text does not go on with a number. -/
def NoPart (cs : List Char) : Prop :=
  cs.head?.any isPart = false

theorem IsDigits.isPart_of_mem {ds : List Char} (h : IsDigits ds) {c : Char} (hc : c ∈ ds) :
    isPart c = true := by
  simp [isPart, h.2 c hc]

theorem Pieces.isPart_of_mem (pieces : Pieces) {c : Char} (hc : c ∈ pieces.chars) :
    isPart c = true := by
  obtain ⟨minus, whole, point, power, hminus, hwhole, hpoint, hpower⟩ := pieces
  simp only [chars, List.mem_append] at hc
  rcases hc with hc | hc | hc | hc
  · rcases hminus with rfl | rfl
    · cases hc
    · obtain rfl := List.mem_singleton.mp hc
      rfl
  · exact hwhole.isPart_of_mem hc
  · rcases hpoint with rfl | @⟨ds, hdigits⟩
    · cases hc
    · rcases List.mem_cons.mp hc with rfl | hc
      · rfl
      · exact hdigits.isPart_of_mem hc
  · rcases hpower with rfl | ⟨hletter, hsign, hdigits⟩
    · cases hc
    · rcases List.mem_cons.mp hc with rfl | hc
      · rcases hletter with rfl | rfl <;> rfl
      rcases List.mem_append.mp hc with hc | hc
      · rcases hsign with rfl | rfl | rfl
        · cases hc
        · obtain rfl := List.mem_singleton.mp hc
          rfl
        · obtain rfl := List.mem_singleton.mp hc
          rfl
      · exact hdigits.isPart_of_mem hc

/-- A number goes no further than to the first character that is no part of one. -/
theorem Pieces.prefix_of_noPart {pieces : Pieces} {piece other : List Char}
    (h : pieces.chars <+: piece ++ other) (hother : NoPart other) : pieces.chars <+: piece := by
  rcases List.prefix_or_prefix_of_prefix h (List.prefix_append piece other) with hshort | hlong
  · exact hshort
  · obtain ⟨more, hmore⟩ := hlong
    cases more with
    | nil => exact ⟨[], by simpa using hmore.symm⟩
    | cons c more =>
        rw [← hmore, List.prefix_append_right_inj] at h
        obtain ⟨rest, rfl⟩ := h
        have hc : isPart c = false := hother
        rw [pieces.isPart_of_mem (c := c) (by simp [← hmore])] at hc
        cases hc

/-- A number is measured alike in front of any text that does not go on with it. -/
theorem size?_append {token rest other : List Char} {kind : Kind}
    (h : size? (token ++ rest) = some (token.length, kind)) (hother : NoPart other) :
    size? (token ++ other) = some (token.length, kind) :=
  Rule.number_eq_some_iff.mpr ⟨(Rule.number_eq_some_iff.mp h).1, fun _ hprefix =>
    (Pieces.prefix_of_noPart hprefix hother).length_le⟩

/-- Where a number stops is decided in front of the first character that is no part of one. -/
theorem size?_apart (piece : List Char) {other : List Char} (hother : NoPart other) :
    size? (piece ++ other) = size? piece := by
  cases hsize : size? piece with
  | none =>
      rw [size?_eq_none_iff] at hsize ⊢
      exact fun pieces hprefix => hsize pieces (Pieces.prefix_of_noPart hprefix hother)
  | some measured =>
      obtain ⟨n, kind⟩ := measured
      obtain ⟨token, rest, rfl, rfl⟩ := Rule.sized_number.split hsize
      obtain ⟨hpieces, hlongest⟩ := Rule.number_eq_some_iff.mp hsize
      rw [List.append_assoc]
      refine Rule.number_eq_some_iff.mpr ⟨hpieces, fun pieces hprefix => hlongest pieces ?_⟩
      rw [← List.append_assoc] at hprefix
      exact Pieces.prefix_of_noPart hprefix hother

/-- A number has no characters but those of a number. -/
theorem isPart_of_mem {token rest : List Char} {kind : Kind}
    (h : size? (token ++ rest) = some (token.length, kind)) {c : Char} (hc : c ∈ token) :
    isPart c = true := by
  obtain ⟨⟨pieces, rfl, -⟩, -⟩ := Rule.number_eq_some_iff.mp h
  exact pieces.isPart_of_mem hc

/-- A number starts with a digit, or with a minus sign in front of one. -/
theorem head_of_size? {cs : List Char} {size : Nat × Kind} (h : size? cs = some size) :
    ∃ c rest, cs = c :: rest ∧ (c.isDigit = true ∨
      c = '-' ∧ ∃ d more, rest = d :: more ∧ d.isDigit = true) := by
  obtain ⟨n, kind⟩ := size
  obtain ⟨token, rest, rfl, rfl⟩ := Rule.sized_number.split h
  obtain ⟨⟨⟨minus, whole, point, power, hminus, hwhole, -, -⟩, rfl, -⟩, -⟩ :=
    Rule.number_eq_some_iff.mp h
  obtain ⟨d, ds, rfl, hd⟩ := hwhole.exists_cons
  rcases hminus with rfl | rfl
  · exact ⟨d, _, rfl, Or.inl hd⟩
  · exact ⟨'-', _, rfl, Or.inr ⟨rfl, d, _, rfl, hd⟩⟩

end Numeral

end DocQuery.Lexical
