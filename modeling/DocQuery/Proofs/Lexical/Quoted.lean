import DocQuery.Proofs.Lexical.Rule

/-!
# Quoted texts and the quotes around them

A quoted text is its opening quote, a body and the first quote that closes it.
A body is written with the quotes around it in mind: inside, a quote stands
twice and a backslash takes the next character with it.  Where a quoted text ends
depends only on the body and on whether another quote follows, so the same token
is found in front of any other rest.  The main statement is
`Rule.quoted_eq_some_iff`.
-/

namespace DocQuery.Lexical.Quoted

theorem isQuote_eq_true {c : Char} : isQuote c = true ↔ c = '\'' ∨ c = '\"' := by
  simp [isQuote]

theorem ne_backslash_of_isQuote {c : Char} (h : isQuote c = true) : c ≠ '\\' := by
  rintro rfl
  exact absurd h (by decide)

/-! ## One character at a time -/

theorem tailSize?_plain {quote c : Char} (cs : List Char) (hquote : c ≠ quote) (hslash : c ≠ '\\') :
    tailSize? quote (c :: cs) = (tailSize? quote cs).map Size.plain := by
  cases cs with
  | nil =>
      rw [tailSize?]
      simp [hquote, tailSize?]
  | cons d cs =>
      rw [tailSize?, if_neg hquote]
      exact hslash

theorem tailSize?_doubled {quote : Char} (cs : List Char) (hslash : quote ≠ '\\') :
    tailSize? quote (quote :: quote :: cs) = (tailSize? quote cs).map Size.escape := by
  rw [tailSize?]
  · simp
  · exact fun h => hslash h

theorem tailSize?_close {quote : Char} {cs : List Char} (hslash : quote ≠ '\\')
    (hnext : cs.head? ≠ some quote) : tailSize? quote (quote :: cs) = some ⟨1, 0⟩ := by
  cases cs with
  | nil =>
      rw [tailSize?]
      · simp
      · exact fun h => hslash h
  | cons d cs =>
      have hd : d ≠ quote := by simpa using hnext
      rw [tailSize?]
      · simp [hd]
      · exact fun h => hslash h

/-! ## Where a quoted text ends -/

/-- What can stand between two such quotes, and the number of its escapes. -/
inductive Body (quote : Char) : List Char → Nat → Prop where
  | nil : Body quote [] 0
  | plain {c : Char} {cs : List Char} {escapes : Nat} :
      c ≠ quote → c ≠ '\\' → Body quote cs escapes → Body quote (c :: cs) escapes
  | doubled {cs : List Char} {escapes : Nat} :
      Body quote cs escapes → Body quote (quote :: quote :: cs) (escapes + 1)
  | slashed {c : Char} {cs : List Char} {escapes : Nat} :
      Body quote cs escapes → Body quote ('\\' :: c :: cs) (escapes + 1)

/-- A body ends at the first quote behind it, unless another quote follows. -/
theorem Body.tailSize?_eq {quote : Char} {body : List Char} {escapes : Nat}
    (h : Body quote body escapes) (hslash : quote ≠ '\\') {rest : List Char}
    (hrest : rest.head? ≠ some quote) :
    tailSize? quote (body ++ quote :: rest) = some ⟨body.length + 1, escapes⟩ := by
  induction h with
  | nil => exact tailSize?_close hslash hrest
  | plain hquote hc _ ih =>
      rw [List.cons_append, tailSize?_plain _ hquote hc, ih]
      rfl
  | doubled _ ih =>
      rw [List.cons_append, List.cons_append, tailSize?_doubled _ hslash, ih]
      rfl
  | slashed _ ih =>
      rw [List.cons_append, List.cons_append, tailSize?, ih]
      rfl

/-- A measured tail is a body and a closing quote that no other quote follows. -/
theorem tailSize?_eq_some {quote : Char} {cs : List Char} {size : Size}
    (h : tailSize? quote cs = some size) :
    ∃ body rest, cs = body ++ quote :: rest ∧ Body quote body size.escapes ∧
      size.length = body.length + 1 ∧ rest.head? ≠ some quote := by
  fun_induction tailSize? quote cs generalizing size with
  | case1 => cases h
  | case2 => cases h
  | case3 c cs ih =>
      obtain ⟨inner, hinner, rfl⟩ := Option.map_eq_some_iff.mp h
      obtain ⟨body, rest, rfl, hbody, hlen, hrest⟩ := ih hinner
      exact ⟨'\\' :: c :: body, rest, rfl, hbody.slashed, by simp [Size.escape, hlen], hrest⟩
  | case4 =>
      cases h
      exact ⟨[], [], rfl, .nil, rfl, by simp⟩
  | case5 => cases h
  | case6 cs _ ih =>
      obtain ⟨inner, hinner, rfl⟩ := Option.map_eq_some_iff.mp h
      obtain ⟨body, rest, rfl, hbody, hlen, hrest⟩ := ih hinner
      exact ⟨quote :: quote :: body, rest, rfl, hbody.doubled, by simp [Size.escape, hlen], hrest⟩
  | case7 d cs hd =>
      cases h
      exact ⟨[], d :: cs, rfl, .nil, rfl, by simpa using hd⟩
  | case8 c d cs hc hquote ih =>
      obtain ⟨inner, hinner, rfl⟩ := Option.map_eq_some_iff.mp h
      obtain ⟨body, rest, heq, hbody, hlen, hrest⟩ := ih hinner
      exact ⟨c :: body, rest, by rw [heq]; rfl, hbody.plain hquote fun h => hc h,
        by simp [Size.plain, hlen], hrest⟩

/-- A measured quoted text is a body between two equal quotes. -/
theorem size?_eq_some {cs : List Char} {size : Size} (h : size? cs = some size) :
    ∃ quote body rest, isQuote quote = true ∧ cs = quote :: (body ++ quote :: rest) ∧
      Body quote body size.escapes ∧ size.length = body.length + 2 ∧
      rest.head? ≠ some quote := by
  cases cs with
  | nil => cases h
  | cons c cs =>
      rw [size?] at h
      split at h
      · next hquote =>
          obtain ⟨inner, hinner, rfl⟩ := Option.map_eq_some_iff.mp h
          obtain ⟨body, rest, rfl, hbody, hlen, hrest⟩ := tailSize?_eq_some hinner
          exact ⟨c, body, rest, hquote, rfl, hbody, by simp [Size.plain, hlen], hrest⟩
      · cases h

end Quoted

namespace Rule

variable {token rest : List Char} {escapes : Nat}

/-- A quoted text is a body between two equal quotes that no other such quote follows. -/
theorem quoted_eq_some_iff : quoted (token ++ rest) = some (token.length, escapes) ↔
    ∃ quote body, Quoted.isQuote quote = true ∧ token = quote :: (body ++ [quote]) ∧
      Quoted.Body quote body escapes ∧ rest.head? ≠ some quote := by
  constructor
  · intro h
    obtain ⟨size, hsize, heq⟩ := Option.map_eq_some_iff.mp h
    obtain ⟨quote, body, rest', hquote, hcut, hbody, hlen, hrest⟩ := Quoted.size?_eq_some hsize
    simp only [Prod.mk.injEq] at heq
    obtain ⟨hlength, rfl⟩ := heq
    have hsplit : token ++ rest = (quote :: (body ++ [quote])) ++ rest' := by simp [hcut]
    obtain ⟨hshape, rfl⟩ := List.append_inj hsplit (by simp; omega)
    exact ⟨quote, body, hquote, hshape, hbody, hrest⟩
  · rintro ⟨quote, body, hquote, rfl, hbody, hrest⟩
    have htail := hbody.tailSize?_eq (Quoted.ne_backslash_of_isQuote hquote) hrest
    rw [List.cons_append, List.append_assoc, List.singleton_append, quoted, Quoted.size?,
      if_pos hquote, htail]
    simp [Quoted.Size.plain]

/-- A quoted text is found alike in front of any text that does not start with its quote. -/
theorem quoted_eq_some (h : quoted (token ++ rest) = some (token.length, escapes)) :
    ∃ quote body, Quoted.isQuote quote = true ∧ token = quote :: (body ++ [quote]) ∧
      ∀ {other : List Char}, other.head? ≠ some quote →
        quoted (token ++ other) = some (token.length, escapes) := by
  obtain ⟨quote, body, hquote, hshape, hbody, -⟩ := quoted_eq_some_iff.mp h
  exact ⟨quote, body, hquote, hshape, fun hother =>
    quoted_eq_some_iff.mpr ⟨quote, body, hquote, hshape, hbody, hother⟩⟩

/-- A quoted text is found alike in front of any text that is empty or starts alike. -/
theorem quoted_again {other : List Char} (h : quoted (token ++ rest) = some (token.length, escapes))
    (hother : other.head? = none ∨ other.head? = rest.head?) :
    quoted (token ++ other) = some (token.length, escapes) := by
  obtain ⟨quote, body, hquote, hshape, hbody, hrest⟩ := quoted_eq_some_iff.mp h
  refine quoted_eq_some_iff.mpr ⟨quote, body, hquote, hshape, hbody, fun hnext => ?_⟩
  rcases hother with hnone | hsame
  · rw [hnone] at hnext
    cases hnext
  · exact hrest (hsame ▸ hnext)

theorem sized_quoted : Sized quoted := by
  have hbounds : ∀ {cs : List Char} {n a}, quoted cs = some (n, a) → 0 < n ∧ n ≤ cs.length := by
    intro cs n a h
    obtain ⟨size, hsize, heq⟩ := Option.map_eq_some_iff.mp h
    obtain ⟨quote, body, rest, -, rfl, -, hlen, -⟩ := Quoted.size?_eq_some hsize
    simp only [Prod.mk.injEq] at heq
    simp only [List.length_cons, List.length_append]
    omega
  exact ⟨fun h => (hbounds h).1, fun h => (hbounds h).2⟩

end Rule

end DocQuery.Lexical
