/-!
# Texts measured in bytes

Every position in a query text is a number of bytes of its UTF-8 form.  A text
is a list of characters, so a byte position either falls between two characters
or inside one; only in the first case does it cut the text.  The main statement
is `dropBytes?_eq_some_iff`: a cut at byte `n` exists exactly when the first
characters take `n` bytes together.
-/

namespace DocQuery.Text

/-- The number of bytes that the characters take in UTF-8. -/
def byteLength : List Char → Nat
  | [] => 0
  | c :: cs => c.utf8Size + byteLength cs

/-- The characters from byte `n` on, if byte `n` is a cut of the text. -/
def dropBytes? : Nat → List Char → Option (List Char)
  | 0, cs => some cs
  | _ + 1, [] => none
  | n + 1, c :: cs =>
      if c.utf8Size ≤ n + 1 then dropBytes? (n + 1 - c.utf8Size) cs else none

/-- The characters before byte `n`, if byte `n` is a cut of the text. -/
def takeBytes? : Nat → List Char → Option (List Char)
  | 0, _ => some []
  | _ + 1, [] => none
  | n + 1, c :: cs =>
      if c.utf8Size ≤ n + 1 then (takeBytes? (n + 1 - c.utf8Size) cs).map (c :: ·)
      else none

/-- The `length` bytes from byte `start` on, if both ends are cuts of the text. -/
def slice? (start length : Nat) (cs : List Char) : Option (List Char) :=
  (dropBytes? start cs).bind (takeBytes? length)

/-- The characters that begin before byte `n`. -/
def charsBefore : Nat → List Char → List Char
  | 0, _ => []
  | _ + 1, [] => []
  | n + 1, c :: cs => c :: charsBefore (n + 1 - c.utf8Size) cs

/-! ## Laws of the byte length -/

@[simp]
theorem byteLength_nil : byteLength [] = 0 := rfl

@[simp]
theorem byteLength_cons (c : Char) (cs : List Char) :
    byteLength (c :: cs) = c.utf8Size + byteLength cs := rfl

@[simp]
theorem byteLength_append (cs ds : List Char) :
    byteLength (cs ++ ds) = byteLength cs + byteLength ds := by
  induction cs with
  | nil => simp
  | cons c cs ih => simp [ih, Nat.add_assoc]

/-- Only the empty text takes no byte. -/
theorem byteLength_eq_zero_iff {cs : List Char} : byteLength cs = 0 ↔ cs = [] := by
  cases cs with
  | nil => simp
  | cons c cs =>
      have := Char.utf8Size_pos c
      simp only [byteLength_cons, reduceCtorEq, iff_false]
      omega

/-! ## Laws of the cuts -/

/-- A text is cut behind any of its beginnings. -/
@[simp]
theorem dropBytes?_append (cs ds : List Char) :
    dropBytes? (byteLength cs) (cs ++ ds) = some ds := by
  induction cs with
  | nil => simp [dropBytes?]
  | cons c cs ih =>
      have hpos := Char.utf8Size_pos c
      obtain ⟨n, hn⟩ : ∃ n, byteLength (c :: cs) = n + 1 :=
        ⟨byteLength (c :: cs) - 1, by simp only [byteLength_cons]; omega⟩
      have hrest : n + 1 - c.utf8Size = byteLength cs := by
        simp only [byteLength_cons] at hn; omega
      have hle : c.utf8Size ≤ n + 1 := by simp only [byteLength_cons] at hn; omega
      rw [hn, List.cons_append, dropBytes?, if_pos hle, hrest, ih]

/-- A cut at byte `n` splits the text into `n` bytes and what follows them. -/
theorem dropBytes?_eq_some_iff {n : Nat} {cs ds : List Char} :
    dropBytes? n cs = some ds ↔ ∃ before, cs = before ++ ds ∧ byteLength before = n := by
  constructor
  · intro hdrop
    induction cs generalizing n with
    | nil =>
        cases n with
        | zero => exact ⟨[], by simpa [dropBytes?] using hdrop⟩
        | succ n => simp [dropBytes?] at hdrop
    | cons c cs ih =>
        cases n with
        | zero =>
            simp only [dropBytes?, Option.some.injEq] at hdrop
            exact ⟨[], by simp [hdrop]⟩
        | succ n =>
            rw [dropBytes?] at hdrop
            split at hdrop
            · next hle =>
                obtain ⟨before, hcs, hlen⟩ := ih hdrop
                exact ⟨c :: before, by simp [hcs], by simp only [byteLength_cons]; omega⟩
            · cases hdrop
  · rintro ⟨before, rfl, rfl⟩
    simp

/-- Dropping further bytes from what a cut leaves is one longer cut. -/
theorem dropBytes?_add {n : Nat} {cs before after : List Char}
    (hdrop : dropBytes? n cs = some (before ++ after)) :
    dropBytes? (n + byteLength before) cs = some after := by
  obtain ⟨first, rfl, rfl⟩ := dropBytes?_eq_some_iff.mp hdrop
  rw [dropBytes?_eq_some_iff]
  exact ⟨first ++ before, by simp, by simp⟩

end DocQuery.Text
