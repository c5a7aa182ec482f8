import DocQuery.Proofs.Grammar.Orderly

/-!
# No reader meets a fault

A session is asked to read queries and to go to other texts, in any order and
any number of times, also behind a text that it refused.  Each reading comes to a
query or refuses the text: the cursor always cuts the text between characters,
no group is left that was not entered, every span is a piece of the text, and
the fuel is enough.
-/

namespace DocQuery

open Grammar Lexical

/-! ## Words -/

theorem Text.utf8Size_toLower (c : Char) : c.toLower.utf8Size = c.utf8Size := by
  delta Char.toLower
  split
  · next h =>
      obtain ⟨hlow, hhigh⟩ := h
      rw [Char.utf8Size_eq_one_iff.mpr (UInt32.le_trans hhigh (by decide)),
        Char.utf8Size_eq_one_iff, UInt32.le_iff_toNat_le, UInt32.toNat_add]
      have hhigh : c.val.toNat ≤ 90 := UInt32.le_iff_toNat_le.mp hhigh
      have hgap : ('a'.val - 'A'.val).toNat = 32 := rfl
      have hbound : (127 : UInt32).toNat = 127 := rfl
      omega
  · rfl
/-- Behind a word that was found, the bytes of the word cut the text. -/
theorem Text.dropBytes?_of_startsWithWord {word text : List Char}
    (h : startsWithWord word text = true) :
    dropBytes? (byteLength word) text = some (text.drop word.length) := by
  induction word generalizing text with
  | nil => simp [dropBytes?]
  | cons c word ih =>
      cases text with
      | nil => simp [startsWithWord] at h
      | cons d text =>
          simp only [startsWithWord, sameLetter, Bool.and_eq_true, beq_iff_eq] at h
          have hsize : c.utf8Size = d.utf8Size := by
            rw [← utf8Size_toLower c, h.1, utf8Size_toLower]
          obtain ⟨before, hcut, hlength⟩ := dropBytes?_eq_some_iff.mp (ih h.2)
          refine dropBytes?_eq_some_iff.mpr ⟨d :: before, ?_, ?_⟩
          · rw [List.length_cons, List.drop_succ_cons, List.cons_append, ← hcut]
          · rw [byteLength_cons, byteLength_cons, hlength, hsize]

/-! ## Braces of a script -/

namespace Lexical.Block

/--
The number of characters of a script for a reader that counts the open braces
from nought.  Where the count would fall below nought, there is a fault.
-/
def counted : Place → (depth : Nat) → List Char → Except Fault (Option Nat)
  | _, _, [] => .ok none
  | .code, depth, '{' :: cs => (counted .code (depth + 1) cs).map (Option.map (· + 1))
  | .code, 0, '}' :: _ => .error .depthBelowZero
  | .code, 1, '}' :: _ => .ok (some 1)
  | .code, depth + 2, '}' :: cs => (counted .code (depth + 1) cs).map (Option.map (· + 1))
  | .code, depth, '/' :: '/' :: cs => (counted .line depth cs).map (Option.map (· + 2))
  | .code, depth, '/' :: '*' :: cs => (counted .comment depth cs).map (Option.map (· + 2))
  | .code, depth, c :: cs =>
      if isQuote c then (counted (.quoted c) depth cs).map (Option.map (· + 1))
      else (counted .code depth cs).map (Option.map (· + 1))
  | .quoted _, _, ['\\'] => .ok none
  | .quoted quote, depth, '\\' :: _ :: cs =>
      (counted (.quoted quote) depth cs).map (Option.map (· + 2))
  | .quoted quote, depth, c :: cs =>
      if c = quote then (counted .code depth cs).map (Option.map (· + 1))
      else (counted (.quoted quote) depth cs).map (Option.map (· + 1))
  | .line, depth, c :: cs =>
      if c = '\n' then (counted .code depth cs).map (Option.map (· + 1))
      else (counted .line depth cs).map (Option.map (· + 1))
  | .comment, depth, '*' :: '/' :: cs => (counted .code depth cs).map (Option.map (· + 2))
  | .comment, depth, _ :: cs => (counted .comment depth cs).map (Option.map (· + 1))

/-- Inside of a script there is an open brace to count down for every closing one. -/
theorem counted_succ (place : Place) (nested : Nat) (cs : List Char) :
    counted place (nested + 1) cs = .ok (lengthFrom? place nested cs) := by
  fun_induction lengthFrom? place nested cs with
  | _ => simp_all [counted, Except.map]

/-- The reader that counts from nought measures a script as it is measured. -/
theorem counted_zero (cs : List Char) : counted .code 0 ('{' :: cs) = .ok (length? ('{' :: cs)) := by
  rw [counted, counted_succ]
  rfl

end Lexical.Block

/-! ## Sessions -/

/-- What a session is asked for. -/
inductive Call where
  /-- Go to the beginning of another text. -/
  | restart (text : String)
  /-- Read a query of a kind from the cursor on. -/
  | read (kind : QueryKind)

namespace Session

/-- The answers to the readings among some calls. -/
def answers : Session → List Call → List (Except Failure Query)
  | _, [] => []
  | session, .restart text :: calls => answers (session.restart text) calls
  | session, .read kind :: calls =>
      (session.read kind).1 :: answers (session.read kind).2 calls

/-- The cursor of the session stands between two characters of its text. -/
def Placed (session : Session) : Prop :=
  ∃ cs, session.scanner.ahead = some cs

/-- The answer is a query, or the text is refused with an error. -/
def Settled (answer : Except Failure Query) : Prop :=
  (∃ query, answer = .ok query) ∨ ∃ error, answer = .error (.rejected error)

theorem placed_ofText (text : String) (limits : Limits) : (ofText text limits).Placed :=
  ⟨text.toList, rfl⟩

theorem placed_restart (text : String) (session : Session) : (session.restart text).Placed :=
  ⟨text.toList, rfl⟩

/-- A reading from between two characters is settled and ends between two characters. -/
theorem Placed.read {session : Session} (h : session.Placed) (kind : QueryKind) :
    Settled (session.read kind).1 ∧ (session.read kind).2.Placed := by
  obtain ⟨cs, hahead⟩ := h
  have hs : Stands (Text.byteLength session.scanner.text.toList) cs ⟨session.scanner, 0, 0⟩ :=
    ⟨hahead, rfl⟩
  have hfuel : 4 * cs.length + 6 ≤ fuelFor session.scanner.text := by
    have hbytes := hs.byteLength_le
    have hchars := Text.length_le_byteLength cs
    rw [fuelFor, Text.utf8ByteSize_eq]
    omega
  have hend := (suffices_query session.limits kind).orderly hs hfuel
  unfold Session.read
  simp only
  cases hresult : query session.limits kind (fuelFor session.scanner.text)
      ⟨session.scanner, 0, 0⟩ with
  | ok query s =>
      rw [hresult] at hend
      obtain ⟨rest, hs⟩ := hend.stands_of_ok
      exact ⟨Or.inl ⟨query, rfl⟩, rest, hs.ahead⟩
  | error failure s =>
      rw [hresult] at hend
      cases hend with
      | refused error hs => exact ⟨Or.inr ⟨error, rfl⟩, _, hs.ahead⟩

/-- Every answer of a session that stands between two characters is settled. -/
theorem Placed.answers {session : Session} (h : session.Placed) (calls : List Call) :
    ∀ answer ∈ session.answers calls, Settled answer := by
  induction calls generalizing session with
  | nil => simp [Session.answers]
  | cons call calls ih =>
      cases call with
      | restart text => exact ih (placed_restart text session)
      | read kind =>
          obtain ⟨hsettled, hplaced⟩ := h.read kind
          intro answer hanswer
          rcases List.mem_cons.mp hanswer with rfl | hlater
          · exact hsettled
          · exact ih hplaced answer hlater

/--
Whatever a session is asked for, each reading comes to a query or refuses the
text, without a fault and without running out of fuel.  A token never ends before
it starts, a word that is found ends between two characters, and the braces of a
script are never counted below nought.
-/
theorem answers_settled (text : String) (limits : Limits) (calls : List Call) :
    (∀ answer ∈ (ofText text limits).answers calls,
      (∃ query, answer = .ok query) ∨ ∃ error, answer = .error (.rejected error)) ∧
    (∀ (gap size : Nat) (s : Scanner),
      (s.accept gap size).token.start + (s.accept gap size).token.length =
        (s.accept gap size).offset) ∧
    (∀ {word cs : List Char}, Text.startsWithWord word cs = true →
      Text.dropBytes? (Text.byteLength word) cs = some (cs.drop word.length)) ∧
    ∀ cs : List Char, Block.counted .code 0 ('{' :: cs) = .ok (Block.length? ('{' :: cs)) :=
  ⟨(placed_ofText text limits).answers calls, Scanner.offset_accept,
    Text.dropBytes?_of_startsWithWord, Block.counted_zero⟩

end Session

end DocQuery
