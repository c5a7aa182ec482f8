import DocQuery.Fault
import DocQuery.Keyword
import DocQuery.Lexical.Block
import DocQuery.Lexical.Numeral
import DocQuery.Lexical.Phrase
import DocQuery.Lexical.Quoted
import DocQuery.Span

/-!
# A cursor over a query text

A scanner holds a text, a byte position in it and the token that was matched
last.  A match looks behind the trivia at the cursor.  It either succeeds, and
then the token is recorded and the cursor stands behind it, or it leaves the
scanner as it was.  Positions are numbers of bytes that may be set freely; a
match whose cursor stands inside a character is a fault.
-/

namespace DocQuery

/-- A matched token: the position where it starts and its characters. -/
structure Token where
  start : Nat
  chars : List Char
  deriving DecidableEq, Inhabited, Repr

namespace Token

/-- The text of the token. -/
def text (token : Token) : String :=
  String.ofList token.chars

/-- The number of bytes of the token. -/
def length (token : Token) : Nat :=
  Text.byteLength token.chars

/-- The bytes that the token covers. -/
def span (token : Token) : Span :=
  ⟨token.start, token.length⟩

/-- The token is one of the keywords. -/
def isOneOf (keywords : List Keyword) (token : Token) : Bool :=
  (Keyword.ofText? token.chars).any keywords.contains

/-- The characters of the token without its first and its last byte. -/
def content? (token : Token) : Option (List Char) :=
  if token.length < 2 then some []
  else
    match token.chars with
    | [] => some []
    | c :: cs =>
        if c.utf8Size = 1 ∧ (cs.getLast?.map Char.utf8Size) = some 1 then some cs.dropLast
        else none

end Token

/-- A cursor over a text, with the characters ahead of it kept at hand. -/
structure Scanner where
  text : String
  /-- The byte position of the cursor. -/
  offset : Nat
  /-- The characters from the cursor on, none if it stands inside a character. -/
  ahead : Option (List Char)
  /-- The token of the last match. -/
  token : Token
  /-- The escapes in the last quoted text. -/
  escapes : Nat
  ahead_eq : ahead = Text.dropBytes? offset text.toList

/-- A step of a scanner with a result, unless it is a fault. -/
abbrev Scan (α : Type) : Type :=
  Scanner → Except Fault (α × Scanner)

namespace Scanner

/-! ## Positions -/

/-- A scanner at the beginning of a text. -/
def ofText (text : String) : Scanner :=
  ⟨text, 0, some text.toList, ⟨0, []⟩, 0, by simp [Text.dropBytes?]⟩

/-- The scanner with its cursor at a position, or at the end of a shorter text. -/
def moveTo (position : Nat) (s : Scanner) : Scanner :=
  { s with
    offset := min position s.text.utf8ByteSize
    ahead := Text.dropBytes? (min position s.text.utf8ByteSize) s.text.toList
    ahead_eq := rfl }

/-- The scanner with its cursor so many bytes further back, but not before the text. -/
def goBack (count : Nat) (s : Scanner) : Scanner :=
  { s with
    offset := s.offset - count
    ahead := Text.dropBytes? (s.offset - count) s.text.toList
    ahead_eq := rfl }

/-- The scanner with its cursor so many characters further on. -/
def forward (count : Nat) (s : Scanner) : Scanner :=
  { s with
    offset := s.offset + Text.byteLength ((s.ahead.getD []).take count)
    ahead := s.ahead.map (List.drop count)
    ahead_eq := by
      cases hahead : s.ahead with
      | none => simpa [hahead] using s.ahead_eq
      | some cs =>
          have hcut : Text.dropBytes? s.offset s.text.toList =
              some (cs.take count ++ cs.drop count) := by
            rw [← s.ahead_eq, hahead, List.take_append_drop]
          simpa using (Text.dropBytes?_add hcut).symm }

/-- The line and column of the cursor. -/
def location (s : Scanner) : Location :=
  Location.of s.text s.offset

/-- The line and column of a position in the text. -/
def locationAt (position : Nat) (s : Scanner) : Location :=
  Location.of s.text position

/-! ## Matching -/

/-- The characters ahead of the cursor. -/
def read (s : Scanner) : Except Fault (List Char) :=
  match s.ahead with
  | some cs => .ok cs
  | none => .error .cursorInCharacter

/-- The scanner behind a token of `size` characters that follow `gap` others. -/
def accept (gap size : Nat) (s : Scanner) : Scanner :=
  { s.forward (gap + size) with
    token :=
      ⟨s.offset + Text.byteLength ((s.ahead.getD []).take gap),
       ((s.ahead.getD []).drop gap).take size⟩ }

/--
Match the token that a rule measures behind the trivia at the cursor.  Without
a match the scanner stays as it was.
-/
def measure {α : Type} (rule : List Char → Option (Nat × α)) : Scan (Option α) :=
  fun s => do
    let cs ← s.read
    match rule (Lexical.Trivia.rest cs) with
    | none => return (none, s)
    | some (size, meaning) => return (some meaning, s.accept (Lexical.Trivia.length cs) size)

/-- Match the token that a rule measures, when its length is all there is to know. -/
def recognise (rule : List Char → Option Nat) : Scan Bool :=
  fun s => do
    let (found, s) ← measure (fun cs => (rule cs).map (·, ())) s
    return (found.isSome, s)

/-- Match a list of words in any case with trivia between them. -/
def phrase (literal : String) : Scan Bool :=
  recognise (Lexical.Phrase.length? (Text.words literal.toList))

/-- Match one character. -/
def char (expected : Char) : Scan Bool :=
  recognise fun cs => if cs.head? = some expected then some 1 else none

/-- Match a keyword. -/
def keyword (keyword : Keyword) : Scan Bool :=
  phrase keyword.text

/-- Match the first phrase of a table that fits, and give what the table says of it. -/
def firstOf {α : Type} : List (String × α) → Scan (Option α)
  | [], s => .ok (none, s)
  | (literal, meaning) :: table, s => do
      let (found, s) ← phrase literal s
      if found then return (some meaning, s) else firstOf table s

/-- Match the first of several keywords that fits. -/
def anyKeyword (keywords : List Keyword) : Scan (Option Keyword) :=
  firstOf (keywords.map fun keyword => (keyword.text, keyword))

/-- Match a name, which may start like the rest of a name unless it is at a beginning. -/
def identifier (beginning : Bool) : Scan Bool :=
  recognise (Lexical.Identifier.length? beginning)

/-- Match a quoted text and count its escapes. -/
def quoted : Scan Bool :=
  fun s => do
    let (found, s) ←
      measure (fun cs => (Lexical.Quoted.size? cs).map fun size => (size.length, size.escapes)) s
    match found with
    | none => return (false, s)
    | some escapes => return (true, { s with escapes := escapes })

/-- Match a number. -/
def number : Scan (Option Lexical.Numeral.Kind) :=
  measure Lexical.Numeral.size?

/-- Match a script from its opening brace to the brace that closes it. -/
def block : Scan Bool :=
  recognise Lexical.Block.length?

/-- The text between the quotes of the last token. -/
def content (s : Scanner) : Except Fault String :=
  match s.token.content? with
  | some cs => .ok (String.ofList cs)
  | none => .error .quoteInCharacter

/-! ## Looking ahead -/

/-- The next character behind the trivia is the expected one. -/
def peek (expected : Char) : Scan Bool :=
  fun s => do
    let cs ← s.read
    return ((Lexical.Trivia.rest cs).head? == some expected, s)

/-- Nothing but trivia is ahead. -/
def atEnd : Scan Bool :=
  fun s => do
    let cs ← s.read
    return ((Lexical.Trivia.rest cs).isEmpty, s)

/-- The number of characters of whatever token is at the head of a text. -/
def nextLength : List Char → Nat
  | [] => 0
  | c :: cs =>
      let found :=
        if c.isDigit then (Lexical.Numeral.size? (c :: cs)).map Prod.fst
        else Lexical.Identifier.length? false (c :: cs)
      found.getD 1

/-- Take whatever token comes next, or the empty token at the end of the text. -/
def next : Scan Bool :=
  fun s => do
    let cs ← s.read
    let rest := Lexical.Trivia.rest cs
    match Lexical.Quoted.size? rest with
    | some size =>
        return (true,
          { s.accept (Lexical.Trivia.length cs) size.length with escapes := size.escapes })
    | none => return (!rest.isEmpty, s.accept (Lexical.Trivia.length cs) (nextLength rest))

/-! ## Small laws -/

@[simp]
theorem ahead_ofText (text : String) : (ofText text).ahead = some text.toList := rfl

@[simp]
theorem text_forward (count : Nat) (s : Scanner) : (s.forward count).text = s.text := rfl

@[simp]
theorem text_accept (gap size : Nat) (s : Scanner) : (s.accept gap size).text = s.text := rfl

@[simp]
theorem text_moveTo (position : Nat) (s : Scanner) : (s.moveTo position).text = s.text := rfl

@[simp]
theorem text_goBack (count : Nat) (s : Scanner) : (s.goBack count).text = s.text := rfl

/-- What is ahead after an accepted token is what followed it. -/
theorem ahead_accept {s : Scanner} {gap token rest : List Char}
    (hahead : s.ahead = some (gap ++ token ++ rest)) :
    (s.accept gap.length token.length).ahead = some rest := by
  simp [accept, forward, hahead, List.drop_append]

/-- The cursor behind a token is so many bytes behind its start as the token has. -/
theorem offset_accept (gap size : Nat) (s : Scanner) :
    (s.accept gap size).token.start + (s.accept gap size).token.length =
      (s.accept gap size).offset := by
  simp only [accept, forward, Token.length]
  rw [List.take_add, Text.byteLength_append, Nat.add_assoc]

/-- The token of an accepted match is the matched piece. -/
theorem token_accept {s : Scanner} {gap token rest : List Char}
    (hahead : s.ahead = some (gap ++ token ++ rest)) :
    (s.accept gap.length token.length).token =
      ⟨s.offset + Text.byteLength gap, token⟩ := by
  simp [accept, hahead, List.append_assoc]

/-! ## Steps from between two characters -/

section Steps

variable {s : Scanner} {cs : List Char}

theorem read_of_ahead (hahead : s.ahead = some cs) : s.read = .ok cs := by
  rw [read, hahead]

/-- A match depends on the characters ahead. -/
theorem measure_of_ahead {α : Type} (rule : List Char → Option (Nat × α))
    (hahead : s.ahead = some cs) :
    measure rule s = .ok (match rule (Lexical.Trivia.rest cs) with
      | none => (none, s)
      | some (size, meaning) => (some meaning, s.accept (Lexical.Trivia.length cs) size)) := by
  simp only [measure, read_of_ahead hahead, bind, Except.bind]
  cases rule (Lexical.Trivia.rest cs) <;> rfl

/-- To look at the next character leaves the scanner as it is. -/
theorem peek_of_ahead (expected : Char) (hahead : s.ahead = some cs) :
    s.peek expected = .ok ((Lexical.Trivia.rest cs).head? == some expected, s) := by
  simp only [peek, read_of_ahead hahead, bind, Except.bind, pure, Except.pure]

/-- To look for the end leaves the scanner as it is. -/
theorem atEnd_of_ahead (hahead : s.ahead = some cs) :
    s.atEnd = .ok ((Lexical.Trivia.rest cs).isEmpty, s) := by
  simp only [atEnd, read_of_ahead hahead, bind, Except.bind, pure, Except.pure]

end Steps

end Scanner

end DocQuery
