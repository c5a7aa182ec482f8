import DocQuery.Grammar.Reader
import DocQuery.Value

/-!
# Paths and values

The smallest parts of the grammar.  Each of them may be absent, and then the
cursor is where it was but for trivia.
-/

namespace DocQuery.Grammar

/-! ## Values -/

/-- The last token as a value. -/
def tokenValue (kind : ValueKind) (escaped : Bool) : Read Value := do
  let token ← token
  return ⟨token.text, token.span, kind, escaped⟩

/-- The kind of value that a keyword is. -/
def literalKind : Keyword → ValueKind
  | .true_ => .true
  | .false_ => .false
  | _ => .null

/-- The kind of value that a number is. -/
def numberKind : Lexical.Numeral.Kind → ValueKind
  | .long => .long
  | .double => .double

/-- The name of a parameter, directly behind its dollar sign. -/
def parameter : Read Value := do
  let start ← position
  let named ← scan (Scanner.identifier false)
  if named && (← token).start == start then tokenValue .parameter false
  else refuse .parameterName

/-- A number, a quoted text, a literal keyword or a parameter. -/
def value : Read (Option Value) := do
  match ← scan Scanner.number with
  | some kind => return some (← tokenValue (numberKind kind) false)
  | none =>
    if ← scan Scanner.quoted then
      return some (← tokenValue .string ((← get).scanner.escapes != 0))
    else
      match ← scan (Scanner.anyKeyword Keyword.literals) with
      | some keyword =>
        return some ⟨keyword.text, (← token).span, literalKind keyword, false⟩
      | none =>
        if ← scan (Scanner.char '$') then return some (← parameter) else return none

/-! ## Paths -/

/-- A name or a quoted text, and whether it is the latter. -/
def segment (beginning : Bool) : Read (Option (String × Bool)) := do
  if ← scan (Scanner.identifier beginning) then return some ((← token).text, false)
  else if ← scan Scanner.quoted then
    let scanner := (← get).scanner
    match scanner.content with
    | .ok text => return some (text, true)
    | .error fault => throw (.fault fault)
  else return none

/-- The whole number inside brackets, which may be left out. -/
def indexNumber : Read String := do
  match ← scan Scanner.number with
  | some .double => refuse .wholeIndex
  | some .long =>
    let token ← token
    if token.chars.head? = some '-' then refuse .positiveIndex else return token.text
  | none => return ""

/-- An index in brackets behind a segment, or nothing. -/
def index : Read String := do
  if ← scan (Scanner.char '[') then
    let number ← indexNumber
    expectChar ']' .indexEnd
    return "[" ++ number ++ "]"
  else return ""

/-- What follows the first segment of a path: indexes and further segments. -/
def pathTail : Nat → Read (Option (String × Bool))
  | 0 => throw .outOfFuel
  | fuel + 1 => do
      let bracket ← index
      if ← scan (Scanner.char '.') then
        match ← segment false with
        | none => return none
        | some (text, quoted) =>
          match ← pathTail fuel with
          | none => return none
          | some (more, moreQuoted) =>
            return some (bracket ++ "." ++ text ++ more, quoted || moreQuoted)
      else return some (bracket, false)

/--
A path such as `a.'b c'[2].d`.  A reserved keyword without quotes does not start
a path, and the cursor is left on it.
-/
def path (fuel : Nat) : Read (Option Path) := do
  let origin ← position
  match ← segment true with
  | none =>
    returnTo origin
    return none
  | some (text, quoted) =>
    let first ← token
    if !quoted && first.isOneOf Keyword.reserved then
      unread
      return none
    else
      match ← pathTail fuel with
      | none =>
        returnTo origin
        return none
      | some (more, moreQuoted) =>
        return some ⟨text ++ more, Span.between first.start (← position), quoted || moreQuoted⟩

end DocQuery.Grammar
