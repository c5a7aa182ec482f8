import DocQuery.Error
import DocQuery.Scanner

/-!
# Reading by the grammar

A reader drives a scanner and counts what the limits bound: the groups and calls
that it is inside of, and the connectives that it has met.  A part of the
grammar that is not there is an answer; only a text that can no longer become a
query is a failure.  The state of a failed reader is kept, with its scanner
behind the token that was refused.
-/

namespace DocQuery.Grammar

/-- Bounds on how complex a query may be. -/
structure Limits where
  /-- Groups and calls inside one another. -/
  maxDepth : Nat := 128
  /-- Connectives in the whole query. -/
  maxConnectives : Nat := 1024
  deriving DecidableEq, Inhabited, Repr

/-- The state of a reader. -/
structure State where
  scanner : Scanner
  /-- The groups and calls that the reader is inside of. -/
  depth : Nat
  /-- The connectives met so far. -/
  connectives : Nat

/-- A reader: a result and a new state, or a failure and the state it left. -/
abbrev Read : Type → Type :=
  EStateM Failure State

/-! ## Steps of the scanner -/

/-- Let the scanner take a step. -/
def scan {α : Type} (step : Scan α) : Read α := fun state =>
  match step state.scanner with
  | .ok (result, scanner) => .ok result { state with scanner := scanner }
  | .error fault => .error (.fault fault) state

/-- The position of the cursor. -/
def position : Read Nat := do
  return (← get).scanner.offset

/-- The token that was matched last. -/
def token : Read Token := do
  return (← get).scanner.token

/-- Put the cursor back to a position. -/
def returnTo (place : Nat) : Read Unit :=
  modify fun state => { state with scanner := state.scanner.moveTo place }

/-- Put the cursor before the token that was just matched. -/
def unread : Read Unit :=
  modify fun state =>
    { state with scanner := state.scanner.goBack state.scanner.token.length }

/-! ## Failures -/

/-- Refuse the text at its next token, where something else was expected. -/
def refuse {α : Type} (expected : Expectation) : Read α := do
  let cursor ← position
  let found ← scan Scanner.next
  let scanner := (← get).scanner
  throw (.rejected (.outsideGrammar
    { expected := expected
      cursor := cursor
      location := scanner.locationAt scanner.token.start
      found := if found then some scanner.token.text else none
      query := scanner.text }))

/-- Refuse the text at the cursor. -/
def decline {α : Type} (cause : Refusal) : Read α := do
  throw (.rejected (.refused cause (← get).scanner.location))

/-- Take a character that has to come next. -/
def expectChar (c : Char) (expected : Expectation) : Read Unit := do
  if ← scan (Scanner.char c) then return else refuse expected

/-- Take a keyword that has to come next. -/
def expectKeyword (keyword : Keyword) (expected : Expectation) : Read Unit := do
  if ← scan (Scanner.keyword keyword) then return else refuse expected

/-- Refuse the text unless the part is there. -/
def require {α : Type} (expected : Expectation) (part : Read (Option α)) : Read α := do
  match ← part with
  | some a => return a
  | none => refuse expected

/-! ## Limits -/

/-- Go into a group or a call. -/
def enter (limits : Limits) : Read Unit := do
  modify fun state => { state with depth := state.depth + 1 }
  if limits.maxDepth < (← get).depth then decline (.tooDeep limits.maxDepth)

/-- Come out of a group or a call. -/
def leave : Read Unit := do
  match (← get).depth with
  | 0 => throw (.fault .depthBelowZero)
  | depth + 1 => modify fun state => { state with depth := depth }

/-- Count one more connective. -/
def countConnective (limits : Limits) : Read Unit := do
  modify fun state => { state with connectives := state.connectives + 1 }
  if limits.maxConnectives < (← get).connectives then
    decline (.tooManyConnectives limits.maxConnectives)

/-! ## Shapes -/

/-- Items with commas between them, each read with what fuel is left. -/
def commaSeparated {α : Type} (item : Nat → Read α) : Nat → Read (List α)
  | 0 => throw .outOfFuel
  | fuel + 1 => do
      let first ← item fuel
      if ← scan (Scanner.char ',') then
        return first :: (← commaSeparated item fuel)
      else return [first]

/-- A clause that its keyword opens, if the keyword is there. -/
def optional {α : Type} (keyword : Keyword) (clause : Read α) : Read (Option α) := do
  if ← scan (Scanner.keyword keyword) then return some (← clause) else return none

end DocQuery.Grammar
