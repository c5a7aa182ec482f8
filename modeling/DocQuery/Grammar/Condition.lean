import DocQuery.Chain
import DocQuery.Grammar.Terminal

/-!
# Conditions and calls

Conditions are tests on a field, calls, and chains and groups of these.  The
readers that nest call each other with less fuel each time, and so do the
readers of lists for each further item.
-/

namespace DocQuery.Grammar

/-! ## Tests on one subject -/

/-- A test that an operator opens. -/
inductive Test where
  | compare (comparison : Comparison)
  | between
  | within (all : Bool)
  deriving DecidableEq, Repr

/-- The operators of tests; of two that fit, the longer comes first. -/
def tests : List (String × Test) :=
  [(">=", .compare .greaterEqual),
   ("<=", .compare .lessEqual),
   ("<>", .compare .notEqual),
   ("<", .compare .less),
   (">", .compare .greater),
   ("==", .compare .equal),
   ("=", .compare .equal),
   ("!=", .compare .notEqual),
   ("BETWEEN", .between),
   ("IN", .within false),
   ("ALL IN", .within true)]

/-- What may follow a field: the operator of a test, or the start of a call. -/
def operators : List (String × Option Test) :=
  tests.map (fun entry => (entry.1, some entry.2)) ++ [("(", none)]

/-- The bounds of a range test. -/
def bounds (subject : Path) : Read Expr := do
  let low ← require .lowBound value
  expectKeyword .and .boundsAnd
  let high ← require .highBound value
  if low.kind = high.kind then return .between subject low high
  else decline (.mixedBounds low.kind high.kind)

/-- The further values of a list up to its closing parenthesis, all of one kind. -/
def moreValues (kind : ValueKind) : Nat → Read (List Value)
  | 0 => throw .outOfFuel
  | fuel + 1 => do
      if ← scan (Scanner.char ')') then return []
      else
        expectChar ',' .listComma
        let next ← require .listValue value
        if next.kind = kind then return next :: (← moreValues kind fuel)
        else decline (.mixedList kind next.kind)

/-- The values of a list with its parentheses. -/
def valueList (fuel : Nat) : Read (List Value) := do
  expectChar '(' .listStart
  if ← scan (Scanner.char ')') then return []
  else
    let first ← require .listValue value
    return first :: (← moreValues first.kind fuel)

/-- What follows the operator of a test. -/
def test (subject : Path) (fuel : Nat) : Test → Read Expr
  | .compare comparison => do
      let right ← require (.comparedValue comparison) value
      return .compare (.field subject) comparison right
  | .between => bounds subject
  | .within all => return .within subject (← valueList fuel) all

/-- A test behind a call, on a subject that is left out. -/
def trailingTest (fuel : Nat) : Read (Option Expr) := do
  let place ← position
  match ← scan (Scanner.firstOf tests) with
  | none => return none
  | some found => return some (← test (.implicit ⟨place, 0⟩) fuel found)

/-! ## Conditions -/

/-- The connective for a keyword, with or without NOT behind it. -/
def connectiveOf (keyword : Keyword) (negated : Bool) : Connective :=
  if keyword = .or then
    if negated then .orNot else .or
  else
    if negated then .andNot else .and

mutual

/-- A chain of conditions. -/
def condition (limits : Limits) : Nat → Read (Option Expr)
  | 0 => throw .outOfFuel
  | fuel + 1 => do
      match ← operand limits fuel with
      | none => return none
      | some first => return some (Chain.fold ⟨first, ← links limits fuel⟩)

/-- The links of a chain behind its first condition. -/
def links (limits : Limits) : Nat → Read (List Link)
  | 0 => throw .outOfFuel
  | fuel + 1 => do
      match ← scan (Scanner.anyKeyword Keyword.connectives) with
      | none => return []
      | some keyword =>
        countConnective limits
        let negated ← scan (Scanner.keyword .not)
        let connective := connectiveOf keyword negated
        let grouped ← scan (Scanner.peek '(')
        let next ← require (.secondCondition connective) (operand limits fuel)
        return ⟨connective, next, grouped⟩ :: (← links limits fuel)

/-- A group in parentheses or a single condition. -/
def operand (limits : Limits) : Nat → Read (Option Expr)
  | 0 => throw .outOfFuel
  | fuel + 1 => do
      if ← scan (Scanner.char '(') then
        enter limits
        match ← condition limits fuel with
        | none => return none
        | some inner =>
          expectChar ')' .groupEnd
          leave
          return some inner
      else predicate limits fuel

/-- The condition `true`, a test on a field, or a call with or without a test behind it. -/
def predicate (limits : Limits) : Nat → Read (Option Expr)
  | 0 => throw .outOfFuel
  | fuel + 1 => do
      if ← scan (Scanner.keyword .true_) then return some .truth
      else
        match ← path fuel with
        | none => return none
        | some subject =>
          match ← scan (Scanner.firstOf operators) with
          | none => refuse .operator
          | some (some found) => return some (← test subject fuel found)
          | some none =>
            enter limits
            let arguments ← arguments limits true fuel
            match ← trailingTest fuel with
            | none => return some (.call subject arguments)
            | some trailing => return some (.call subject (arguments ++ [trailing]))

/-- The arguments of a call up to its closing parenthesis. -/
def arguments (limits : Limits) (first : Bool) : Nat → Read (List Expr)
  | 0 => throw .outOfFuel
  | fuel + 1 => do
      if ← scan (Scanner.char ')') then
        leave
        return []
      else
        if first then pure () else expectChar ',' .argumentComma
        let next ← argument limits fuel
        return next :: (← arguments limits false fuel)

/--
An argument of a call: a value, a field that a comma or the closing parenthesis
follows, or else a condition.
-/
def argument (limits : Limits) : Nat → Read Expr
  | 0 => throw .outOfFuel
  | fuel + 1 => do
      match ← value with
      | some v => return .value v
      | none =>
        let start ← position
        match ← path fuel with
        | none => require .argument (condition limits fuel)
        | some field =>
          if ← scan (Scanner.peek ',') then return .field field
          else if ← scan (Scanner.peek ')') then return .field field
          else
            returnTo start
            require .argument (condition limits fuel)

end

/-- The arguments of a call whose opening parenthesis was taken. -/
def argumentList (limits : Limits) (fuel : Nat) : Read (List Expr) := do
  enter limits
  arguments limits true fuel

end DocQuery.Grammar
