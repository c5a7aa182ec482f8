/-!
# JSON

JSON values with whole numbers, the members of an object in their order, and the
indented text of a value.  Inside a string the quote, the backslash and the
control characters are escaped and nothing else is.
-/

namespace DocQuery

/-- A JSON value. -/
inductive Json where
  | null
  | bool (b : Bool)
  | number (n : Int)
  | string (s : String)
  | array (items : List Json)
  | object (members : List (String × Json))
  deriving Inhabited

namespace Json

/-! ## Height -/

mutual

/-- The number of values inside one another. -/
def height : Json → Nat
  | .array items => heightItems items + 1
  | .object members => heightMembers members + 1
  | _ => 1

/-- The greatest height of the items. -/
def heightItems : List Json → Nat
  | [] => 0
  | item :: items => max item.height (heightItems items)

/-- The greatest height of the members. -/
def heightMembers : List (String × Json) → Nat
  | [] => 0
  | (_, item) :: members => max item.height (heightMembers members)

end

/-! ## Text -/

/-- A hexadecimal digit in lower case. -/
def hexDigit (n : Nat) : Char :=
  if n < 10 then Char.ofNat (n + '0'.toNat) else Char.ofNat (n - 10 + 'a'.toNat)

/-- A character as it stands in a string. -/
def escapeChar (c : Char) : List Char :=
  if c = '\"' then ['\\', '\"']
  else if c = '\\' then ['\\', '\\']
  else if c = '\x08' then ['\\', 'b']
  else if c = '\x0c' then ['\\', 'f']
  else if c = '\n' then ['\\', 'n']
  else if c = '\r' then ['\\', 'r']
  else if c = '\t' then ['\\', 't']
  else if c.toNat < 0x20 then
    ['\\', 'u', '0', '0', hexDigit (c.toNat / 16), hexDigit (c.toNat % 16)]
  else [c]

/-- A string with its quotes. -/
def quote (s : String) : String :=
  "\"" ++ String.ofList (s.toList.flatMap escapeChar) ++ "\""

/-- The space in front of a line. -/
def indent (depth : Nat) : String :=
  String.ofList (List.replicate (2 * depth) ' ')

/-- Lines between two brackets, or the brackets alone. -/
def block (depth : Nat) (first last : String) (lines : List String) : String :=
  if lines.isEmpty then first ++ last
  else
    first ++ "\n" ++ ",\n".intercalate (lines.map (indent (depth + 1) ++ ·)) ++ "\n" ++
      indent depth ++ last

mutual

/-- The indented text of a value. -/
def pretty (depth : Nat) : Json → String
  | .null => "null"
  | .bool true => "true"
  | .bool false => "false"
  | .number n => toString n
  | .string s => quote s
  | .array items => block depth "[" "]" (prettyItems (depth + 1) items)
  | .object members => block depth "\x7b" "\x7d" (prettyMembers (depth + 1) members)

/-- The indented texts of items. -/
def prettyItems (depth : Nat) : List Json → List String
  | [] => []
  | item :: items => item.pretty depth :: prettyItems depth items

/-- The indented texts of members with their names. -/
def prettyMembers (depth : Nat) : List (String × Json) → List String
  | [] => []
  | (name, item) :: members =>
      (quote name ++ ": " ++ item.pretty depth) :: prettyMembers depth members

end

/-! ## Encoding of parts -/

/-- A part that may be missing. -/
def ofOption {α : Type} (encode : α → Json) : Option α → Json
  | none => .null
  | some a => encode a

/-- A list of parts. -/
def ofList {α : Type} (encode : α → Json) (items : List α) : Json :=
  .array (items.map encode)

/-- A natural number. -/
def ofNat (n : Nat) : Json := .number n

/-! ## Decoding of parts -/

/-- A truth value. -/
def bool? : Json → Option Bool
  | .bool b => some b
  | _ => none

/-- A string. -/
def string? : Json → Option String
  | .string s => some s
  | _ => none

/-- A natural number of 64 bits. -/
def nat? : Json → Option Nat
  | .number (.ofNat n) => if n < UInt64.size then some n else none
  | _ => none

/-- A list of parts. -/
def list? {α : Type} (decode : Json → Option α) : Json → Option (List α)
  | .array items => items.mapM decode
  | _ => none

/-- A part that has to be there. -/
def required {α : Type} (decode : Json → Option α) (part : Option Json) : Option α :=
  part.bind decode

/-- A part that may be missing or null. -/
def optional {α : Type} (decode : Json → Option α) : Option Json → Option (Option α)
  | none => some none
  | some .null => some none
  | some part => (decode part).map some

/-- The name of an alternative without content. -/
def bareName? : Json → Option String
  | .string name => some name
  | .object [(name, .null)] => some name
  | _ => none

/-- The member of a name, which an object has once or not at all. -/
def member? (members : List (String × Json)) (name : String) : Option (Option Json) :=
  match members.filter (fun member => member.1 == name) with
  | [] => some none
  | [member] => some (some member.2)
  | _ => none

/--
The members of these names in their order.  They may also be written without
names, as an array of exactly as many items.
-/
def parts? (names : List String) : Json → Option (List (Option Json))
  | .object members => names.mapM (member? members)
  | .array items => if items.length = names.length then some (items.map some) else none
  | _ => none

end Json

end DocQuery
