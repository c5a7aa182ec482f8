import DocQuery.Path

/-!
# Values

A value is a number, a quoted text, one of `true`, `false` and `null`, or a
parameter.  It keeps the token that was written: a quoted text with its quotes,
a parameter without its dollar sign.
-/

namespace DocQuery

/-- What a value is. -/
inductive ValueKind where
  | long | double | string | true | false | null | parameter
  deriving DecidableEq, Repr

namespace ValueKind

/-- Every kind once. -/
def all : List ValueKind :=
  [long, double, string, .true, .false, null, parameter]

/-- The name of the kind. -/
def name : ValueKind → String
  | long => "Long"
  | double => "Double"
  | string => "String"
  | .true => "True"
  | .false => "False"
  | null => "Null"
  | parameter => "Parameter"

/-- The kind with a name. -/
def ofName? (name : String) : Option ValueKind :=
  all.find? fun kind => kind.name == name

end ValueKind

/-- A value: its token, its position, its kind, and whether it has escapes. -/
structure Value where
  token : String
  span : Span
  kind : ValueKind
  escaped : Bool
  deriving DecidableEq, Repr

namespace Value

/-- A value without a position and without escapes. -/
def plain (token : String) (kind : ValueKind) : Value :=
  ⟨token, .zero, kind, false⟩

/-- A whole number. -/
def long (number : Int) : Value :=
  plain (toString number) .long

/-- A number with a fraction or an exponent, as it is written. -/
def double (literal : String) : Value :=
  plain literal .double

/-- A text in single quotes. -/
def string (text : String) : Value :=
  { plain (String.ofList ('\'' :: Text.escape text.toList ++ ['\''])) .string with
    escaped := text.toList.contains '\'' || text.toList.contains '\\' }

/-- A parameter. -/
def parameter (name : String) : Value :=
  plain name .parameter

/-- The token without the quotes of a quoted text. -/
def text (value : Value) : String :=
  if value.kind = .string then
    let cs := value.token.toList
    String.ofList (((Text.unquote? '\'' cs).or (Text.unquote? '\"' cs)).getD cs)
  else value.token

/-- The text of the value with escapes decoded. -/
def unescaped (value : Value) : String :=
  if value.escaped then String.ofList (Text.unescape value.text.toList) else value.text

/-- The values are the same up to position. -/
def same (v w : Value) : Bool :=
  v.token == w.token && v.kind == w.kind && v.escaped == w.escaped

instance : BEq Value := ⟨same⟩

/-- The value as canonical text writes it. -/
def render (value : Value) : String :=
  if value.kind = .parameter then "$" ++ value.token else value.token

end Value

end DocQuery
