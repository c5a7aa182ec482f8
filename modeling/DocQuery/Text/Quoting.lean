/-!
# Quotes and escapes

What stands between quotes is kept character for character as it was written.
Reading it takes the backslashes away and makes one of two equal quotes; writing
it chooses a quote, or doubles the backslashes and single quotes of a plain text.
-/

namespace DocQuery.Text

/-- Take backslashes away and make one of two equal quotes. -/
def unescape : List Char → List Char
  | [] => []
  | ['\\'] => []
  | '\\' :: c :: cs => c :: unescape cs
  | [c] => [c]
  | c :: d :: cs =>
      if (c = '\'' ∨ c = '\"') ∧ d = c then c :: unescape cs else c :: unescape (d :: cs)

/-- Write a plain text so that it can stand in single quotes. -/
def escape : List Char → List Char
  | [] => []
  | '\\' :: cs => '\\' :: '\\' :: escape cs
  | '\'' :: cs => '\'' :: '\'' :: escape cs
  | c :: cs => c :: escape cs

/-- The quote for a text: a double quote only if the text has single quotes alone. -/
def quoteFor (cs : List Char) : Char :=
  if cs.contains '\'' && !cs.contains '\"' then '\"' else '\''

/-- The text in quotes. -/
def inQuotes (text : String) : String :=
  let quote := String.singleton (quoteFor text.toList)
  quote ++ text ++ quote

/-- The characters between two such quotes at the ends of a text. -/
def unquote? (quote : Char) : List Char → Option (List Char)
  | [] => none
  | c :: cs => if c = quote ∧ cs.getLast? = some quote then some cs.dropLast else none

@[simp]
theorem toList_inQuotes (text : String) :
    (inQuotes text).toList = quoteFor text.toList :: text.toList ++ [quoteFor text.toList] := by
  simp [inQuotes]

/-- Quotes that were put on are taken off. -/
@[simp]
theorem unquote?_quoted (quote : Char) (cs : List Char) :
    unquote? quote (quote :: (cs ++ [quote])) = some cs := by
  simp [unquote?]

/-- A text with nothing to escape is written as it is. -/
theorem escape_eq_self {cs : List Char} (hquote : '\'' ∉ cs) (hslash : '\\' ∉ cs) :
    escape cs = cs := by
  induction cs with
  | nil => rfl
  | cons c cs ih =>
      simp only [List.mem_cons, not_or] at hquote hslash
      rw [escape]
      · rw [ih hquote.2 hslash.2]
      · exact fun heq => hslash.1 heq.symm
      · exact fun heq => hquote.1 heq.symm

end DocQuery.Text
