import DocQuery.Lexical.Identifier
import DocQuery.Lexical.Trivia
import DocQuery.Text.Caseless

/-!
# Fixed words and punctuation

A phrase is a list of words that a text spells in any case, with trivia between
one word and the next.  A word that ends like a name matches only where a name
would end too, so that `IN` is not found at the head of `Index`.
-/

namespace DocQuery.Lexical.Phrase

open DocQuery.Text

/-- The word ends like a name and the text goes on with that name. -/
def runsOn (word after : List Char) : Bool :=
  word.getLast?.any Identifier.isPart && after.head?.any Identifier.isPart

/-- The text begins with the word, and the word ends there. -/
def wordMatches (word cs : List Char) : Bool :=
  startsWithWord word cs && !runsOn word (cs.drop word.length)

/-- The number of characters of the words behind the first, each after trivia. -/
def tailLength? : List (List Char) → List Char → Option Nat
  | [], _ => some 0
  | word :: words, cs =>
      if Trivia.length cs = 0 then none
      else if wordMatches word (Trivia.rest cs) then
        (tailLength? words ((Trivia.rest cs).drop word.length)).map
          (Trivia.length cs + word.length + ·)
      else none

/-- The number of characters of the phrase at the head of a text; none has no word. -/
def length? : List (List Char) → List Char → Option Nat
  | [], _ => none
  | word :: words, cs =>
      if wordMatches word cs then
        (tailLength? words (cs.drop word.length)).map (word.length + ·)
      else none

end DocQuery.Lexical.Phrase
