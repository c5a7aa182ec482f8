import DocQuery.Text.Blank

/-!
# What stands between tokens

White space and comments separate tokens and mean nothing.  A comment runs from
`--` or `//` to the end of its line, or from `/*` to the next `*/`; a comment of
the second kind that never closes runs to the end of the text.
-/

namespace DocQuery.Lexical.Trivia

open DocQuery.Text

/-- Where a reader of trivia stands: between comments or inside one of them. -/
inductive Place where
  | between | line | block
  deriving DecidableEq

/-- The number of characters of trivia from a place on. -/
def lengthFrom : Place → List Char → Nat
  | _, [] => 0
  | .between, '-' :: '-' :: cs => lengthFrom .line cs + 2
  | .between, '/' :: '/' :: cs => lengthFrom .line cs + 2
  | .between, '/' :: '*' :: cs => lengthFrom .block cs + 2
  | .between, c :: cs => if isBlank c then lengthFrom .between cs + 1 else 0
  | .line, c :: cs =>
      if c = '\n' then lengthFrom .between cs + 1 else lengthFrom .line cs + 1
  | .block, '*' :: '/' :: cs => lengthFrom .between cs + 2
  | .block, _ :: cs => lengthFrom .block cs + 1

/-- The number of characters of trivia at the head of a text. -/
def length (cs : List Char) : Nat :=
  lengthFrom .between cs

/-- The trivia at the head of a text. -/
def skipped (cs : List Char) : List Char :=
  cs.take (length cs)

/-- The text behind its leading trivia. -/
def rest (cs : List Char) : List Char :=
  cs.drop (length cs)

/-- Trivia and the text behind it make up the text. -/
@[simp]
theorem skipped_append_rest (cs : List Char) : skipped cs ++ rest cs = cs :=
  List.take_append_drop _ _

/-- Trivia from a place on is never longer than the text. -/
theorem lengthFrom_le (place : Place) (cs : List Char) :
    lengthFrom place cs ≤ cs.length := by
  fun_induction lengthFrom place cs <;> simp_all

/-- The skipped characters are as many as the measure says. -/
@[simp]
theorem length_skipped (cs : List Char) : (skipped cs).length = length cs := by
  rw [skipped, List.length_take]
  exact Nat.min_eq_left (lengthFrom_le .between cs)

@[simp]
theorem rest_nil : rest [] = [] := rfl

theorem length_blank {c : Char} (cs : List Char) (h : isBlank c = true) :
    length (c :: cs) = length cs + 1 := by
  have hne : ∀ d : Char, isBlank d = false → c ≠ d := by
    rintro d hd rfl
    rw [h] at hd
    cases hd
  rw [length, lengthFrom, if_pos h, length]
  · exact fun _ heq => absurd heq (hne '-' (by decide))
  · exact fun _ heq => absurd heq (hne '/' (by decide))
  · exact fun _ heq => absurd heq (hne '/' (by decide))

theorem rest_blank {c : Char} (cs : List Char) (h : isBlank c = true) :
    rest (c :: cs) = rest cs := by
  rw [rest, length_blank cs h, List.drop_succ_cons, rest]

end DocQuery.Lexical.Trivia
