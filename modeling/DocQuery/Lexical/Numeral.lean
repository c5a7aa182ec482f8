/-!
# Numbers

A number is an optional minus sign and digits, then optionally a point with
digits, then optionally an exponent with digits.  A point or an exponent
without digits is not part of the number.
-/

namespace DocQuery.Lexical.Numeral

/-- Whether a number is written with digits alone. -/
inductive Kind where
  /-- Digits alone. -/
  | long
  /-- Digits with a fraction or an exponent. -/
  | double
  deriving DecidableEq, Repr

/-- The number of digits at the head of a text. -/
def digits (cs : List Char) : Nat :=
  (cs.takeWhile Char.isDigit).length

/-- The length of a minus sign at the head of a text, or nought. -/
def minus : List Char → Nat
  | '-' :: _ => 1
  | _ => 0

/-- The length of either sign at the head of a text, or nought. -/
def sign : List Char → Nat
  | '-' :: _ => 1
  | '+' :: _ => 1
  | _ => 0

/-- The length of a point and the digits behind it, or nought without digits. -/
def fraction : List Char → Nat
  | '.' :: cs => if digits cs = 0 then 0 else digits cs + 1
  | _ => 0

/-- The length of an exponent, or nought without digits. -/
def exponent : List Char → Nat
  | c :: cs =>
      if c = 'e' ∨ c = 'E' then
        if digits (cs.drop (sign cs)) = 0 then 0
        else sign cs + digits (cs.drop (sign cs)) + 1
      else 0
  | [] => 0

/-- The length and the kind of the number at the head of a text. -/
def size? (cs : List Char) : Option (Nat × Kind) :=
  let whole := minus cs + digits (cs.drop (minus cs))
  let point := fraction (cs.drop whole)
  let power := exponent (cs.drop (whole + point))
  if digits (cs.drop (minus cs)) = 0 then none
  else some (whole + point + power, if point + power = 0 then .long else .double)

end DocQuery.Lexical.Numeral
