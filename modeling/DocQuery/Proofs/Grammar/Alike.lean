import DocQuery.Proofs.Grammar.Written

/-!
# Trivia in front of a part

A part of the grammar is read behind trivia, so what is there does not depend on
the trivia.  Where a part may be absent, what it leaves is the same up to trivia.
-/

namespace DocQuery

open Lexical

namespace Lexical

/-- The texts differ in the trivia in front of them alone. -/
def Alike (cs ds : List Char) : Prop :=
  Trivia.rest cs = Trivia.rest ds

variable {cs ds es : List Char}

namespace Alike

theorem refl (cs : List Char) : Alike cs cs := rfl

theorem trans (h : Alike cs ds) (h' : Alike ds es) : Alike cs es := Eq.trans h h'

end Alike

theorem Takes.alike {α : Type} {rule : Rule α} {token rest : List Char} {a : α}
    (h : Takes rule cs token a rest) (hds : Alike ds cs) : Takes rule ds token a rest :=
  ⟨Eq.trans hds h.split, h.measured⟩

theorem Passes.alike {α : Type} {rule : Rule α} (h : Passes rule cs) (hds : Alike ds cs) :
    Passes rule ds := by
  unfold Passes
  rw [hds]
  exact h

end Lexical

namespace Written

variable {size : Nat} {cs ds rest : List Char}

theorem Mark.alike {c : Char} (h : Mark c cs rest) (hds : Alike ds cs) : Mark c ds rest :=
  Takes.alike h hds

theorem NoMark.alike {c : Char} (h : NoMark c cs) (hds : Alike ds cs) : NoMark c ds :=
  Passes.alike h hds

theorem Word.alike {keyword : Keyword} (h : Word keyword cs rest) (hds : Alike ds cs) :
    Word keyword ds rest := by
  obtain ⟨token, htake⟩ := h
  exact ⟨token, htake.alike hds⟩

theorem NoWord.alike {keyword : Keyword} (h : NoWord keyword cs) (hds : Alike ds cs) :
    NoWord keyword ds :=
  Passes.alike h hds

theorem Value.alike {v : DocQuery.Value} (h : Value size cs v rest) (hds : Alike ds cs) :
    Value size ds v rest := by
  cases h with
  | number htake => exact .number (htake.alike hds)
  | quoted hnumber htake => exact .quoted (hnumber.alike hds) (htake.alike hds)
  | literal hnumber hquoted htake =>
      exact .literal (hnumber.alike hds) (hquoted.alike hds) (htake.alike hds)
  | parameter hnumber hquoted hliteral hmark htake =>
      exact .parameter (hnumber.alike hds) (hquoted.alike hds) (hliteral.alike hds)
        (hmark.alike hds) htake

theorem NoValue.alike (h : NoValue cs) (hds : Alike ds cs) : NoValue ds :=
  ⟨h.number.alike hds, h.quoted.alike hds, h.literal.alike hds, h.dollar.alike hds⟩

theorem Segment.alike {beginning quoted : Bool} {token : List Char} {text : String}
    (h : Segment beginning cs token text quoted rest) (hds : Alike ds cs) :
    Segment beginning ds token text quoted rest := by
  cases h with
  | name htake => exact .name (htake.alike hds)
  | quoted hname htake => exact .quoted (hname.alike hds) (htake.alike hds)

theorem NoSegment.alike {beginning : Bool} (h : NoSegment beginning cs) (hds : Alike ds cs) :
    NoSegment beginning ds :=
  ⟨h.name.alike hds, h.quoted.alike hds⟩

theorem Path.alike {p : DocQuery.Path} (h : Path size cs p rest) (hds : Alike ds cs) :
    Path size ds p rest := by
  cases h with
  | mk hsegment hallowed htail => exact .mk (hsegment.alike hds) hallowed htail

/-- Where no path is, none is behind other trivia, and a reader stands at the same text. -/
theorem NoPath.alike (h : NoPath cs rest) (hds : Alike ds cs) :
    ∃ rest', NoPath ds rest' ∧ Alike rest' rest := by
  cases h with
  | blank hno => exact ⟨ds, .blank (hno.alike hds), hds⟩
  | reserved htake hreserved => exact ⟨_, .reserved (htake.alike hds) hreserved, Alike.refl _⟩
  | broken hsegment hallowed hbroken =>
      exact ⟨ds, .broken (hsegment.alike hds) hallowed hbroken, hds⟩

theorem ValueList.alike {values : List DocQuery.Value} (h : ValueList size cs values rest)
    (hds : Alike ds cs) : ValueList size ds values rest := by
  cases h with
  | empty hopen hclose => exact .empty (hopen.alike hds) hclose
  | values hopen hno hvalue hmore => exact .values (hopen.alike hds) hno hvalue hmore

theorem NotAlone.alike (h : NotAlone size cs rest) (hds : Alike ds cs) :
    ∃ rest', NotAlone size ds rest' ∧ Alike rest' rest := by
  cases h with
  | noPath hno =>
      obtain ⟨rest', hno', hrest⟩ := hno.alike hds
      exact ⟨rest', .noPath hno', hrest⟩
  | goesOn hpath hcomma hclose => exact ⟨ds, .goesOn (hpath.alike hds) hcomma hclose, hds⟩

theorem Operand.alike {o : Syntax.Operand} (h : Operand size cs o rest) (hds : Alike ds cs) :
    Operand size ds o rest := by
  cases h with
  | group hopen hinner hclose => exact .group (hopen.alike hds) hinner hclose
  | truth hno hword => exact .truth (hno.alike hds) (hword.alike hds)
  | test hno hword hpath hoperator htest =>
      exact .test (hno.alike hds) (hword.alike hds) (hpath.alike hds) hoperator htest
  | call hno hword hpath hoperator harguments htrailing =>
      exact .call (hno.alike hds) (hword.alike hds) (hpath.alike hds) hoperator harguments htrailing

theorem Condition.alike {c : Syntax.Condition} (h : Condition size cs c rest)
    (hds : Alike ds cs) : Condition size ds c rest := by
  cases h with
  | chain hfirst hlinks => exact .chain (hfirst.alike hds) hlinks

theorem Argument.alike {a : Syntax.Argument} (h : Argument size cs a rest)
    (hds : Alike ds cs) : Argument size ds a rest := by
  cases h with
  | value hvalue => exact .value (hvalue.alike hds)
  | field hno hpath halone => exact .field (hno.alike hds) (hpath.alike hds) halone
  | condition hno halone hinner =>
      obtain ⟨r, halone', hr⟩ := halone.alike hds
      exact .condition (hno.alike hds) halone' (hinner.alike hr)

end Written

end DocQuery
