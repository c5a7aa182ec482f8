import DocQuery.Proofs.Lexical.Gap
import DocQuery.Proofs.Lexical.Rule

/-!
# The grammar of scripts

A script is an opening brace, items and a closing brace.  An item is another
script, a quoted text, a comment, or any other character but a brace or a quote.
The reader of scripts counts the braces that are open and knows no grammar, but
what it measures is a script, and every script is measured whatever follows it.
The main statement is `Rule.block_eq_some_iff`.
-/

namespace DocQuery.Lexical

namespace Block

/-! ## Scripts -/

/-- What can stand between two such quotes in a script. -/
inductive QuotedBody (quote : Char) : List Char → Prop where
  | nil : QuotedBody quote []
  | plain {c : Char} {cs : List Char} :
      c ≠ quote → c ≠ '\\' → QuotedBody quote cs → QuotedBody quote (c :: cs)
  | slashed {c : Char} {cs : List Char} : QuotedBody quote cs → QuotedBody quote ('\\' :: c :: cs)

/-- A comment starts with the character when these others follow it. -/
def StartsComment (c : Char) (cs : List Char) : Prop :=
  c = '/' ∧ (cs.head? = some '/' ∨ cs.head? = some '*')

/--
What can stand between the braces of a script.  The closing brace is next behind
the last item, so whether a comment starts is seen from the items alone.
-/
inductive Items : List Char → Prop where
  | nil : Items []
  | script {inner items : List Char} : Items inner → Items items →
      Items ('{' :: (inner ++ '}' :: items))
  | quoted {quote : Char} {body items : List Char} : isQuote quote = true →
      QuotedBody quote body → Items items → Items (quote :: (body ++ quote :: items))
  | line {body items : List Char} : '\n' ∉ body → Items items →
      Items ('/' :: '/' :: (body ++ '\n' :: items))
  | comment {body items : List Char} : ¬ ['*', '/'] <:+: body → Items items →
      Items ('/' :: '*' :: (body ++ '*' :: '/' :: items))
  | other {c : Char} {items : List Char} : c ≠ '{' → c ≠ '}' → isQuote c = false →
      ¬StartsComment c items → Items items → Items (c :: items)

/-- A brace, items and a brace. -/
inductive IsScript : List Char → Prop where
  | mk {items : List Char} : Items items → IsScript ('{' :: (items ++ ['}']))

/-! ## Every script is measured -/

theorem StartsComment.of_append {c : Char} {cs ds : List Char} (h : StartsComment c cs) :
    StartsComment c (cs ++ ds) := by
  obtain ⟨hc, hnext⟩ := h
  refine ⟨hc, hnext.imp ?_ ?_⟩ <;> exact fun hhead => by rw [List.head?_append, hhead]; rfl

/-- A closing brace starts no comment with the character in front of it. -/
theorem startsComment_close {c : Char} {items rest : List Char} :
    StartsComment c (items ++ '}' :: rest) ↔ StartsComment c items := by
  refine ⟨?_, .of_append⟩
  cases items with
  | nil => rintro ⟨-, hnext | hnext⟩ <;> cases hnext
  | cons d items => exact id

theorem ne_of_isQuote {c d : Char} (h : isQuote c = true) (hd : isQuote d = false) : c ≠ d := by
  rintro rfl
  rw [hd] at h
  cases h

/-- A character of a script that is no brace and starts no comment. -/
theorem lengthFrom?_code {nested : Nat} {c : Char} {cs : List Char} (hopen : c ≠ '{')
    (hclose : c ≠ '}') (hcomment : ¬StartsComment c cs) :
    lengthFrom? .code nested (c :: cs) =
      if isQuote c then (lengthFrom? (.quoted c) nested cs).map (· + 1)
      else (lengthFrom? .code nested cs).map (· + 1) := by
  rw [lengthFrom?]
  · exact hopen
  · rintro more hc rfl
    exact hcomment ⟨hc, Or.inl rfl⟩
  · rintro more hc rfl
    exact hcomment ⟨hc, Or.inr rfl⟩
  · exact fun _ => hclose
  · exact fun _ _ => hclose

section Measured

variable {body : List Char} (nested : Nat) (rest : List Char)

theorem QuotedBody.lengthFrom?_eq {quote : Char} (h : QuotedBody quote body)
    (hslash : quote ≠ '\\') : lengthFrom? (.quoted quote) nested (body ++ quote :: rest) =
      (lengthFrom? .code nested rest).map (· + (body.length + 1)) := by
  induction h with
  | nil => rw [List.nil_append, lengthFrom?_quoted nested rest hslash, if_pos rfl]; rfl
  | plain hquote hc _ ih =>
      rw [List.cons_append, lengthFrom?_quoted _ _ hc, if_neg hquote, ih, Option.map_map]
      rfl
  | slashed _ ih =>
      rw [List.cons_append, List.cons_append, lengthFrom?, ih, Option.map_map]
      rfl

theorem lengthFrom?_line (h : '\n' ∉ body) : lengthFrom? .line nested (body ++ '\n' :: rest) =
    (lengthFrom? .code nested rest).map (· + (body.length + 1)) := by
  induction body with
  | nil => rw [List.nil_append, lengthFrom?, if_pos rfl]; rfl
  | cons c body ih =>
      rw [List.mem_cons, not_or] at h
      rw [List.cons_append, lengthFrom?, if_neg (Ne.symm h.1), ih h.2, Option.map_map]
      rfl

theorem lengthFrom?_comment (h : ¬ ['*', '/'] <:+: body) :
    lengthFrom? .comment nested (body ++ '*' :: '/' :: rest) =
      (lengthFrom? .code nested rest).map (· + (body.length + 2)) := by
  induction body with
  | nil => rw [List.nil_append, lengthFrom?]; rfl
  | cons c body ih =>
      rw [List.cons_append, lengthFrom?,
        ih fun hclose => h (hclose.trans (List.suffix_cons c body).isInfix), Option.map_map]
      · rfl
      · exact Trivia.not_close_of_clear h (by simp)

end Measured

/-- What two steps of the reader go over counts together. -/
theorem map_add_add {measured : Option Nat} {m n k : Nat} (h : m + n = k) :
    (measured.map (· + m)).map (· + n) = measured.map (· + k) := by
  rw [Option.map_map]
  congr 1
  funext length
  simp only [Function.comp_apply]
  omega

/-- Items leave the reader where it was, in front of the brace that closes them. -/
theorem Items.lengthFrom?_eq {items : List Char} (h : Items items) (nested : Nat)
    (rest : List Char) : lengthFrom? .code nested (items ++ '}' :: rest) =
      (lengthFrom? .code nested ('}' :: rest)).map (· + items.length) := by
  induction h generalizing nested rest with
  | nil => simp
  | script _ _ ihinner ih =>
      rw [List.cons_append, List.append_assoc, List.cons_append, lengthFrom?, ihinner, lengthFrom?,
        ih, map_add_add rfl, map_add_add rfl, map_add_add]
      simp only [List.length_cons, List.length_append]
      omega
  | @quoted quote body items hquote hbody _ ih =>
      rw [List.cons_append, List.append_assoc, List.cons_append,
        lengthFrom?_code (ne_of_isQuote hquote rfl) (ne_of_isQuote hquote rfl)
          fun h => ne_of_isQuote hquote rfl h.1,
        if_pos hquote, hbody.lengthFrom?_eq _ _ (ne_of_isQuote hquote rfl), ih, map_add_add rfl,
        map_add_add]
      simp only [List.length_cons, List.length_append]
      omega
  | line hbody _ ih =>
      rw [List.cons_append, List.cons_append, List.append_assoc, List.cons_append, lengthFrom?,
        lengthFrom?_line _ _ hbody, ih, map_add_add rfl, map_add_add]
      simp only [List.length_cons, List.length_append]
      omega
  | comment hbody _ ih =>
      rw [List.cons_append, List.cons_append, List.append_assoc, List.cons_append, List.cons_append,
        lengthFrom?, lengthFrom?_comment _ _ hbody, ih, map_add_add rfl, map_add_add]
      simp only [List.length_cons, List.length_append]
      omega
  | other hopen hclose hquote hcomment _ ih =>
      rw [List.cons_append, lengthFrom?_code hopen hclose (mt startsComment_close.mp hcomment),
        if_neg (by simp [hquote]), ih, map_add_add rfl]
      rfl

/-- A script is measured up to its last brace, whatever follows it. -/
theorem IsScript.length?_eq {script : List Char} (h : IsScript script) (rest : List Char) :
    length? (script ++ rest) = some script.length := by
  obtain ⟨hitems⟩ := h
  rw [List.cons_append, List.append_assoc, List.singleton_append, length?, hitems.lengthFrom?_eq,
    lengthFrom?]
  simp
  omega

/-! ## What is measured is a script -/

/-- Items and a brace for the script that the reader is in and for each one around it. -/
inductive Closes : Nat → List Char → Prop where
  | last {items : List Char} : Items items → Closes 0 (items ++ ['}'])
  | next {nested : Nat} {items rest : List Char} : Items items → Closes nested rest →
      Closes (nested + 1) (items ++ '}' :: rest)

/-- What a reader at a place has to go over up to the brace that closes the script. -/
def Ends : Place → Nat → List Char → Prop
  | .code, nested, cs => Closes nested cs
  | .quoted quote, nested, cs => ∃ body rest, cs = body ++ quote :: rest ∧
      QuotedBody quote body ∧ Closes nested rest
  | .line, nested, cs => ∃ body rest, cs = body ++ '\n' :: rest ∧ '\n' ∉ body ∧ Closes nested rest
  | .comment, nested, cs => ∃ body rest, cs = body ++ '*' :: '/' :: rest ∧
      ¬ ['*', '/'] <:+: body ∧ Closes nested rest

/-- Characters that make one more item in front of any items do so in front of the braces. -/
theorem Closes.front {cs : List Char} {nested : Nat} (h : Closes nested cs) (front : List Char)
    (hfront : ∀ {items rest}, cs = items ++ '}' :: rest → Items items → Items (front ++ items)) :
    Closes nested (front ++ cs) := by
  cases h with
  | last hitems =>
      rw [← List.append_assoc]
      exact .last (hfront rfl hitems)
  | next hitems hrest =>
      rw [← List.append_assoc]
      exact .next (hfront rfl hitems) hrest

namespace Ends

variable {cs : List Char} {nested : Nat}

/-- A script that is closed is one more item. -/
theorem script (h : Ends .code (nested + 1) cs) : Ends .code nested ('{' :: cs) := by
  cases h with
  | @next _ inner rest hinner hrest =>
      have hfront := hrest.front ('{' :: (inner ++ ['}'])) fun _ hitems => by
        simpa using Items.script hinner hitems
      simpa [Ends] using hfront

theorem quoted {quote : Char} (hquote : isQuote quote = true) (h : Ends (.quoted quote) nested cs) :
    Ends .code nested (quote :: cs) := by
  obtain ⟨body, rest, rfl, hbody, hrest⟩ := h
  have hfront := hrest.front (quote :: (body ++ [quote])) fun _ hitems => by
    simpa using Items.quoted hquote hbody hitems
  simpa [Ends] using hfront

theorem line (h : Ends .line nested cs) : Ends .code nested ('/' :: '/' :: cs) := by
  obtain ⟨body, rest, rfl, hbody, hrest⟩ := h
  have hfront := hrest.front ('/' :: '/' :: (body ++ ['\n'])) fun _ hitems => by
    simpa using Items.line hbody hitems
  simpa [Ends] using hfront

theorem comment (h : Ends .comment nested cs) : Ends .code nested ('/' :: '*' :: cs) := by
  obtain ⟨body, rest, rfl, hbody, hrest⟩ := h
  have hfront := hrest.front ('/' :: '*' :: (body ++ ['*', '/'])) fun _ hitems => by
    simpa using Items.comment hbody hitems
  simpa [Ends] using hfront

theorem other {c : Char} (hopen : c ≠ '{') (hclose : c ≠ '}') (hquote : isQuote c = false)
    (hcomment : ¬StartsComment c cs) (h : Ends .code nested cs) : Ends .code nested (c :: cs) := by
  refine Closes.front h [c] ?_
  rintro items rest rfl hitems
  exact .other hopen hclose hquote (mt startsComment_close.mpr hcomment) hitems

end Ends

/-- The text begins with what a reader at the place has to go over, which is so long. -/
def Begins (place : Place) (nested : Nat) (cs : List Char) (n : Nat) : Prop :=
  ∃ piece rest, cs = piece ++ rest ∧ n = piece.length ∧ Ends place nested piece

/-- One step of the reader, over the front of what it has to go over. -/
theorem begins_step (front : List Char) {place place' : Place} {nested nested' : Nat}
    {cs : List Char} {n : Nat}
    (h : (lengthFrom? place' nested' cs).map (· + front.length) = some n)
    (ih : ∀ {m}, lengthFrom? place' nested' cs = some m → Begins place' nested' cs m)
    (hstep : ∀ {piece rest}, cs = piece ++ rest → Ends place' nested' piece →
      Ends place nested (front ++ piece)) : Begins place nested (front ++ cs) n := by
  obtain ⟨m, hm, rfl⟩ := Option.map_eq_some_iff.mp h
  obtain ⟨piece, rest, rfl, rfl, hends⟩ := ih hm
  refine ⟨front ++ piece, rest, (List.append_assoc _ _ _).symm, ?_, hstep rfl hends⟩
  rw [List.length_append]
  omega

/-- What is measured from a place on is what a reader there has to go over. -/
theorem begins_of_lengthFrom? {place : Place} {nested : Nat} {cs : List Char} {n : Nat}
    (h : lengthFrom? place nested cs = some n) : Begins place nested cs n := by
  fun_induction lengthFrom? place nested cs generalizing n with
  | case1 => cases h
  | case2 nested cs ih => exact begins_step ['{'] h ih fun _ => Ends.script
  | case3 =>
      cases h
      exact ⟨['}'], _, rfl, rfl, .last .nil⟩
  | case4 nested cs ih => exact begins_step ['}'] h ih fun _ => .next .nil
  | case5 nested cs ih => exact begins_step ['/', '/'] h ih fun _ => Ends.line
  | case6 nested cs ih => exact begins_step ['/', '*'] h ih fun _ => Ends.comment
  | case7 nested c cs _ _ _ _ _ hquote ih => exact begins_step [c] h ih fun _ => Ends.quoted hquote
  | case8 nested c cs hopen hlast hclose hline hcomment hquote ih =>
      have hbrace : c ≠ '}' := by
        intro hc
        cases nested with
        | zero => exact hlast rfl hc
        | succ nested => exact hclose nested rfl hc
      refine begins_step [c] h ih fun hcs hends =>
        hends.other hopen hbrace (by simpa using hquote) fun hstarts => ?_
      obtain ⟨hc, hnext⟩ := hcs ▸ hstarts.of_append
      simp only [List.head?_eq_some_iff] at hnext
      obtain ⟨more, hmore⟩ | ⟨more, hmore⟩ := hnext
      · exact hline more hc hmore
      · exact hcomment more hc hmore
  | case9 => cases h
  | case10 quote nested c cs ih =>
      refine begins_step ['\\', c] h ih ?_
      rintro _ _ - ⟨body, rest, rfl, hbody, hrest⟩
      exact ⟨_, rest, rfl, hbody.slashed, hrest⟩
  | case11 nested c cs _ _ ih => exact begins_step [c] h ih fun _ hends => ⟨[], _, rfl, .nil, hends⟩
  | case12 quote nested c cs hlast hslash hc ih =>
      refine begins_step [c] h ih ?_
      rintro _ _ - ⟨body, rest, rfl, hbody, hrest⟩
      refine ⟨_, rest, rfl, hbody.plain hc fun hc => ?_, hrest⟩
      cases cs with
      | nil => exact hlast hc rfl
      | cons d cs => exact hslash d cs hc rfl
  | case13 nested cs ih => exact begins_step ['\n'] h ih fun _ hends => ⟨[], _, rfl, by simp, hends⟩
  | case14 nested c cs hc ih =>
      refine begins_step [c] h ih ?_
      rintro _ _ - ⟨body, rest, rfl, hbody, hrest⟩
      exact ⟨c :: body, rest, rfl, by simpa [Ne.symm hc] using hbody, hrest⟩
  | case15 nested cs ih =>
      exact begins_step ['*', '/'] h ih fun _ hends => ⟨[], _, rfl, by simp, hends⟩
  | case16 nested c cs hclose ih =>
      refine begins_step [c] h ih ?_
      rintro _ after hcs ⟨body, rest, rfl, hbody, hrest⟩
      have hstop : ¬ ['*', '/'] <+: c :: (body ++ ('*' :: '/' :: rest ++ after)) := by
        rw [← List.append_assoc, ← hcs]
        rintro ⟨more, hmore⟩
        obtain ⟨rfl, rfl⟩ := List.cons.inj hmore
        exact hclose more rfl rfl
      exact ⟨c :: body, rest, rfl, Trivia.not_infix_cons hstop hbody, hrest⟩

/-- What is measured at the head of a text is a script. -/
theorem isScript_of_length? {script rest : List Char}
    (h : length? (script ++ rest) = some script.length) : IsScript script := by
  rw [length?.eq_def] at h
  split at h
  · next cs hcs =>
      obtain ⟨n, hn, hlength⟩ := Option.map_eq_some_iff.mp h
      obtain ⟨piece, after, rfl, rfl, hends⟩ := begins_of_lengthFrom? hn
      rw [← List.cons_append] at hcs
      obtain ⟨rfl, -⟩ := List.append_inj hcs hlength.symm
      cases hends with
      | last hitems => exact .mk hitems
  · cases h

/-- A script is measured alike in front of every rest, and starts with a brace. -/
theorem length?_append {script rest : List Char}
    (h : length? (script ++ rest) = some script.length) :
    (∃ body, script = '{' :: body) ∧
      ∀ other, length? (script ++ other) = some script.length := by
  have hscript := isScript_of_length? h
  refine ⟨?_, hscript.length?_eq⟩
  obtain ⟨-⟩ := hscript
  exact ⟨_, rfl⟩

end Block

/-- A script block is measured exactly if it is a script, whatever follows it. -/
theorem Rule.block_eq_some_iff {script rest : List Char} :
    block (script ++ rest) = some (script.length, ()) ↔ Block.IsScript script := by
  rw [block, ofLength_eq_some]
  exact ⟨Block.isScript_of_length?, fun h => h.length?_eq rest⟩

end DocQuery.Lexical
