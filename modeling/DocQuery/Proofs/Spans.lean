import DocQuery.Proofs.Grammar.Within
import DocQuery.Proofs.WellFormed

/-!
# Where the parts of a query are written

A path, a value and a script keep the bytes of the text that they were read
from.  Read alone, those bytes give the same path or value again.  A reader goes
on from one end of its text to another, so each part of the grammar is met in
front of characters that the text ends with, and `place` then is a cut of the
text.  The main statement is `Query.located_of_parse`.
-/

namespace DocQuery

open Lexical Grammar

/-! ## Slices -/

/-- The positions at the two ends of a piece of the text are as far apart as it is long. -/
theorem place_append {text : String} {mid rest : List Char} (h : mid ++ rest <:+ text.toList) :
    place (Text.byteLength text.toList) rest =
      place (Text.byteLength text.toList) (mid ++ rest) + Text.byteLength mid := by
  obtain ⟨before, htext⟩ := h
  rw [place, place, ← htext]
  simp only [Text.byteLength_append]
  omega

/-- The span between two ends of a piece of the text cuts out the piece. -/
theorem Span.slice?_between {text : String} {mid rest : List Char}
    (h : mid ++ rest <:+ text.toList) :
    (between (place (Text.byteLength text.toList) (mid ++ rest))
      (place (Text.byteLength text.toList) rest)).slice? text = some (String.ofList mid) := by
  rw [between, place_append h, Nat.add_sub_cancel_left, slice?]
  obtain ⟨before, htext⟩ := h
  rw [place, ← htext, Text.byteLength_append, Nat.add_sub_cancel, Text.slice?,
    Text.dropBytes?_append, Option.bind_some, Text.takeBytes?_append, Option.map_some]

theorem tokenAt_span {text : String} {token rest : List Char}
    (h : token ++ rest <:+ text.toList) :
    (tokenAt (Text.byteLength text.toList) token rest).span =
      Span.between (place (Text.byteLength text.toList) (token ++ rest))
        (place (Text.byteLength text.toList) rest) := by
  rw [Span.between, place_append h, Nat.add_sub_cancel_left]
  rfl

/-- The span of a token cuts the token out of the text. -/
theorem tokenAt_slice? {text : String} {token rest : List Char}
    (h : token ++ rest <:+ text.toList) :
    (tokenAt (Text.byteLength text.toList) token rest).span.slice? text =
      some (String.ofList token) := by
  rw [tokenAt_span h, Span.slice?_between h]

/-- An empty span in front of an end of the text cuts out nothing. -/
theorem Span.slice?_empty {text : String} {cs : List Char} (h : cs <:+ text.toList) :
    (Span.mk (place (Text.byteLength text.toList) cs) 0).slice? text = some "" := by
  have hslice := @Span.slice?_between text [] cs h
  rwa [List.nil_append, between, Nat.sub_self] at hslice

/-! ## Located parts -/

/-- Read a whole text by a part of the grammar, from its beginning to its end. -/
def Grammar.readWhole {α : Type} (part : Nat → Read (Option α)) (text : String) : Option α :=
  match part (Session.fuelFor text) ⟨.ofText text, 0, 0⟩ with
  | .ok found s => if s.scanner.ahead = some [] then found else none
  | .error _ _ => none

theorem Grammar.readWhole_eq_some {α : Type} {part : Nat → Read (Option α)} {text : String}
    {a : α} {s' : State}
    (hread : part (Session.fuelFor text) ⟨.ofText text, 0, 0⟩ = .ok (some a) s')
    (hahead : s'.scanner.ahead = some []) : readWhole part text = some a := by
  rw [readWhole, hread]
  exact if_pos hahead

theorem Grammar.exists_of_readWhole {α : Type} {part : Nat → Read (Option α)} {text : String}
    {a : α} (h : readWhole part text = some a) :
    ∃ s', part (Session.fuelFor text) ⟨.ofText text, 0, 0⟩ = .ok (some a) s' ∧
      s'.scanner.ahead = some [] := by
  unfold readWhole at h
  split at h
  · next found s hread =>
      split at h
      · next hahead => exact ⟨s, by rw [hread, h], hahead⟩
      · cases h
  · cases h

/-- The fuel for a text is enough for the readers that nest in front of its characters. -/
theorem Session.le_fuelFor (text : String) : 4 * text.toList.length + 16 ≤ fuelFor text := by
  have hbytes := Text.length_le_byteLength text.toList
  rw [fuelFor, Text.utf8ByteSize_eq]
  omega

theorem Session.length_le_fuelFor (cs : List Char) : cs.length ≤ fuelFor (String.ofList cs) := by
  have hfuel := le_fuelFor (String.ofList cs)
  rw [String.toList_ofList] at hfuel
  omega

/-- The path is what its bytes are read as, and one that is left out has none. -/
structure Path.IsLocated (text : String) (path : Path) : Prop where
  named : path.isOmitted = false → ∃ slice p, path.span.slice? text = some slice ∧
    readWhole Grammar.path slice = some p ∧ (p == path) = true
  omitted : path.isOmitted = true → path.span.slice? text = some ""

/-- The source name is what its bytes are read as. -/
def Path.IsLocatedName (text : String) (path : Path) : Prop :=
  ∃ slice, path.span.slice? text = some slice ∧
    readWhole (fun _ => segment true) slice = some (path.text, path.quoted)

/-- The kind is that of `true`, `false` or `null`. -/
def ValueKind.isLiteral (kind : ValueKind) : Bool :=
  [.true, .false, .null].contains kind

/-- The bytes of the value are its token, up to case for a literal. -/
structure Value.IsLocated (text : String) (v : Value) : Prop where
  literal : v.kind.isLiteral = true → ∃ slice, v.span.slice? text = some slice ∧
    Text.sameWord v.token.toList slice.toList = true
  token : v.kind.isLiteral = false → v.span.slice? text = some v.token
  /-- A dollar sign is directly in front of a parameter. -/
  parameter : v.kind = .parameter → 0 < v.span.start ∧
    (Span.mk (v.span.start - 1) 1).slice? text = some "$"

/-- The bytes of the script are its text. -/
def Script.IsLocated (text : String) (script : Script) : Prop :=
  script.span.slice? text = some script.text

/-- A leaf of a query: a path or a value. -/
inductive Terminal where
  | path (path : Path)
  | value (v : Value)

/-- The leaf is where its span says. -/
def Terminal.IsLocated (text : String) : Terminal → Prop
  | path p => p.IsLocated text
  | value v => v.IsLocated text

namespace Expr

mutual

/-- The paths and values of an expression. -/
def terminals : Expr → List Terminal
  | .field path => [.path path]
  | .value v => [.value v]
  | .binary _ left right => left.terminals ++ right.terminals
  | .between subject low high => [.path subject, .value low, .value high]
  | .within subject values _ => .path subject :: values.map .value
  | .call name arguments => .path name :: terminalsOf arguments
  | .truth => []

/-- The paths and values of several expressions. -/
def terminalsOf : List Expr → List Terminal
  | [] => []
  | e :: es => e.terminals ++ terminalsOf es

end

/-- All paths and values of the expression are where their spans say. -/
def IsLocated (text : String) (e : Expr) : Prop :=
  ∀ t ∈ e.terminals, t.IsLocated text

theorem terminalsOf_eq_flatMap (es : List Expr) : terminalsOf es = es.flatMap terminals := by
  induction es with
  | nil => rfl
  | cons e es ih => rw [terminalsOf, ih, List.flatMap_cons]

variable {text : String}

theorem isLocated_field {path : Path} (h : path.IsLocated text) :
    (Expr.field path).IsLocated text :=
  List.forall_mem_singleton.mpr h

theorem isLocated_value {v : Value} (h : v.IsLocated text) : (Expr.value v).IsLocated text :=
  List.forall_mem_singleton.mpr h

theorem isLocated_connect {connective : Connective} {left right : Expr}
    (hleft : left.IsLocated text) (hright : right.IsLocated text) :
    (connect connective left right).IsLocated text := by
  intro t hmem
  rcases List.mem_append.mp hmem with hmem | hmem
  · exact hleft t hmem
  · exact hright t hmem

theorem isLocated_call {name : Path} {arguments : List Expr} (hname : name.IsLocated text)
    (h : ∀ e ∈ arguments, e.IsLocated text) : (call name arguments).IsLocated text := by
  intro t hmem
  rw [terminals, terminalsOf_eq_flatMap] at hmem
  rcases List.mem_cons.mp hmem with rfl | hmem
  · exact hname
  · obtain ⟨e, he, hmem⟩ := List.mem_flatMap.mp hmem
    exact h e he t hmem

end Expr

namespace Query

/-- The paths and values of a query, the name of its source apart. -/
def terminals (query : Query) : List Terminal :=
  (query.groupBy.getD []).map .path ++ query.expressions.flatMap Expr.terminals

/-- The scripts of a query, those of its declared functions first. -/
def scripts (query : Query) : List Script :=
  query.functions.entries.map Prod.snd ++ query.selectScript.toList ++ query.updateScript.toList

/-- Every part of the query is where its span says. -/
structure IsLocated (query : Query) : Prop where
  terminals : ∀ t ∈ query.terminals, t.IsLocated query.text
  scripts : ∀ script ∈ query.scripts, script.IsLocated query.text
  source : query.source.name.IsLocatedName query.text

end Query

/-- The entries after an insertion are the one put in and those from before. -/
theorem Functions.mem_insertEntry {name : String} {script : Script}
    {entries : List (String × Script)} {entry : String × Script}
    (h : entry ∈ insertEntry name script entries) : entry = (name, script) ∨ entry ∈ entries := by
  induction entries with
  | nil => exact Or.inl (List.mem_singleton.mp h)
  | cons head entries ih =>
      rw [insertEntry.eq_def] at h
      dsimp only at h
      split at h
      · exact List.mem_cons.mp h
      · split at h
        · exact (List.mem_cons.mp h).imp_right (List.mem_cons_of_mem _)
        · rcases List.mem_cons.mp h with rfl | hmem
          · exact Or.inr List.mem_cons_self
          · exact (ih hmem).imp_right (List.mem_cons_of_mem _)

/-! ## Tokens of the text -/

namespace Lexical

variable {cs token rest ds : List Char}

theorem Trivia.rest_suffix (cs : List Char) : Trivia.rest cs <:+ cs :=
  List.drop_suffix _ _

/-- A token and what is behind it are an end of every text that the part is an end of. -/
theorem Takes.suffix {α : Type} {rule : Rule α} {a : α} (h : Takes rule cs token a rest)
    (hcs : cs <:+ ds) : token ++ rest <:+ ds :=
  (h.split ▸ Trivia.rest_suffix cs).trans hcs

theorem Takes.rest_suffix {α : Type} {rule : Rule α} {a : α} (h : Takes rule cs token a rest)
    (hcs : cs <:+ ds) : rest <:+ ds :=
  (List.suffix_append token rest).trans (h.suffix hcs)

end Lexical

namespace Written

open DocQuery.Expr

variable {text : String} {cs rest : List Char}

theorem Word.suffix {keyword : Keyword} {ds : List Char} (h : Word keyword cs rest)
    (hcs : cs <:+ ds) : rest <:+ ds := by
  obtain ⟨token, htake⟩ := h
  exact htake.rest_suffix hcs

/-- A value is where its token is. -/
theorem Value.located {v : DocQuery.Value}
    (h : Value (Text.byteLength text.toList) cs v rest) (hcs : cs <:+ text.toList) :
    v.IsLocated text ∧ rest <:+ text.toList := by
  cases h with
  | @number token _ kind htake =>
      refine ⟨⟨fun hliteral => ?_, fun _ => tokenAt_slice? (htake.suffix hcs), fun hkind => ?_⟩,
        htake.rest_suffix hcs⟩
      · cases kind <;> cases hliteral
      · cases kind <;> cases hkind
  | quoted _ htake =>
      exact ⟨⟨fun hliteral => (by cases hliteral), fun _ => tokenAt_slice? (htake.suffix hcs),
        fun hkind => by cases hkind⟩, htake.rest_suffix hcs⟩
  | @literal token _ keyword _ _ htake =>
      have hkind : (literalKind keyword).isLiteral = true ∧ literalKind keyword ≠ .parameter := by
        cases keyword <;> exact ⟨rfl, by decide⟩
      have hsame : Text.sameWord keyword.text.toList token = true := by
        obtain ⟨literal, hmem, hlength⟩ := Rule.firstOf_eq_some htake.measured
        obtain ⟨found, hfound, heq⟩ := List.mem_map.mp hmem
        cases heq
        have hsingle : Text.words keyword.text.toList = [keyword.text.toList] := by
          have hall : ∀ keyword ∈ Keyword.literals,
            Text.words keyword.text.toList = [keyword.text.toList] := by decide
          exact hall keyword hfound
        rw [hsingle] at hlength
        exact Phrase.sameWord_of_length? hlength
      refine ⟨⟨fun _ => ⟨_, tokenAt_slice? (htake.suffix hcs), by rwa [String.toList_ofList]⟩,
        fun hliteral => ?_, fun hparameter => absurd hparameter hkind.2⟩, htake.rest_suffix hcs⟩
      rw [hkind.1] at hliteral
      cases hliteral
  | @parameter token _ _ _ _ hmark htake =>
      have hdollar : ['$'] ++ (token ++ rest) <:+ text.toList := Takes.suffix hmark hcs
      have htoken : token ++ rest <:+ text.toList := Takes.rest_suffix hmark hcs
      have hslice := Span.slice?_between hdollar
      have hplace := place_append hdollar
      have hone : Text.byteLength ['$'] = 1 := by decide
      rw [Span.between, hplace, Nat.add_sub_cancel_left, hone] at hslice
      refine ⟨⟨fun hliteral => (by cases hliteral), fun _ => tokenAt_slice? htoken, fun _ => ?_⟩,
        htake.rest_suffix htoken⟩
      simp only [tokenAt, Token.span, hplace, hone, Nat.add_sub_cancel]
      exact ⟨Nat.succ_pos _, hslice⟩

/-- A path is where its own characters are. -/
theorem Path.located {p : DocQuery.Path}
    (h : Path (Text.byteLength text.toList) cs p rest) (hcs : cs <:+ text.toList) :
    p.IsLocated text ∧ rest <:+ text.toList := by
  obtain ⟨mid, hcut, hspan, hagain⟩ := h.within
  have hmid : mid ++ rest <:+ text.toList := (hcut ▸ Trivia.rest_suffix cs).trans hcs
  refine ⟨⟨fun _ => ?_, fun homitted => ?_⟩, (List.suffix_append mid rest).trans hmid⟩
  · obtain ⟨span, hpath⟩ := hagain (Text.byteLength mid)
    have hs := stands_ofText (String.ofList mid)
    rw [String.toList_ofList] at hs
    obtain ⟨s', hread, hmoves⟩ := path_complete _ (Session.length_le_fuelFor mid) hs hpath
    exact ⟨_, _, hspan ▸ Span.slice?_between hmid, readWhole_eq_some hread hmoves.ahead,
      DocQuery.Path.erases.beq_iff.mpr (DocQuery.Path.erase_eq_iff.mpr ⟨rfl, rfl⟩)⟩
  · rw [h.not_omitted] at homitted
    cases homitted

theorem NoPath.suffix {ds : List Char} (h : NoPath cs rest) (hcs : cs <:+ ds) : rest <:+ ds := by
  cases h with
  | blank _ => exact hcs
  | reserved htake _ => exact htake.suffix hcs
  | broken _ _ _ => exact hcs

/-- The name of a source is where its token is. -/
theorem Segment.located {quoted : Bool} {token : List Char} {name : String}
    (h : Segment true cs token name quoted rest) (hcs : cs <:+ text.toList) :
    Path.IsLocatedName text
      ⟨name, (tokenAt (Text.byteLength text.toList) token rest).span, quoted⟩ := by
  obtain ⟨gap, rfl, hagain⟩ := h.within
  have htoken := (List.suffix_append gap (token ++ rest)).trans hcs
  obtain ⟨halike, hsegment⟩ := hagain (StartsAs.nil rest)
  have halone := hsegment.alike halike
  rw [List.append_nil] at halone
  have hs := stands_ofText (String.ofList token)
  rw [String.toList_ofList] at hs
  obtain ⟨s', hread, htook⟩ := segment_complete hs halone
  exact ⟨_, tokenAt_slice? htoken, readWhole_eq_some hread htook.ahead⟩

theorem MoreValues.located {kind : ValueKind} {values : List DocQuery.Value}
    (h : MoreValues (Text.byteLength text.toList) kind cs values rest) (hcs : cs <:+ text.toList) :
    (∀ v ∈ values, v.IsLocated text) ∧ rest <:+ text.toList := by
  induction h with
  | last hclose => exact ⟨fun _ hmem => (by cases hmem), Takes.rest_suffix hclose hcs⟩
  | more _ hcomma hvalue _ _ ih =>
      obtain ⟨hfirst, hr⟩ := hvalue.located (Takes.rest_suffix hcomma hcs)
      obtain ⟨hothers, hrest⟩ := ih hr
      exact ⟨List.forall_mem_cons.mpr ⟨hfirst, hothers⟩, hrest⟩

theorem ValueList.located {values : List DocQuery.Value}
    (h : ValueList (Text.byteLength text.toList) cs values rest) (hcs : cs <:+ text.toList) :
    (∀ v ∈ values, v.IsLocated text) ∧ rest <:+ text.toList := by
  cases h with
  | empty hopen hclose =>
      exact ⟨fun _ hmem => (by cases hmem), Takes.rest_suffix hclose (Takes.rest_suffix hopen hcs)⟩
  | values hopen _ hvalue hmore =>
      obtain ⟨hfirst, hr⟩ := hvalue.located (Takes.rest_suffix hopen hcs)
      obtain ⟨hothers, hrest⟩ := hmore.located hr
      exact ⟨List.forall_mem_cons.mpr ⟨hfirst, hothers⟩, hrest⟩

theorem Test.located {subject : DocQuery.Path} {test : Grammar.Test} {e : Expr}
    (h : Test (Text.byteLength text.toList) subject test cs e rest)
    (hsubject : subject.IsLocated text) (hcs : cs <:+ text.toList) :
    e.IsLocated text ∧ rest <:+ text.toList := by
  cases h with
  | compare hvalue =>
      obtain ⟨hright, hrest⟩ := hvalue.located hcs
      exact ⟨List.forall_mem_cons.mpr ⟨hsubject, List.forall_mem_singleton.mpr hright⟩, hrest⟩
  | between hlow hand hhigh _ =>
      obtain ⟨hlow, hr⟩ := hlow.located hcs
      obtain ⟨hhigh, hrest⟩ := hhigh.located (hand.suffix hr)
      exact ⟨List.forall_mem_cons.mpr ⟨hsubject, List.forall_mem_cons.mpr ⟨hlow,
        List.forall_mem_singleton.mpr hhigh⟩⟩, hrest⟩
  | within hvalues =>
      obtain ⟨hall, hrest⟩ := hvalues.located hcs
      refine ⟨List.forall_mem_cons.mpr ⟨hsubject, fun t hmem => ?_⟩, hrest⟩
      obtain ⟨v, hv, rfl⟩ := List.mem_map.mp hmem
      exact hall v hv

/-- A subject that is left out has an empty span where it could stand. -/
theorem isLocated_implicit (hcs : cs <:+ text.toList) :
    (Path.implicit ⟨place (Text.byteLength text.toList) cs, 0⟩).IsLocated text :=
  ⟨fun hnamed => (by cases hnamed), fun _ => Span.slice?_empty hcs⟩

theorem Trailing.located {trailing : Option Expr}
    (h : Trailing (Text.byteLength text.toList) cs trailing rest) (hcs : cs <:+ text.toList) :
    (∀ e ∈ trailing.toList, e.IsLocated text) ∧ rest <:+ text.toList := by
  cases h with
  | absent _ => exact ⟨fun _ hmem => (by cases hmem), hcs⟩
  | present htake htest =>
      obtain ⟨he, hrest⟩ := htest.located (isLocated_implicit hcs) (htake.rest_suffix hcs)
      exact ⟨List.forall_mem_singleton.mpr he, hrest⟩

/-! ## Conditions of the text -/

theorem Negation.suffix {negated : Bool} {ds : List Char} (h : Negation cs negated rest)
    (hcs : cs <:+ ds) : rest <:+ ds := by
  cases h with
  | absent _ => exact hcs
  | present hword => exact hword.suffix hcs

theorem Separator.suffix {first : Bool} {ds : List Char} (h : Separator first cs rest)
    (hcs : cs <:+ ds) : rest <:+ ds := by
  cases h with
  | first => exact hcs
  | comma hmark => exact Takes.rest_suffix hmark hcs

theorem NotAlone.suffix {size : Nat} {ds : List Char} (h : NotAlone size cs rest)
    (hcs : cs <:+ ds) : rest <:+ ds := by
  cases h with
  | noPath hno => exact hno.suffix hcs
  | goesOn _ _ _ => exact hcs

mutual

theorem Condition.located {c : Syntax.Condition} {cs rest : List Char} :
    Condition (Text.byteLength text.toList) cs c rest → cs <:+ text.toList →
    c.tree.IsLocated text ∧ rest <:+ text.toList
  | .chain hfirst hlinks, hcs => by
      obtain ⟨hfirst, hr⟩ := hfirst.located hcs
      obtain ⟨hothers, hrest⟩ := hlinks.located hr
      exact ⟨Chain.fold_induction isLocated_connect hfirst hothers, hrest⟩

theorem Links.located {links : Syntax.Links} {cs rest : List Char} :
    Links (Text.byteLength text.toList) cs links rest → cs <:+ text.toList →
    (∀ link ∈ links.toList, link.condition.IsLocated text) ∧ rest <:+ text.toList
  | .nil _, hcs => ⟨fun _ hmem => (by cases hmem), hcs⟩
  | .cons htake hnegation hoperand hlinks, hcs => by
      obtain ⟨hfirst, hr⟩ := hoperand.located (hnegation.suffix (htake.rest_suffix hcs))
      obtain ⟨hothers, hrest⟩ := hlinks.located hr
      exact ⟨List.forall_mem_cons.mpr ⟨hfirst, hothers⟩, hrest⟩

theorem Operand.located {o : Syntax.Operand} {cs rest : List Char} :
    Operand (Text.byteLength text.toList) cs o rest → cs <:+ text.toList →
    o.tree.IsLocated text ∧ rest <:+ text.toList
  | .group hopen hinner hclose, hcs => by
      obtain ⟨hinner, hr⟩ := hinner.located (Takes.rest_suffix hopen hcs)
      exact ⟨hinner, Takes.rest_suffix hclose hr⟩
  | .truth _ hword, hcs => ⟨fun _ hmem => (by cases hmem), hword.suffix hcs⟩
  | .test _ _ hpath htake htest, hcs => by
      obtain ⟨hsubject, hr⟩ := hpath.located hcs
      exact htest.located hsubject (htake.rest_suffix hr)
  | .call _ _ hpath htake harguments htrailing, hcs => by
      obtain ⟨hname, hr⟩ := hpath.located hcs
      obtain ⟨harguments, hr⟩ := harguments.located (htake.rest_suffix hr)
      obtain ⟨htrailing, hrest⟩ := htrailing.located hr
      refine ⟨isLocated_call hname fun e hmem => ?_, hrest⟩
      rcases List.mem_append.mp hmem with hmem | hmem
      · exact harguments e hmem
      · exact htrailing e hmem

theorem Arguments.located {first : Bool} {as : Syntax.Arguments} {cs rest : List Char} :
    Arguments (Text.byteLength text.toList) first cs as rest → cs <:+ text.toList →
    (∀ e ∈ as.trees, e.IsLocated text) ∧ rest <:+ text.toList
  | .nil hclose, hcs => ⟨fun _ hmem => (by cases hmem), Takes.rest_suffix hclose hcs⟩
  | .cons _ hseparator hargument hothers, hcs => by
      obtain ⟨hfirst, hr⟩ := hargument.located (hseparator.suffix hcs)
      obtain ⟨hothers, hrest⟩ := hothers.located hr
      exact ⟨List.forall_mem_cons.mpr ⟨hfirst, hothers⟩, hrest⟩

theorem Argument.located {a : Syntax.Argument} {cs rest : List Char} :
    Argument (Text.byteLength text.toList) cs a rest → cs <:+ text.toList →
    a.tree.IsLocated text ∧ rest <:+ text.toList
  | .value hvalue, hcs => by
      obtain ⟨hv, hrest⟩ := hvalue.located hcs
      exact ⟨isLocated_value hv, hrest⟩
  | .field _ hpath _, hcs => by
      obtain ⟨hp, hrest⟩ := hpath.located hcs
      exact ⟨isLocated_field hp, hrest⟩
  | .condition _ hnot hinner, hcs => hinner.located (hnot.suffix hcs)

end

/-! ## Clauses of the text -/

/-- What the part reads at an end of the text has the property, and an end of the text is left. -/
structure Finds {α : Type} (text : String) (part : Written.Part α) (P : α → Prop) : Prop where
  finds : ∀ {cs rest : List Char} {a : α} {cost : Complexity}, part cs a cost rest →
    cs <:+ text.toList → P a ∧ rest <:+ text.toList

section Shapes

variable {α : Type} {P : α → Prop} {cost : Complexity}

theorem finds_items {item : Written.Part α} (hitem : Finds text item P) :
    Finds text (Items item) fun as => ∀ a ∈ as, P a := by
  constructor
  intro cs rest as cost h hcs
  induction h with
  | last ha _ =>
      obtain ⟨ha, hrest⟩ := hitem.finds ha hcs
      exact ⟨List.forall_mem_singleton.mpr ha, hrest⟩
  | more ha hcomma _ ih =>
      obtain ⟨ha, hr⟩ := hitem.finds ha hcs
      obtain ⟨hothers, hrest⟩ := ih (Takes.rest_suffix hcomma hr)
      exact ⟨List.forall_mem_cons.mpr ⟨ha, hothers⟩, hrest⟩

theorem finds_clause {keyword : Keyword} {body : Written.Part α} (hbody : Finds text body P) :
    Finds text (Clause keyword body) fun found => ∀ a ∈ found, P a := by
  constructor
  intro cs rest found cost h hcs
  cases h with
  | absent _ => exact ⟨fun _ hmem => (by cases hmem), hcs⟩
  | present hword hbody' =>
      obtain ⟨ha, hrest⟩ := hbody.finds hbody' (hword.suffix hcs)
      refine ⟨fun a hmem => ?_, hrest⟩
      cases hmem
      exact ha

/-- A clause with a list, which is empty where the clause is absent. -/
theorem finds_clauseItems {keyword : Keyword} {item : Written.Part α} (hitem : Finds text item P) :
    Finds text (Clause keyword (Items item)) fun found => ∀ a ∈ found.getD [], P a := by
  constructor
  intro cs rest found cost h hcs
  obtain ⟨hall, hrest⟩ := (finds_clause (finds_items hitem)).finds h hcs
  refine ⟨fun a hmem => ?_, hrest⟩
  cases found with
  | none => cases hmem
  | some as => exact hall as rfl a hmem

end Shapes

theorem Script.located {script : DocQuery.Script}
    (h : Script (Text.byteLength text.toList) cs script rest) (hcs : cs <:+ text.toList) :
    script.IsLocated text ∧ rest <:+ text.toList := by
  cases h with
  | mk htake => exact ⟨tokenAt_slice? (htake.suffix hcs), htake.rest_suffix hcs⟩

theorem AsName.suffix {needsAs : Bool} {asName : Option String}
    (h : AsName (Text.byteLength text.toList) needsAs cs asName rest) (hcs : cs <:+ text.toList) :
    rest <:+ text.toList := by
  cases h with
  | named htake hpath => exact (hpath.located (htake.rest_suffix hcs)).2
  | clause htake _ => exact htake.suffix hcs
  | needed _ _ => exact hcs
  | bare _ _ hpath => exact (hpath.located hcs).2
  | absent _ _ hno => exact hno.suffix hcs

theorem finds_filter : Finds text (Filter (Text.byteLength text.toList)) (·.IsLocated text) := by
  constructor
  rintro _ _ _ _ ⟨hcondition⟩ hcs
  exact hcondition.located hcs

theorem finds_fieldOrCall :
    Finds text (FieldOrCall (Text.byteLength text.toList)) (·.IsLocated text) := by
  constructor
  intro cs rest e cost h hcs
  cases h with
  | field hpath _ =>
      obtain ⟨hp, hrest⟩ := hpath.located hcs
      exact ⟨isLocated_field hp, hrest⟩
  | call hpath hopen harguments =>
      obtain ⟨hname, hr⟩ := hpath.located hcs
      obtain ⟨harguments, hrest⟩ := harguments.located (Takes.rest_suffix hopen hr)
      exact ⟨isLocated_call hname harguments, hrest⟩

theorem finds_groupField :
    Finds text (GroupField (Text.byteLength text.toList)) (·.IsLocated text) := by
  constructor
  rintro _ _ _ _ ⟨hpath⟩ hcs
  exact hpath.located hcs

theorem SortType.suffix {sortType : DocQuery.SortType} {ds : List Char}
    (h : SortType cs sortType rest) (hcs : cs <:+ ds) : rest <:+ ds := by
  cases h with
  | implicit _ => exact hcs
  | explicit hword htake => exact htake.rest_suffix (hword.suffix hcs)

theorem Ascending.suffix {up : Bool} {ds : List Char} (h : Ascending cs up rest)
    (hcs : cs <:+ ds) : rest <:+ ds := by
  cases h with
  | implicit _ => exact hcs
  | explicit htake => exact htake.rest_suffix hcs

theorem finds_orderTerm :
    Finds text (OrderTerm (Text.byteLength text.toList)) (·.key.IsLocated text) := by
  constructor
  rintro _ _ _ _ ⟨hkey, hsort, hascending⟩ hcs
  obtain ⟨hkey, hr⟩ := finds_fieldOrCall.finds hkey hcs
  exact ⟨hkey, hascending.suffix (hsort.suffix hr)⟩

theorem finds_projection (needsAs : Bool) :
    Finds text (Projection (Text.byteLength text.toList) needsAs) (·.body.IsLocated text) := by
  constructor
  rintro _ _ _ _ ⟨hbody, hasName⟩ hcs
  cases hbody with
  | named hnamed =>
      obtain ⟨he, hr⟩ := finds_fieldOrCall.finds hnamed hcs
      exact ⟨he, hasName.suffix hr⟩
  | value hno hvalue =>
      obtain ⟨hv, hr⟩ := hvalue.located (hno.suffix hcs)
      exact ⟨isLocated_value hv, hasName.suffix hr⟩

theorem finds_include : Finds text (Include (Text.byteLength text.toList)) (·.IsLocated text) := by
  constructor
  intro cs rest e cost h hcs
  cases h with
  | value hvalue =>
      obtain ⟨hv, hrest⟩ := hvalue.located hcs
      exact ⟨isLocated_value hv, hrest⟩
  | field _ hpath =>
      obtain ⟨hp, hrest⟩ := hpath.located hcs
      exact ⟨isLocated_field hp, hrest⟩

theorem Distinct.suffix {distinct : Bool} {ds : List Char} (h : Distinct cs distinct rest)
    (hcs : cs <:+ ds) : rest <:+ ds := by
  cases h with
  | absent _ => exact hcs
  | present hword => exact hword.suffix hcs

theorem finds_selection : Finds text (Selection (Text.byteLength text.toList)) fun selection =>
    (∀ entry ∈ selection.entries.getD [], entry.body.IsLocated text) ∧
      ∀ script ∈ selection.script, script.IsLocated text := by
  constructor
  intro cs rest selection cost h hcs
  cases h with
  | all hdistinct hstar =>
      exact ⟨⟨fun _ hmem => (by cases hmem), fun _ hmem => by cases hmem⟩,
        Takes.rest_suffix hstar (hdistinct.suffix hcs)⟩
  | script hdistinct _ hscript =>
      obtain ⟨hfound, hrest⟩ := hscript.located (hdistinct.suffix hcs)
      refine ⟨⟨fun _ hmem => (by cases hmem), fun _ hmem => ?_⟩, hrest⟩
      cases hmem
      exact hfound
  | entries hdistinct _ _ hitems =>
      obtain ⟨hall, hrest⟩ := (finds_items (finds_projection true)).finds hitems (hdistinct.suffix hcs)
      exact ⟨⟨hall, fun _ hmem => by cases hmem⟩, hrest⟩

theorem finds_source : Finds text (Source (Text.byteLength text.toList)) fun source =>
    source.name.IsLocatedName text ∧ ∀ e ∈ source.filter, e.IsLocated text := by
  constructor
  intro cs rest source cost h hcs
  cases h with
  | collection hfrom _ hsegment hfilter hasName =>
      have hname := hsegment.located (hfrom.suffix hcs)
      have hr := (hsegment.split ▸ Trivia.rest_suffix _).trans (hfrom.suffix hcs)
      have hr := (List.suffix_append _ _).trans hr
      cases hfilter with
      | absent _ => exact ⟨⟨hname, fun _ hmem => by cases hmem⟩, hasName.suffix hr⟩
      | present hopen hcondition hclose =>
          obtain ⟨hfound, hr⟩ := hcondition.located (Takes.rest_suffix hopen hr)
          refine ⟨⟨hname, fun _ hmem => ?_⟩, hasName.suffix (Takes.rest_suffix hclose hr)⟩
          cases hmem
          exact hfound
  | index hfrom hindex hsegment hasName =>
      have hcs := hindex.suffix (hfrom.suffix hcs)
      have hr := (hsegment.split ▸ Trivia.rest_suffix _).trans hcs
      exact ⟨⟨hsegment.located hcs, fun _ hmem => by cases hmem⟩,
        hasName.suffix ((List.suffix_append _ _).trans hr)⟩

/-- A declared function is where it is written, from its keyword to the end of its body. -/
theorem finds_declaration :
    Finds text (Declaration (Text.byteLength text.toList)) (·.2.IsLocated text) := by
  constructor
  intro cs rest entry cost h hcs
  cases h with
  | @mk _ keyword r _ _ _ _ _ _ body _ hkeyword hname hopen harguments hblock hbody =>
      have hstart := hkeyword.suffix hcs
      obtain ⟨-, hr⟩ := harguments.located
        (Takes.rest_suffix hopen (hname.rest_suffix (hkeyword.rest_suffix hcs)))
      rw [hbody] at hstart ⊢
      exact ⟨Span.slice?_between hstart, hblock.rest_suffix hr⟩

theorem finds_declarations {known functions : Functions} {cost : Complexity}
    (h : Declarations (Text.byteLength text.toList) known cs functions cost rest)
    (hknown : ∀ entry ∈ known.entries, entry.2.IsLocated text) (hcs : cs <:+ text.toList) :
    (∀ entry ∈ functions.entries, entry.2.IsLocated text) ∧ rest <:+ text.toList := by
  induction h with
  | done _ => exact ⟨hknown, hcs⟩
  | more hdeclare hfunction _ _ ih =>
      obtain ⟨hscript, hr⟩ := finds_declaration.finds hfunction (hdeclare.suffix hcs)
      refine ih (fun entry hmem => ?_) hr
      rcases Functions.mem_insertEntry hmem with rfl | hmem
      · exact hscript
      · exact hknown entry hmem

end Written

theorem Query.forall_mem_terminals {query : Query} {P : Terminal → Prop}
    (hgroup : ∀ path ∈ query.groupBy.getD [], P (.path path))
    (h : ∀ e ∈ query.expressions, ∀ t ∈ e.terminals, P t) : ∀ t ∈ query.terminals, P t := by
  intro t hmem
  rcases List.mem_append.mp hmem with hmem | hmem
  · obtain ⟨path, hpath, rfl⟩ := List.mem_map.mp hmem
    exact hgroup path hpath
  · obtain ⟨e, he, hmem⟩ := List.mem_flatMap.mp hmem
    exact h e he t hmem

theorem Query.forall_mem_scripts {query : Query} {P : Script → Prop}
    (hfunctions : ∀ entry ∈ query.functions.entries, P entry.2)
    (hselect : ∀ script ∈ query.selectScript, P script)
    (hupdate : ∀ script ∈ query.updateScript, P script) : ∀ script ∈ query.scripts, P script := by
  intro script hmem
  simp only [scripts, List.mem_append, List.mem_map, Option.mem_toList] at hmem
  rcases hmem with (⟨entry, hmem, rfl⟩ | hmem) | hmem
  · exact hfunctions entry hmem
  · exact hselect script hmem
  · exact hupdate script hmem

/-- Every part of a query that can be written is where its span says. -/
theorem Written.Query.located {kind : QueryKind} {text : String} {q : DocQuery.Query}
    {cost : Complexity} (h : Written.Query kind text q cost) : q.text = text ∧ q.IsLocated := by
  cases h with
  | mk hdeclarations hbody hending _ =>
  cases hbody with
  | mk hsource hgroup hfilter horder hload =>
  obtain ⟨hfunctions, hr⟩ := finds_declarations hdeclarations (fun _ hmem => by cases hmem)
    List.suffix_rfl
  obtain ⟨⟨hname, hsource⟩, hr⟩ := finds_source.finds hsource hr
  obtain ⟨hgroup, hr⟩ := (finds_clauseItems finds_groupField).finds hgroup hr
  obtain ⟨hfilter, hr⟩ := (finds_clause finds_filter).finds hfilter hr
  obtain ⟨horder, hr⟩ := (finds_clauseItems finds_orderTerm).finds horder hr
  obtain ⟨hload, hr⟩ := (finds_clauseItems (finds_projection false)).finds hload hr
  cases hending with
  | @select _ _ _ _ selection _ _ _ hselect hincludes =>
      obtain ⟨hselect, hr⟩ := (finds_clause finds_selection).finds hselect hr
      obtain ⟨hincludes, -⟩ := (finds_clauseItems finds_include).finds hincludes hr
      obtain ⟨hentries, hscript⟩ :
          (∀ entry ∈ (selection.getD .none).entries.getD [], entry.body.IsLocated text) ∧
            ∀ script ∈ (selection.getD .none).script, script.IsLocated text := by
        cases selection with
        | none => exact ⟨fun _ hmem => (by cases hmem), fun _ hmem => by cases hmem⟩
        | some found => exact hselect found rfl
      exact ⟨rfl, {
        terminals := Query.forall_mem_terminals hgroup
          (Query.forall_mem_expressions hsource hfilter horder hload hentries hincludes)
        scripts := Query.forall_mem_scripts hfunctions hscript (fun _ hmem => by cases hmem)
        source := hname }⟩
  | update hword hscript =>
      obtain ⟨hscript, -⟩ := hscript.located (hword.suffix hr)
      exact ⟨rfl, {
        terminals := Query.forall_mem_terminals hgroup
          (Query.forall_mem_expressions hsource hfilter horder hload
            (fun _ hmem => by cases hmem) fun _ hmem => by cases hmem)
        scripts := Query.forall_mem_scripts hfunctions (fun _ hmem => by cases hmem)
          fun _ hmem => by
            cases hmem
            exact hscript
        source := hname }⟩

/--
Every path, value, script and source name of a parsed query is where its span
says: the bytes there are the value or the script, and read alone they give the
path or the name.
-/
theorem Query.located_of_parse {kind : QueryKind} {limits : Grammar.Limits} {text : String}
    {q : Query} (h : parse kind limits text = .ok q) : q.text = text ∧ q.IsLocated := by
  obtain ⟨cost, hwritten⟩ := written_of_parse h
  exact hwritten.located

/-- A query with a declared function, a call and a script is parsed, and its parts are located. -/
theorem Query.located_of_parse_update :
    ∃ q, parse .update {} "DECLARE function g(a) { } FROM 'x y' WHERE f(a) = $p UPDATE { u }" =
        .ok q ∧
      q.text = "DECLARE function g(a) { } FROM 'x y' WHERE f(a) = $p UPDATE { u }" ∧
      q.IsLocated := by
  have hparsed : (parse .update {}
      "DECLARE function g(a) { } FROM 'x y' WHERE f(a) = $p UPDATE { u }").toOption.isSome =
      true := by
    decide +kernel
  obtain ⟨q, hq⟩ := Option.isSome_iff_exists.mp hparsed
  have hparse := parse_of_toOption hq
  exact ⟨q, hparse, located_of_parse hparse⟩

end DocQuery
