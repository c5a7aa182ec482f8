import DocQuery.Proofs.Canonical.Legible

/-!
# Legible conditions are read back

The canonical text of a legible tree is read as a chain that gives the tree
back, in front of any links that may follow.  Only a run of conjunctions is ever
followed by further links without parentheses around it, and a run takes them on
as a chain does.  The main statement is `Expr.Legible.reads`.
-/

namespace DocQuery

open Lexical Grammar Written

/-! ## Text behind a condition -/

/-- The text ends a path, and no test follows. -/
structure Behind (cs : List Char) : Prop extends EndsPath cs where
  test : Passes (Rule.firstOf Grammar.tests) cs

namespace Behind

theorem nil : Behind [] := ⟨⟨Apart.nil, rfl, rfl⟩, rfl⟩

theorem comma (cs : List Char) : Behind (',' :: cs) :=
  ⟨⟨Apart.cons cs (by decide), rfl, rfl⟩, rfl⟩

theorem close (cs : List Char) : Behind (')' :: cs) :=
  ⟨⟨Apart.cons cs (by decide), rfl, rfl⟩, rfl⟩

theorem connective (connective : Connective) (cs : List Char) :
    Behind (' ' :: (connective.text.toList ++ ' ' :: cs)) := by
  cases connective <;> exact ⟨⟨Apart.cons _ (by decide), rfl, rfl⟩, rfl⟩

end Behind

theorem endsPath_open (cs : List Char) : EndsPath ('(' :: cs) :=
  ⟨Apart.cons cs (by decide), rfl, rfl⟩

namespace Written

variable {size : Nat} {cs rest : List Char}

theorem alike_blank (cs : List Char) : Alike (' ' :: cs) cs :=
  Trivia.rest_blank cs (by decide)

theorem noMark_of_takes {α : Type} {rule : Rule α} {token : List Char} {a : α} {c : Char}
    (h : Takes rule cs token a rest) (hc : ∀ more, rule (c :: more) = none) : NoMark c cs := by
  refine Rule.char_eq_none.mpr fun hhead => ?_
  obtain ⟨more, hmore⟩ := List.head?_eq_some_iff.mp hhead
  have hmeasured := h.measured
  rw [← h.split, hmore, hc] at hmeasured
  cases hmeasured

theorem Value.noMark_close {v : DocQuery.Value} (h : Value size cs v rest) : NoMark ')' cs := by
  cases h with
  | number htake => exact noMark_of_takes htake fun _ => rfl
  | quoted _ htake => exact noMark_of_takes htake fun _ => rfl
  | literal _ _ htake => exact noMark_of_takes htake fun _ => rfl
  | parameter _ _ _ hmark _ => exact noMark_of_takes hmark fun _ => rfl

/-! ## Tests -/

theorem takes_test (t : Grammar.Test) (cs : List Char) :
    Takes (Rule.firstOf Grammar.tests) (' ' :: (t.text.toList ++ ' ' :: cs)) t.text.toList t
      (' ' :: cs) := by
  cases t with
  | compare comparison => cases comparison <;> exact ⟨rfl, rfl⟩
  | between => exact ⟨rfl, rfl⟩
  | within all => cases all <;> exact ⟨rfl, rfl⟩

theorem takes_operator (t : Grammar.Test) (cs : List Char) :
    Takes (Rule.firstOf operators) (' ' :: (t.text.toList ++ ' ' :: cs)) t.text.toList (some t)
      (' ' :: cs) := by
  cases t with
  | compare comparison => cases comparison <;> exact ⟨rfl, rfl⟩
  | between => exact ⟨rfl, rfl⟩
  | within all => cases all <;> exact ⟨rfl, rfl⟩

theorem takes_open (cs : List Char) :
    Takes (Rule.firstOf operators) ('(' :: cs) ['('] none cs :=
  ⟨rfl, rfl⟩

/-- The texts behind the first one of a list, each with a comma in front. -/
def commas (texts : List String) : List Char :=
  texts.flatMap fun text => ',' :: ' ' :: text.toList

theorem exists_moreValues {kind : ValueKind} {values : List DocQuery.Value}
    (hspelled : ∀ v ∈ values, v.Spelled) (hkind : ∀ v ∈ values, v.kind = kind)
    (size : Nat) (cs : List Char) :
    ∃ found, MoreValues size kind (commas (values.map DocQuery.Value.render) ++ ')' :: cs) found cs ∧
      found.map DocQuery.Value.erase = values.map DocQuery.Value.erase := by
  induction values with
  | nil => exact ⟨[], .last (mark_cons cs rfl), rfl⟩
  | cons value values ih =>
      obtain ⟨found, hfound, hsame⟩ := ih (fun v hv => hspelled v (List.mem_cons_of_mem _ hv))
        (fun v hv => hkind v (List.mem_cons_of_mem _ hv))
      have happart : Apart (commas (values.map DocQuery.Value.render) ++ ')' :: cs) := by
        cases values with
        | nil => exact Apart.cons _ (by decide)
        | cons _ _ => exact Apart.cons _ (by decide)
      obtain ⟨v, hv, hvalue⟩ := (hspelled value List.mem_cons_self).written size happart
      have hvkind : v.kind = kind := by
        rw [(DocQuery.Value.erase_eq_iff.mp hvalue).2.1]
        exact hkind value List.mem_cons_self
      refine ⟨v :: found, ?_, by rw [List.map_cons, hvalue, hsame, List.map_cons]⟩
      simp only [commas, List.map_cons, List.flatMap_cons, List.cons_append, List.append_assoc]
      exact .more (noMark_cons _ rfl (by decide)) (mark_cons _ rfl)
        (hv.alike (alike_blank _)) hvkind hfound

theorem exists_valueList {values : List DocQuery.Value} (hspelled : ∀ v ∈ values, v.Spelled)
    (hkind : ∀ v ∈ values, ∀ w ∈ values, v.kind = w.kind) (size : Nat) (cs : List Char) :
    ∃ found, ValueList size
        (("(" ++ Expr.commaSeparated (values.map DocQuery.Value.render) ++ ")").toList ++ cs)
        found cs ∧ found.map DocQuery.Value.erase = values.map DocQuery.Value.erase := by
  cases values with
  | nil => exact ⟨[], .empty (mark_cons _ rfl) (mark_cons _ rfl), rfl⟩
  | cons value values =>
      obtain ⟨found, hfound, hsame⟩ := @exists_moreValues value.kind values
        (fun v hv => hspelled v (List.mem_cons_of_mem _ hv))
        (fun v hv => hkind v (List.mem_cons_of_mem _ hv) value List.mem_cons_self) size cs
      have happart : Apart (commas (values.map DocQuery.Value.render) ++ ')' :: cs) := by
        cases values with
        | nil => exact Apart.cons _ (by decide)
        | cons _ _ => exact Apart.cons _ (by decide)
      obtain ⟨v, hv, hvalue⟩ := (hspelled value List.mem_cons_self).written size happart
      have hvkind : v.kind = value.kind := (DocQuery.Value.erase_eq_iff.mp hvalue).2.1
      refine ⟨v :: found, ?_, by rw [List.map_cons, hvalue, hsame, List.map_cons]⟩
      have htext : ("(" ++ Expr.commaSeparated ((value :: values).map DocQuery.Value.render) ++
          ")").toList ++ cs = '(' :: (value.render.toList ++
            (commas (values.map DocQuery.Value.render) ++ ')' :: cs)) := by
        simp [Expr.commaSeparated_cons, commas]
      rw [htext]
      refine .values (mark_cons _ rfl) hv.noMark_close hv ?_
      rw [hvkind]
      exact hfound

end Written

namespace Expr

variable {subject : Path} {t : Test} {e : Expr} {operand : String}

/-- A test is read back behind its operator, on the same subject. -/
theorem IsTest.written (h : IsTest subject t e operand) (hvalues : e.HasValues) (size : Nat)
    {subject' : Path} (hsubject : subject'.erase = subject.erase) {cs : List Char}
    (hcs : Apart cs) : ∃ found,
      Written.Test size subject' t (' ' :: (operand.toList ++ cs)) found cs ∧
        found.erase = e.erase := by
  cases h with
  | compare =>
      obtain ⟨v, hv, hvalue⟩ := Value.Spelled.written hvalues size hcs
      refine ⟨_, .compare (hv.alike (alike_blank _)), ?_⟩
      simp only [Expr.compare, erase, hsubject, hvalue]
  | @between low high =>
      obtain ⟨hlow, hhigh, hkind⟩ := hvalues
      obtain ⟨w, hw, hvalue'⟩ := hhigh.written size hcs
      obtain ⟨v, hv, hvalue⟩ := @Value.Spelled.written low hlow size
        (' ' :: ("AND".toList ++ ' ' :: (high.render.toList ++ cs))) (Apart.cons _ (by decide))
      have hkinds : v.kind = w.kind := by
        rw [(Value.erase_eq_iff.mp hvalue).2.1, (Value.erase_eq_iff.mp hvalue').2.1, hkind]
      have htext : (low.render ++ " AND " ++ high.render).toList ++ cs =
          low.render.toList ++ ' ' :: ("AND".toList ++ ' ' :: (high.render.toList ++ cs)) := by
        simp
      rw [htext]
      refine ⟨_, .between (hv.alike (alike_blank _)) ⟨"AND".toList, rfl, rfl⟩
        (hw.alike (alike_blank _)) hkinds, ?_⟩
      simp only [erase, hsubject, hvalue, hvalue']
  | within =>
      obtain ⟨found, hfound, hsame⟩ := exists_valueList hvalues.1 hvalues.2 size cs
      refine ⟨_, .within (hfound.alike (alike_blank _)), ?_⟩
      simp only [erase, hsubject, hsame]

end Expr

/-! ## Arguments -/

/-- A comma or a closing parenthesis is next. -/
inductive EndsItem : List Char → Prop where
  | comma {cs : List Char} : EndsItem (',' :: cs)
  | close {cs : List Char} : EndsItem (')' :: cs)

namespace EndsItem

variable {cs : List Char}

theorem behind (h : EndsItem cs) : Behind cs := by
  cases h with
  | comma => exact Behind.comma _
  | close => exact Behind.close _

theorem alone (h : EndsItem cs) : Alone cs := by
  cases h with
  | comma => exact Or.inl ⟨_, mark_cons _ rfl⟩
  | close => exact Or.inr ⟨noMark_cons _ rfl (by decide), _, mark_cons _ rfl⟩

theorem noLinks (h : EndsItem cs) (size : Nat) : Links size cs .nil cs := by
  cases h with
  | comma => exact .nil rfl
  | close => exact .nil rfl

theorem commas (texts : List String) (cs : List Char) :
    EndsItem (Written.commas texts ++ ')' :: cs) := by
  cases texts with
  | nil => exact .close
  | cons text texts => exact .comma

end EndsItem

/-- An argument is read back in front of a comma or the closing parenthesis. -/
def ReadsArgument (size : Nat) (e : Expr) : Prop :=
  ∀ {cs : List Char}, EndsItem cs →
    ∃ a, Argument size (e.render.toList ++ cs) a cs ∧ a.tree.erase = e.erase ∧
      a.cost = e.complexity

namespace Written

variable {size : Nat} {cs rest : List Char}

/-- Where no value is next, the condition `true` is not next either. -/
theorem NoValue.noWord_true (h : NoValue cs) : NoWord .true_ cs := by
  have hliteral := h.literal
  rw [Passes, Rule.anyKeyword, Keyword.literals, List.map_cons, Rule.firstOf] at hliteral
  split at hliteral
  · cases hliteral
  · next hnone => exact Rule.ofLength_eq_none.mpr hnone

/-- A condition that does not start with a value is not taken for a field that stands alone. -/
theorem Condition.notAlone {c : Syntax.Condition} (h : Condition size cs c rest)
    (hno : NoValue cs) : NotAlone size cs cs := by
  cases h with
  | chain hfirst _ =>
      cases hfirst with
      | group hopen _ _ =>
          refine .noPath (.blank ⟨?_, ?_⟩)
          · rw [Passes, hopen.split]
            rfl
          · rw [Passes, hopen.split]
            rfl
      | truth _ hword =>
          obtain ⟨token, htake⟩ := hword
          exact absurd hno.noWord_true htake.not_passes
      | test _ _ hpath hoperator _ =>
          exact .goesOn hpath (noMark_of_takes hoperator fun _ => rfl)
            (noMark_of_takes hoperator fun _ => rfl)
      | call _ _ hpath hoperator _ _ =>
          exact .goesOn hpath (noMark_of_takes hoperator fun _ => rfl)
            (noMark_of_takes hoperator fun _ => rfl)

theorem Segment.noMark_close {token : List Char} {text : String} {quoted : Bool}
    (h : Segment true cs token text quoted rest) : NoMark ')' cs := by
  cases h with
  | name htake => exact noMark_of_takes htake fun _ => rfl
  | quoted _ htake => exact noMark_of_takes htake fun _ => rfl

theorem Path.noMark_close {p : DocQuery.Path} (h : Path size cs p rest) : NoMark ')' cs := by
  cases h with
  | mk hsegment _ _ => exact hsegment.noMark_close

theorem Operand.noMark_close {o : Syntax.Operand} (h : Operand size cs o rest) :
    NoMark ')' cs := by
  cases h with
  | group hopen _ _ => exact noMark_of_takes hopen fun _ => rfl
  | truth _ hword =>
      obtain ⟨token, htake⟩ := hword
      exact noMark_of_takes htake fun _ => rfl
  | test _ _ hpath _ _ => exact hpath.noMark_close
  | call _ _ hpath _ _ _ => exact hpath.noMark_close

/-- A condition as an argument is read from where the argument starts. -/
theorem NotAlone.eq_of_condition {r : List Char} {c : Syntax.Condition} (h : NotAlone size cs r)
    (hcondition : Condition size r c rest) : r = cs := by
  cases h with
  | goesOn _ _ _ => rfl
  | noPath hno =>
      cases hno with
      | blank _ => rfl
      | broken _ _ _ => rfl
      | @reserved token r htake hreserved =>
          obtain ⟨hname, hr⟩ := name_of_takes htake
          have hagain : NoPath (token ++ r) (token ++ r) :=
            .reserved (takes_name hname hr) hreserved
          cases hcondition with
          | chain hfirst _ =>
              cases hfirst with
              | group hopen _ _ =>
                  exact absurd (noMark_name hname (by decide) r) (Takes.not_passes hopen)
              | truth _ hword =>
                  obtain ⟨word, hword⟩ := hword
                  refine absurd ?_ hword.not_passes
                  rw [Passes, rest_name hname]
                  refine Keyword.noKeyword_at_name ?_ hname hr
                  rw [← Bool.not_eq_true]
                  intro hopens
                  have hsame : Text.sameWord (Keyword.text .true_).toList token = true := hopens
                  rw [isReserved, Keyword.ofText?_of_sameWord rfl hname hsame] at hreserved
                  cases hreserved
              | test _ _ hpath _ _ => exact absurd hpath hagain.not_path
              | call _ _ hpath _ _ _ => exact absurd hpath hagain.not_path

/-- No argument starts with a closing parenthesis. -/
theorem Argument.noMark_close {a : Syntax.Argument} (h : Argument size cs a rest) :
    NoMark ')' cs := by
  cases h with
  | value hvalue => exact hvalue.noMark_close
  | field _ hpath _ => exact hpath.noMark_close
  | condition _ halone hinner =>
      obtain rfl := halone.eq_of_condition hinner
      cases hinner with
      | chain hfirst _ => exact hfirst.noMark_close

theorem exists_moreArguments {es : List Expr} (h : ∀ e ∈ es, ReadsArgument size e)
    (cs : List Char) : ∃ as,
      Arguments size false (commas (es.map Expr.render) ++ ')' :: cs) as cs ∧
        as.trees.map Expr.erase = es.map Expr.erase ∧ as.cost = Expr.complexityOf es := by
  induction es with
  | nil => exact ⟨.nil, .nil (mark_cons cs rfl), rfl, rfl⟩
  | cons e es ih =>
      obtain ⟨as, has, hsame, hcost⟩ := ih fun e he => h e (List.mem_cons_of_mem _ he)
      obtain ⟨a, ha, hargument, hfirst⟩ :=
        h e List.mem_cons_self (.commas (es.map Expr.render) cs)
      refine ⟨.cons a as, ?_, ?_, ?_⟩
      · simp only [commas, List.map_cons, List.flatMap_cons, List.cons_append, List.append_assoc]
        exact .cons (noMark_cons _ rfl (by decide)) (.comma (mark_cons _ rfl))
          (ha.alike (alike_blank _)) has
      · rw [Syntax.Arguments.trees, List.map_cons, hargument, hsame, List.map_cons]
      · rw [Syntax.Arguments.cost, hfirst, hcost, Expr.complexityOf]

theorem exists_arguments {es : List Expr} (h : ∀ e ∈ es, ReadsArgument size e)
    (cs : List Char) : ∃ as,
      Arguments size true ((Expr.commaSeparated (es.map Expr.render)).toList ++ ')' :: cs) as cs ∧
        as.trees.map Expr.erase = es.map Expr.erase ∧ as.cost = Expr.complexityOf es := by
  cases es with
  | nil => exact ⟨.nil, .nil (mark_cons cs rfl), rfl, rfl⟩
  | cons e es =>
      obtain ⟨as, has, hsame, hcost⟩ :=
        exists_moreArguments (fun e he => h e (List.mem_cons_of_mem _ he)) cs
      obtain ⟨a, ha, hargument, hfirst⟩ :=
        h e List.mem_cons_self (.commas (es.map Expr.render) cs)
      refine ⟨.cons a as, ?_, ?_, ?_⟩
      · rw [List.map_cons, Expr.commaSeparated_cons, List.append_assoc]
        exact .cons ha.noMark_close .first ha has
      · rw [Syntax.Arguments.trees, List.map_cons, hargument, hsame, List.map_cons]
      · rw [Syntax.Arguments.cost, hfirst, hcost, Expr.complexityOf]

end Written

/-! ## Conditions -/

theorem Expr.startsWithGroup_of_not_connective {e : Expr} (h : e.isConnective = false) :
    e.startsWithGroup = false := by
  cases e with
  | binary operator left right =>
      cases operator with
      | compare comparison => rfl
      | connect connective => cases h
  | _ => rfl

/-- A condition is read back in front of the links that follow it. -/
structure Reads (size : Nat) (e : Expr) : Prop where
  /-- A predicate is one operand. -/
  operand : e.isConnective = false → ∀ {cs : List Char}, Behind cs →
    ∃ o, Operand size (e.render.toList ++ cs) o cs ∧ o.tree.erase = e.erase ∧
      o.isGroup = false ∧ o.cost = e.complexity
  /-- A condition is a chain that goes on with the links. -/
  chain : ∀ {cs rest : List Char} {links : Syntax.Links}, Behind cs → Links size cs links rest →
    links = .nil ∨ e.isConnective = false ∨ e.isRun = true →
    ∃ first more, Condition size (e.render.toList ++ cs) (.chain first more) rest ∧
      (Chain.fold ⟨first.tree, more.toList⟩).erase = (Chain.fold ⟨e, links.toList⟩).erase ∧
      first.isGroup = e.startsWithGroup ∧
      first.cost.join more.cost = e.complexity.join links.cost

namespace Reads

variable {size : Nat} {e : Expr}

/-- A predicate that is read back is a chain of one operand and what follows. -/
theorem of_operand (hatom : e.isConnective = false)
    (h : ∀ {cs : List Char}, Behind cs →
      ∃ o, Operand size (e.render.toList ++ cs) o cs ∧ o.tree.erase = e.erase ∧
        o.isGroup = false ∧ o.cost = e.complexity) : Reads size e := by
  refine ⟨fun _ => h, ?_⟩
  intro cs rest links hcs hlinks _
  obtain ⟨o, ho, hsame, hgroup, hcost⟩ := h hcs
  exact ⟨o, links, .chain ho hlinks, Chain.fold_congr hsame _,
    hgroup.trans (Expr.startsWithGroup_of_not_connective hatom).symm, by rw [hcost]⟩

/-- A condition with nothing behind it is read back as it is. -/
theorem condition (h : Reads size e) {cs rest : List Char} (hcs : Behind cs)
    (hlinks : Links size cs .nil rest) :
    ∃ c, Condition size (e.render.toList ++ cs) c rest ∧ c.tree.erase = e.erase ∧
      c.cost = e.complexity := by
  obtain ⟨first, more, hcondition, hsame, -, hcost⟩ := h.chain hcs hlinks (Or.inl rfl)
  exact ⟨_, hcondition, hsame, hcost.trans (Complexity.join_zero _)⟩

/-- A condition in parentheses is read back as one operand. -/
theorem group (h : Reads size e) (cs : List Char) :
    ∃ o, Operand size ('(' :: (e.render.toList ++ ')' :: cs)) o cs ∧ o.tree.erase = e.erase ∧
      o.isGroup = true ∧ o.cost = e.complexity.nest := by
  obtain ⟨c, hcondition, hsame, hcost⟩ :=
    h.condition (Behind.close cs) (EndsItem.close.noLinks size)
  exact ⟨.group c, .group (mark_cons _ rfl) hcondition (mark_cons cs rfl), hsame, rfl,
    congrArg Complexity.nest hcost⟩

end Reads

theorem Written.Links.of_text {size : Nat} {connective : Connective} {text r rest : List Char}
    {o : Syntax.Operand} {links : Syntax.Links}
    (hnot : connective.isNegated = true ∨ NoWord .not text) (ho : Operand size text o r)
    (hlinks : Links size r links rest) :
    Links size (' ' :: (connective.text.toList ++ ' ' :: text)) (.cons connective o links) rest := by
  have hpositive : connective.isNegated = false → Negation (' ' :: text) false (' ' :: text) := by
    intro hplain
    rw [hplain] at hnot
    exact .absent (NoWord.alike (hnot.resolve_left (by simp)) (alike_blank text))
  have hnegative : Negation (' ' :: ("NOT".toList ++ ' ' :: text)) true (' ' :: text) :=
    .present ⟨"NOT".toList, rfl, rfl⟩
  have ho := ho.alike (alike_blank text)
  have hand : ∀ cs, Takes (Rule.anyKeyword Keyword.connectives)
      (' ' :: ("AND".toList ++ ' ' :: cs)) "AND".toList .and (' ' :: cs) := fun _ => ⟨rfl, rfl⟩
  have hor : ∀ cs, Takes (Rule.anyKeyword Keyword.connectives)
      (' ' :: ("OR".toList ++ ' ' :: cs)) "OR".toList .or (' ' :: cs) := fun _ => ⟨rfl, rfl⟩
  cases connective with
  | and => exact .cons (hand _) (hpositive rfl) ho hlinks
  | andNot => exact .cons (hand _) hnegative ho hlinks
  | or => exact .cons (hor _) (hpositive rfl) ho hlinks
  | orNot => exact .cons (hor _) hnegative ho hlinks

namespace Reads

variable {size : Nat} {connective : Connective} {left right : Expr}

/-- The right side of a connective is read back as a link and all that follows it. -/
theorem link (hright : Reads size right) (hopening : Opening right.render.toList)
    (hnot : connective.isNegated = true ∨
      NoWord .not (Expr.renderRight connective right).toList)
    {cs rest : List Char} {links : Syntax.Links} (hcs : Behind cs)
    (hlinks : Links size cs links rest)
    (hend : links = .nil ∨ connective.isAnd = true ∧ right.isConnective = false) :
    ∃ o more, Links size (' ' :: (connective.text.toList ++
        ' ' :: ((Expr.renderRight connective right).toList ++ cs))) (.cons connective o more) rest ∧
      (∀ e, (Chain.fold ⟨e, ⟨connective, o.tree, o.isGroup⟩ :: more.toList⟩).erase =
        (Chain.fold ⟨.connect connective e right, links.toList⟩).erase) ∧
      o.cost.join more.cost =
        (right.complexity.inParens (right.groupedRight connective)).join links.cost := by
  have hnot : connective.isNegated = true ∨
      NoWord .not ((Expr.renderRight connective right).toList ++ cs) := by
    refine hnot.imp id fun hno => ?_
    rw [← List.append_nil (Expr.renderRight connective right).toList] at hno
    exact (Expr.opening_inParens hopening).noWord rfl Apart.nil hcs.apart hno
  have hloose : ∀ {o : Syntax.Operand} {e : Expr} {more : List Link},
      (connective.isAnd && !o.isGroup) = false →
      (Chain.fold ⟨o.tree, more⟩).erase = right.erase →
      (Chain.fold ⟨e, ⟨connective, o.tree, o.isGroup⟩ :: more⟩).erase =
        (Chain.fold ⟨.connect connective e right, []⟩).erase := by
    intro o e more htight hsame
    rw [Chain.fold_loose e more (by exact htight), Chain.fold_nil, Expr.erase_connect,
      Expr.erase_connect, hsame]
  cases hgrouped : right.groupedRight connective with
  | true =>
      obtain ⟨o, ho, hsame, hgroup, hcost⟩ := hright.group cs
      have hconnective : right.isConnective = true := by
        simp only [Expr.groupedRight, Bool.and_eq_true] at hgrouped
        exact hgrouped.1.1
      obtain rfl : links = .nil := by
        rw [hconnective] at hend
        exact hend.resolve_right (by simp)
      refine ⟨o, .nil, .of_text hnot ?_ hlinks, fun e => hloose (by simp [hgroup]) hsame, by
        rw [hcost]; rfl⟩
      have htext : (Expr.renderRight connective right).toList ++ cs =
          '(' :: (right.render.toList ++ ')' :: cs) := by
        simp [Expr.renderRight, Expr.inParens, hgrouped]
      rw [htext]
      exact ho
  | false =>
      have htext : Expr.renderRight connective right = right.render := by
        simp [Expr.renderRight, Expr.inParens, hgrouped]
      rw [htext] at hnot ⊢
      cases hconnective : right.isConnective with
      | false =>
          obtain ⟨o, ho, hsame, hgroup, hcost⟩ := hright.operand hconnective hcs
          refine ⟨o, links, .of_text hnot ho hlinks, fun e => ?_, by rw [hcost]; rfl⟩
          cases hand : connective.isAnd with
          | true =>
              rw [Chain.fold_tight e _ (by simp [Link.isTight, hand, hgroup])]
              exact Chain.fold_congr (by rw [Expr.erase_connect, Expr.erase_connect, hsame]) _
          | false =>
              obtain rfl : links = .nil := by
                rw [hand] at hend
                exact hend.resolve_right (by simp)
              exact hloose (by simp [hand]) hsame
      | true =>
          obtain rfl : links = .nil := by
            rw [hconnective] at hend
            exact hend.resolve_right (by simp)
          obtain ⟨first, more, hcondition, hsame, hgroup, hcost⟩ :=
            hright.chain hcs hlinks (Or.inl rfl)
          cases hcondition with
          | chain ho hmore =>
              refine ⟨first, more, .of_text hnot ho hmore, fun e => hloose ?_ hsame, hcost⟩
              simp only [Expr.groupedRight, hconnective, Bool.true_and] at hgrouped
              rw [hgroup]
              exact hgrouped

/-- Two sides that are read back are read back with their connective. -/
theorem connect (hleft : Reads size left) (hright : Reads size right)
    (hopening : Opening right.render.toList)
    (hnot : connective.isNegated = true ∨
      NoWord .not (Expr.renderRight connective right).toList) :
    Reads size (.connect connective left right) := by
  constructor
  · intro hatom
    cases hatom
  intro cs rest links hcs hlinks hend
  have hrun : (Expr.connect connective left right).isRun =
      (connective.isAnd && !right.isConnective) := rfl
  obtain ⟨o, more, hmore, hfold, hcost⟩ := hright.link hopening hnot hcs hlinks (by
    refine hend.imp id fun h => ?_
    rcases h with hatom | hrunning
    · cases hatom
    · simpa [hrun] using hrunning)
  have hbehind := Behind.connective connective
    ((Expr.renderRight connective right).toList ++ cs)
  have htext : (Expr.connect connective left right).render.toList ++ cs =
      (Expr.inParens left.groupedLeft left.render).toList ++ ' ' :: (connective.text.toList ++
        ' ' :: ((Expr.renderRight connective right).toList ++ cs)) := by
    simp [Expr.render_connect]
  have hstarts : (Expr.connect connective left right).startsWithGroup =
      (left.groupedLeft || left.startsWithGroup) := rfl
  have hall : (Expr.connect connective left right).complexity.join links.cost =
      (left.complexity.inParens left.groupedLeft).join
        (Syntax.Links.cons connective o more).cost := by
    rw [Expr.complexity_connect, Complexity.join_assoc, Complexity.join_assoc, ← hcost]
    rfl
  rw [htext, hstarts, hall]
  cases hgrouped : left.groupedLeft with
  | true =>
      obtain ⟨first, hfirst, hsame, hgroup, hfirstCost⟩ := hleft.group (' ' :: (connective.text.toList ++
        ' ' :: ((Expr.renderRight connective right).toList ++ cs)))
      refine ⟨first, .cons connective o more, .chain ?_ hmore, ?_, hgroup, by
        rw [hfirstCost]; rfl⟩
      · simpa [Expr.inParens] using hfirst
      · rw [Syntax.Links.toList, hfold]
        exact Chain.fold_congr (by rw [Expr.erase_connect, Expr.erase_connect, hsame]) _
  | false =>
      rw [Expr.inParens, if_neg Bool.false_ne_true, Bool.false_or]
      cases hconnective : left.isConnective with
      | false =>
          obtain ⟨first, hfirst, hsame, hgroup, hfirstCost⟩ := hleft.operand hconnective hbehind
          refine ⟨first, .cons connective o more, .chain hfirst hmore, ?_, ?_, by
            rw [hfirstCost]; rfl⟩
          · rw [Syntax.Links.toList, hfold]
            exact Chain.fold_congr (by rw [Expr.erase_connect, Expr.erase_connect, hsame]) _
          · rw [hgroup, Expr.startsWithGroup_of_not_connective hconnective]
      | true =>
          have hrunning : left.isRun = true := by
            simpa [Expr.groupedLeft, hconnective] using hgrouped
          obtain ⟨first, more', hcondition, hsame, hgroup, hchainCost⟩ :=
            hleft.chain hbehind hmore (Or.inr (Or.inr hrunning))
          refine ⟨first, more', hcondition, ?_, hgroup, hchainCost⟩
          rw [hsame, Syntax.Links.toList, hfold]

end Reads

theorem endsPath_test (t : Test) (cs : List Char) :
    EndsPath (' ' :: (t.text.toList ++ ' ' :: cs)) := by
  cases t with
  | compare comparison =>
      cases comparison <;> exact ⟨Apart.cons _ (by decide), rfl, rfl⟩
  | between => exact ⟨Apart.cons _ (by decide), rfl, rfl⟩
  | within all => cases all <;> exact ⟨Apart.cons _ (by decide), rfl, rfl⟩

namespace Expr

variable {size : Nat}

theorem reads_truth : Reads size .truth := by
  refine .of_operand rfl fun {cs} hcs => ⟨.test .truth, .truth ?_ ⟨"true".toList, ?_, ?_⟩, rfl, rfl, rfl⟩
  · exact noMark_cons _ rfl (by decide)
  · exact @rest_name true "true".toList (by decide) cs
  · exact Rule.ofLength_eq_some.mpr
      (@Keyword.length?_text .true_ rfl _ hcs.apart.name)

theorem reads_test {subject : Path} {t : Test} {e : Expr} {operand : String}
    (hpath : subject.Legible) (hsubject : subject.isImplicit = false)
    (htest : IsTest subject t e operand) (hvalues : e.HasValues) : Reads size e := by
  refine .of_operand htest.not_connective fun {cs} hcs => ?_
  have hends := endsPath_test t (operand.toList ++ cs)
  obtain ⟨p, hp, hsame⟩ := hpath.written size hends
  obtain ⟨hopen, hword⟩ := hpath.start hends.apart.name
  obtain ⟨found, hfound, hsame⟩ := htest.written hvalues size hsame hcs.apart
  have htext : e.render.toList ++ cs =
      subject.render.toList ++ ' ' :: (t.text.toList ++ ' ' :: (operand.toList ++ cs)) := by
    rw [htest.render_eq, renderSubject_of_not_implicit hsubject]
    simp
  rw [htext]
  exact ⟨.test found, .test hopen hword hp (takes_operator t _) hfound, hsame, rfl,
    htest.complexity_eq.symm⟩

theorem reads_call {name : Path} {arguments : List Expr} (hname : name.Legible)
    (himplicit : ∀ e ∈ arguments, e.hasImplicitSubject = false)
    (harguments : ∀ e ∈ arguments, ReadsArgument size e) : Reads size (.call name arguments) := by
  refine .of_operand rfl fun {cs} hcs => ?_
  obtain ⟨as, has, hsame, hcost⟩ := exists_arguments harguments cs
  have hends := endsPath_open
    ((commaSeparated (arguments.map render)).toList ++ ')' :: cs)
  obtain ⟨p, hp, hpath⟩ := hname.written size hends
  obtain ⟨hopen, hword⟩ := hname.start hends.apart.name
  have htext : (call name arguments).render.toList ++ cs = name.render.toList ++
      '(' :: ((commaSeparated (arguments.map render)).toList ++ ')' :: cs) := by
    rw [render_call himplicit]
    simp
  rw [htext]
  refine ⟨.call p as none, .call hopen hword hp (takes_open _) has (.absent hcs.test), ?_, rfl, by
    rw [Syntax.Operand.cost, hcost, complexity]⟩
  simp only [Syntax.Operand.tree, Option.toList_none, List.append_nil, erase, eraseAll_eq_map,
    hpath, hsame]

theorem reads_callTest {name subject : Path} {arguments : List Expr} {t : Test} {e : Expr}
    {operand : String} (hname : name.Legible)
    (harguments : ∀ e ∈ arguments, ReadsArgument size e) (hsubject : subject.isImplicit = true)
    (hquoted : subject.quoted = false) (htest : IsTest subject t e operand)
    (hvalues : e.HasValues) : Reads size (.call name (arguments ++ [e])) := by
  refine .of_operand rfl fun {cs} hcs => ?_
  obtain ⟨as, has, hsame, hcost⟩ :=
    exists_arguments harguments (' ' :: (t.text.toList ++ ' ' :: (operand.toList ++ cs)))
  have hends := endsPath_open ((commaSeparated (arguments.map render)).toList ++
    ')' :: ' ' :: (t.text.toList ++ ' ' :: (operand.toList ++ cs)))
  obtain ⟨p, hp, hpath⟩ := hname.written size hends
  obtain ⟨hopen, hword⟩ := hname.start hends.apart.name
  have himplicit : ∀ span, (Path.implicit span).erase = subject.erase := by
    intro span
    rw [Path.erase_eq_iff, hquoted]
    exact ⟨(String.isEmpty_iff.mp hsubject).symm, rfl⟩
  obtain ⟨found, hfound, htree⟩ := htest.written hvalues size (himplicit _) hcs.apart
  have htext : (call name (arguments ++ [e])).render.toList ++ cs = name.render.toList ++
      '(' :: ((commaSeparated (arguments.map render)).toList ++
        ')' :: ' ' :: (t.text.toList ++ ' ' :: (operand.toList ++ cs))) := by
    rw [render_callTest (htest.hasImplicitSubject_eq.trans hsubject), htest.render_eq,
      renderSubject_of_implicit hsubject]
    simp
  rw [htext]
  refine ⟨.call p as (some found), .call hopen hword hp (takes_open _) has
    (.present (takes_test t _) hfound), ?_, rfl, by
      rw [Syntax.Operand.cost, hcost, complexity, complexityOf_concat, htest.complexity_eq,
        Complexity.join_zero]⟩
  simp only [Syntax.Operand.tree, Option.toList_some, erase, eraseAll_eq_map, hpath, hsame,
    List.map_append, List.map_cons, List.map_nil, htree]

mutual

/-- A legible condition is read back in front of the links that follow it. -/
theorem Legible.reads {e : Expr} : e.Legible → Reads size e
  | .truth => reads_truth
  | .test hpath hsubject htest hvalues => reads_test hpath hsubject htest hvalues
  | .call hname harguments =>
      reads_call hname (fun e he => (harguments e he).not_implicit)
        fun e he => (harguments e he).reads
  | .callTest hname harguments hsubject hquoted htest hvalues =>
      reads_callTest hname (fun e he => (harguments e he).reads) hsubject hquoted htest hvalues
  | .connect hleft hright hnot => hleft.reads.connect hright.reads hright.opening hnot

/-- A legible argument is read back in front of a comma or the closing parenthesis. -/
theorem LegibleArgument.reads {e : Expr} : LegibleArgument e → ReadsArgument size e
  | .value hvalue, cs, hcs => by
      obtain ⟨v, hv, hsame⟩ := hvalue.written size hcs.behind.apart
      exact ⟨.leaf (.value v), .value hv, by simp only [Syntax.Argument.tree, erase, hsame],
        by rw [complexity]; rfl⟩
  | .field hpath hno, cs, hcs => by
      obtain ⟨p, hp, hsame⟩ := hpath.written size hcs.behind.toEndsPath
      rw [← List.append_nil (Path.render _).toList] at hno
      have hno := hpath.opening.noValue Apart.nil hcs.behind.apart hno
      exact ⟨.leaf (.field p), .field hno hp hcs.alone,
        by simp only [Syntax.Argument.tree, erase, hsame], by rw [complexity]; rfl⟩
  | .condition hinner hno, cs, hcs => by
      obtain ⟨c, hc, hsame, hcost⟩ := hinner.reads.condition hcs.behind (hcs.noLinks size)
      rw [← List.append_nil (render _).toList] at hno
      have hno := hinner.opening.noValue Apart.nil hcs.behind.apart hno
      exact ⟨.condition c, .condition hno (hc.notAlone hno) hc, hsame, hcost⟩

end

end Expr

end DocQuery
