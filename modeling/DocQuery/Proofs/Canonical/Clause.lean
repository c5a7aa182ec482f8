import DocQuery.Proofs.Canonical.Condition

/-!
# Clauses that can be read back

Each clause of a canonical text stands on a line of its own, so an item of a
clause is followed by a comma, by the keyword of a later clause, or by nothing.
What is legible in a clause is read back there.  A reader that looks for an alias
stops behind the white space, so it may leave less white space than there was.
-/

namespace DocQuery

open Lexical Written

/-! ## Text behind an item -/

namespace Keyword

/-- The keywords that open the clauses behind FROM. -/
def clauses : List Keyword :=
  [groupBy, where_, orderBy, load, select, include_, update]

/-- The first word of the keyword. -/
def firstWord (keyword : Keyword) : List Char :=
  keyword.words.head?.getD []

/-- The text of a clause starts with the first word of its keyword. -/
theorem exists_firstWord {keyword : Keyword} (hclause : keyword ∈ clauses) (cs : List Char) :
    ∃ more, keyword.text.toList ++ ' ' :: cs = keyword.firstWord ++ more ∧
      Identifier.NoPart more := by
  cases keyword with
  | groupBy => exact ⟨" BY".toList ++ ' ' :: cs, rfl, rfl⟩
  | orderBy => exact ⟨" BY".toList ++ ' ' :: cs, rfl, rfl⟩
  | where_ => exact ⟨' ' :: cs, rfl, rfl⟩
  | load => exact ⟨' ' :: cs, rfl, rfl⟩
  | select => exact ⟨' ' :: cs, rfl, rfl⟩
  | include_ => exact ⟨' ' :: cs, rfl, rfl⟩
  | update => exact ⟨' ' :: cs, rfl, rfl⟩
  | _ => exact absurd hclause (by decide)

theorem isName_firstWord : ∀ keyword ∈ clauses,
    Identifier.isName true keyword.firstWord = true := by
  decide

/-- Each clause is known by the first word of its keyword. -/
theorem opensWith_firstWord : ∀ keyword ∈ clauses, ∀ next ∈ clauses, keyword ≠ next →
    Phrase.opensWith keyword.words next.firstWord = false := by
  decide

/-- No operator, connective or direction starts like a clause. -/
theorem opensWith_firstWord_of_operator : ∀ next ∈ clauses,
    (∀ entry ∈ Grammar.tests,
      Phrase.opensWith (Text.words entry.1.toList) next.firstWord = false) ∧
    names connectives next.firstWord = false ∧ names directions next.firstWord = false ∧
    Phrase.opensWith as_.words next.firstWord = false := by
  decide

/-- The first word of a clause is reserved, and it is not AS. -/
theorem reserved_firstWord : ∀ next ∈ clauses, ∃ keyword ∈ reserved, keyword ≠ as_ ∧
    keyword.text.toList = next.firstWord := by
  decide

end Keyword

/-- The text is at its end, or goes on with one of these clauses on a line of its own. -/
inductive EndsClause (keywords : List Keyword) : List Char → Prop where
  | nil : EndsClause keywords []
  | clause {keyword : Keyword} {cs : List Char} :
      keyword ∈ keywords → keyword ∈ Keyword.clauses →
      EndsClause keywords ('\n' :: (keyword.text.toList ++ ' ' :: cs))

/-- A comma or the end of the clause is next. -/
inductive EndsEntry : List Char → Prop where
  | comma {cs : List Char} : EndsEntry (',' :: cs)
  | clause {keywords : List Keyword} {cs : List Char} :
      EndsClause keywords cs → EndsEntry cs

namespace EndsClause

variable {keywords : List Keyword} {cs : List Char}

/-- Behind the line break is the first word of the next clause, if there is one. -/
theorem next (h : EndsClause keywords cs) :
    cs = [] ∨ ∃ keyword more, keyword ∈ keywords ∧ keyword ∈ Keyword.clauses ∧
      Trivia.rest cs = keyword.firstWord ++ more ∧ Identifier.NoPart more ∧ Apart cs := by
  cases h with
  | nil => exact Or.inl rfl
  | @clause keyword cs hmem hclause =>
      obtain ⟨more, htext, hmore⟩ := Keyword.exists_firstWord hclause cs
      refine Or.inr ⟨keyword, more, hmem, hclause, ?_, hmore, Apart.cons _ (by decide)⟩
      rw [Trivia.rest_blank _ (by decide), htext]
      exact rest_name (Keyword.isName_firstWord keyword hclause) more

theorem noMark (h : EndsClause keywords cs) {c : Char} (hc : Identifier.isStart c = false) :
    NoMark c cs := by
  rcases h.next with rfl | ⟨keyword, more, -, hclause, hrest, -, -⟩
  · rfl
  · have hname := Keyword.isName_firstWord keyword hclause
    exact (noMark_name hname hc more).alike (hrest.trans (rest_name hname more).symm)

theorem behind (h : EndsClause keywords cs) : Behind cs := by
  rcases h.next with rfl | ⟨keyword, more, -, hclause, hrest, hmore, hapart⟩
  · exact Behind.nil
  · refine ⟨⟨hapart, h.noMark (by decide), h.noMark (by decide)⟩, ?_⟩
    rw [Passes, hrest]
    have hclear : ∀ entry ∈ Grammar.tests,
        Phrase.isClear (Text.words entry.1.toList) = true := by
      decide
    exact Rule.firstOf_eq_none_of_name hclear
      (Keyword.opensWith_firstWord_of_operator keyword hclause).1
      (Keyword.isName_firstWord keyword hclause) hmore

/-- No keyword of the list is next if none of them starts like a clause. -/
theorem passes (h : EndsClause keywords cs) {others : List Keyword}
    (hothers : ∀ next ∈ Keyword.clauses, Keyword.names others next.firstWord = false) :
    Passes (Rule.anyKeyword others) cs := by
  rcases h.next with rfl | ⟨keyword, more, -, hclause, hrest, hmore, -⟩
  · exact (Rule.sized_firstOf _).nil
  · rw [Passes, hrest]
    exact Keyword.noneOf_at_name (hothers keyword hclause)
      (Keyword.isName_firstWord keyword hclause) hmore

theorem noLinks (h : EndsClause keywords cs) (size : Nat) : Links size cs .nil cs :=
  .nil (h.passes fun next hnext => (Keyword.opensWith_firstWord_of_operator next hnext).2.1)

/-- Neither a sort type nor a direction is next. -/
theorem noOrder (h : EndsClause keywords cs) :
    NoWord .as_ cs ∧ Passes (Rule.anyKeyword Keyword.directions) cs := by
  refine ⟨?_, h.passes fun next hnext =>
    (Keyword.opensWith_firstWord_of_operator next hnext).2.2.1⟩
  rcases h.next with rfl | ⟨keyword, more, -, hclause, hrest, hmore, -⟩
  · rfl
  · rw [NoWord, Passes, hrest]
    exact Keyword.noKeyword_at_name (Keyword.opensWith_firstWord_of_operator keyword hclause).2.2.2
      (Keyword.isName_firstWord keyword hclause) hmore

/-- A clause that is not among the next ones is absent. -/
theorem noWord (h : EndsClause keywords cs) {keyword : Keyword} (hclause : keyword ∈ Keyword.clauses)
    (hnext : keyword ∉ keywords) : NoWord keyword cs := by
  rcases h.next with rfl | ⟨next, more, hmem, hclause', hrest, hmore, -⟩
  · exact (Rule.sized_phrase _).nil
  · rw [NoWord, Passes, hrest]
    exact Keyword.noKeyword_at_name
      (Keyword.opensWith_firstWord keyword hclause next hclause' fun heq => hnext (heq ▸ hmem))
      (Keyword.isName_firstWord next hclause') hmore

/-- No alias is next.  A reader that looks for one may skip what is blank. -/
theorem noAlias (h : EndsClause keywords cs) (size : Nat) (needsAs : Bool) :
    ∃ rest, AsName size needsAs cs none rest ∧ Alike rest cs := by
  rcases h.next with rfl | ⟨next, more, -, hclause, hrest, hmore, -⟩
  · cases needsAs with
    | true => exact ⟨[], .needed rfl rfl, Alike.refl _⟩
    | false => exact ⟨[], .absent rfl rfl (.blank ⟨rfl, rfl⟩), Alike.refl _⟩
  · obtain ⟨keyword, hmem, hne, hword⟩ := Keyword.reserved_firstWord next hclause
    have htake : Takes (Rule.anyKeyword Keyword.reserved) cs next.firstWord keyword more := by
      refine ⟨hrest, ?_⟩
      rw [← hword]
      exact Keyword.anyKeyword_text hmem (by decide) hmore
    refine ⟨_, .clause htake hne, ?_⟩
    exact (rest_name (Keyword.isName_firstWord next hclause) more).trans hrest.symm

theorem mono (h : EndsClause keywords cs) {more : List Keyword} (hmore : keywords ⊆ more) :
    EndsClause more cs := by
  cases h with
  | nil => exact .nil
  | clause hmem hclause => exact .clause (hmore hmem) hclause

/-- The text of a clause, if it is there, and of later ones. -/
theorem renderClause {α : Type} (h : EndsClause keywords cs) {keyword : Keyword}
    (hclause : keyword ∈ Keyword.clauses) (render : α → String) (found : Option α) :
    EndsClause (keyword :: keywords)
      ((Query.renderClause keyword.text render found).toList ++ cs) := by
  cases found with
  | none => exact h.mono (List.subset_cons_self _ _)
  | some a =>
      have htext : (Query.renderClause keyword.text render (some a)).toList ++ cs =
          '\n' :: (keyword.text.toList ++ ' ' :: ((render a).toList ++ cs)) := by
        simp [Query.renderClause]
      rw [htext]
      exact .clause List.mem_cons_self hclause

end EndsClause

namespace EndsEntry

variable {cs : List Char}

theorem behind (h : EndsEntry cs) : Behind cs := by
  cases h with
  | comma => exact Behind.comma _
  | clause h => exact h.behind

theorem noOpen (h : EndsEntry cs) : NoMark '(' cs := by
  cases h with
  | comma => exact noMark_cons _ rfl (by decide)
  | clause h => exact h.noMark (by decide)

theorem noOrder (h : EndsEntry cs) :
    NoWord .as_ cs ∧ Passes (Rule.anyKeyword Keyword.directions) cs := by
  cases h with
  | comma => exact ⟨rfl, rfl⟩
  | clause h => exact h.noOrder

theorem noAlias (h : EndsEntry cs) (size : Nat) (needsAs : Bool) :
    ∃ rest, AsName size needsAs cs none rest ∧ Alike rest cs := by
  cases h with
  | comma =>
      cases needsAs with
      | true => exact ⟨_, .needed rfl rfl, Alike.refl _⟩
      | false => exact ⟨_, .absent rfl rfl (.blank ⟨rfl, rfl⟩), Alike.refl _⟩
  | clause h => exact h.noAlias size needsAs

end EndsEntry

/-! ## Items and clauses -/

namespace Complexity

/-- Several pieces side by side. -/
def joinAll : List Complexity → Complexity
  | [] => zero
  | cost :: costs => cost.join (joinAll costs)

end Complexity

/--
The text is read back as this part up to positions, at this cost, in front of
any text that ends the part.
-/
structure ReadsBack {α : Type} (part : Written.Part α) (erase : α → α)
    (ends : List Char → Prop) (text : List Char) (a : α) (cost : Complexity) : Prop where
  reads : ∀ {cs ds : List Char}, ends cs → Alike ds (text ++ cs) →
    ∃ b rest, part ds b cost rest ∧ erase b = erase a ∧ Alike rest cs

namespace Written

/-- Neither a letter nor a quote is next. -/
theorem noSegment_of_head {c : Char} {cs more : List Char} (hsplit : Trivia.rest cs = c :: more)
    (hstart : Identifier.isStart c = false) (hquote : Quoted.isQuote c = false) :
    NoSegment true cs := by
  constructor
  · rw [Passes, hsplit, Rule.identifier, Rule.ofLength_eq_none, Identifier.length?,
      Identifier.mayOpen, if_pos rfl, if_neg (by simp [hstart])]
  · rw [Passes, hsplit, Rule.quoted, Quoted.size?, if_neg (by simp [hquote])]
    rfl

theorem mark_alike {c : Char} {cs ds : List Char} (h : Alike ds (c :: cs)) (hc : isSolid c = true) :
    Mark c ds cs :=
  (mark_cons cs hc).alike h

end Written

namespace ReadsBack

variable {α : Type} {erase : α → α} {render : α → String} {cost : α → Complexity}

/-- Items that are read back are read back with commas between them. -/
theorem items {item : Written.Part α} {keywords : List Keyword} {as : List α} (hne : as ≠ [])
    (h : ∀ a ∈ as, ReadsBack item erase EndsEntry (render a).toList a (cost a)) :
    ReadsBack (Items item) (List.map erase) (EndsClause keywords)
      (Query.renderList render as).toList as (Complexity.joinAll (as.map cost)) := by
  constructor
  intro cs ds hcs hds
  induction as generalizing ds with
  | nil => exact absurd rfl hne
  | cons a as ih =>
      cases as with
      | nil =>
          have htext : (Query.renderList render [a]).toList = (render a).toList := by
            simp [Query.renderList, Expr.commaSeparated_cons]
          rw [htext] at hds
          obtain ⟨b, rest, hb, hsame, hrest⟩ := (h a List.mem_cons_self).reads (.clause hcs) hds
          refine ⟨[b], rest, ?_, by rw [List.map_cons, hsame]; rfl, hrest⟩
          have hlast : Items item ds [b] (cost a) rest :=
            .last hb ((hcs.noMark (by decide)).alike hrest)
          simpa [Complexity.joinAll] using hlast
      | cons next as =>
          have htext : (Query.renderList render (a :: next :: as)).toList ++ cs =
              (render a).toList ++
                ',' :: ' ' :: ((Query.renderList render (next :: as)).toList ++ cs) := by
            simp [Query.renderList, Expr.commaSeparated_cons]
          rw [htext] at hds
          obtain ⟨b, r, hb, hsame, hr⟩ := (h a List.mem_cons_self).reads .comma hds
          obtain ⟨bs, rest, hbs, hothers, hrest⟩ := ih (List.cons_ne_nil _ _)
            (fun d hd => h d (List.mem_cons_of_mem _ hd)) (alike_blank _)
          exact ⟨b :: bs, rest, .more hb (mark_alike hr rfl) hbs, by
            rw [List.map_cons, hsame, hothers]; rfl, hrest⟩

/-- A clause that is read back behind its keyword is read back with it, or it is absent. -/
theorem clause {body : Written.Part α} {keywords : List Keyword} {keyword : Keyword}
    {found : Option α} (hclause : keyword ∈ Keyword.clauses) (hnext : keyword ∉ keywords)
    (h : ∀ a ∈ found, ReadsBack body erase (EndsClause keywords) (render a).toList a (cost a)) :
    ReadsBack (Clause keyword body) (Option.map erase) (EndsClause keywords)
      (Query.renderClause keyword.text render found).toList found
      ((found.map cost).getD .zero) := by
  constructor
  intro cs ds hcs hds
  cases found with
  | none => exact ⟨none, ds, .absent ((hcs.noWord hclause hnext).alike hds), rfl, hds⟩
  | some a =>
      have htext : (Query.renderClause keyword.text render (some a)).toList ++ cs =
          '\n' :: (keyword.text.toList ++ ' ' :: ((render a).toList ++ cs)) := by
        simp [Query.renderClause]
      have hword : Word keyword ('\n' :: (keyword.text.toList ++ ' ' :: ((render a).toList ++ cs)))
          (' ' :: ((render a).toList ++ cs)) := by
        refine ⟨keyword.text.toList, ?_⟩
        cases keyword <;> exact ⟨rfl, rfl⟩
      rw [htext] at hds
      obtain ⟨b, rest, hb, hsame, hrest⟩ := (h a rfl).reads hcs (alike_blank _)
      exact ⟨some b, rest, .present (hword.alike hds) hb, congrArg some hsame, hrest⟩

end ReadsBack

/-! ## Aliases, fields and scripts -/

namespace Path

/-- The canonical text of an alias is read back as the alias. -/
def LegibleAlias (text : String) : Prop :=
  if isBare text.toList then Spelled text else QuoteSafe text

theorem LegibleAlias.written {text : String} (h : LegibleAlias text) (size : Nat)
    (needsAs : Bool) {cs : List Char} (hcs : EndsPath cs) :
    AsName size needsAs ((renderAlias text).toList ++ cs) (some text) cs := by
  have htake : ∀ more, Takes (Rule.anyKeyword Keyword.reserved) (" AS ".toList ++ more)
      "AS".toList .as_ (' ' :: more) := fun _ => ⟨rfl, rfl⟩
  have hnamed : ∀ {more : List Char} {p : Path}, Written.Path size more p cs →
      AsName size needsAs (" AS ".toList ++ more) (some p.text) cs := fun hpath =>
    .named (htake _) (hpath.alike (alike_blank _))
  rw [renderAlias, String.toList_append, List.append_assoc]
  unfold LegibleAlias at h
  split at h
  · next hbare =>
      rw [if_pos hbare]
      obtain ⟨-, -, -, -, -, -, -, hagain⟩ := h.split
      obtain ⟨span, hpath⟩ := hagain size hcs
      exact hnamed hpath
  · next hbare =>
      rw [if_neg hbare]
      obtain ⟨span, hpath⟩ := h.path size hcs
      exact hnamed hpath

end Path

namespace Script

/-- The script ends where its text does. -/
def Legible (script : Script) : Prop :=
  Block.length? script.text.toList = some script.text.toList.length

theorem Legible.brace {script : Script} (h : script.Legible) :
    ∃ body, script.text.toList = '{' :: body :=
  (@Block.length?_append script.text.toList [] (by rw [List.append_nil]; exact h)).1

theorem Legible.written {script : Script} (h : script.Legible) (size : Nat) {cs ds : List Char}
    (hds : Alike ds (script.text.toList ++ cs)) :
    ∃ found, Written.Script size ds found cs ∧ found.erase = script.erase := by
  obtain ⟨⟨body, hbody⟩, hagain⟩ := @Block.length?_append script.text.toList []
    (by rw [List.append_nil]; exact h)
  have hrest : Trivia.rest (script.text.toList ++ cs) = script.text.toList ++ cs := by
    rw [hbody]
    exact Trivia.rest_solid _ (by decide)
  refine ⟨_, .mk ⟨Eq.trans hds hrest, Rule.ofLength_eq_some.mpr (hagain cs)⟩, ?_⟩
  simp [erase, Token.text, tokenAt]

end Script

namespace Expr

/-- The field or the call is read back from its canonical text. -/
inductive LegibleKey : Expr → Prop where
  | field {path : Path} : path.Legible → LegibleKey (.field path)
  | call {name : Path} {arguments : List Expr} :
      name.Legible → (∀ e ∈ arguments, LegibleArgument e) → LegibleKey (.call name arguments)

theorem LegibleKey.opening {e : Expr} (h : e.LegibleKey) : Opening e.render.toList := by
  cases h with
  | field hpath => exact hpath.opening
  | call hname harguments =>
      rw [render_call fun e he => (harguments e he).not_implicit]
      exact hname.opening.append fun _ => Apart.cons _ (by decide)

theorem LegibleKey.written {e : Expr} (h : e.LegibleKey) (size : Nat) {cs ds : List Char}
    (hcs : EndsPath cs) (hopen : NoMark '(' cs) (hds : Alike ds (e.render.toList ++ cs)) :
    ∃ key, FieldOrCall size ds key e.complexity cs ∧ key.erase = e.erase := by
  cases h with
  | field hpath =>
      obtain ⟨p, hp, hsame⟩ := hpath.written size hcs
      exact ⟨.field p, .field (hp.alike hds) hopen, by simp only [erase, hsame]⟩
  | @call name arguments hname harguments =>
      obtain ⟨as, has, hsame, hcost⟩ :=
        exists_arguments (fun e he => (harguments e he).reads) cs
      obtain ⟨p, hp, hpath⟩ := hname.written size (endsPath_open _)
      have htext : (Expr.call name arguments).render.toList ++ cs = name.render.toList ++
          '(' :: ((commaSeparated (arguments.map render)).toList ++ ')' :: cs) := by
        rw [render_call fun e he => (harguments e he).not_implicit]
        simp
      rw [htext] at hds
      refine ⟨.call p as.trees, ?_, ?_⟩
      · rw [complexity, ← hcost]
        exact .call (hp.alike hds) (mark_cons _ rfl) has
      · simp only [erase, eraseAll_eq_map, hpath, hsame]

end Expr

/-! ## Items of the clauses -/

theorem Path.Legible.readsBack {path : Path} (h : path.Legible) (size : Nat) :
    ReadsBack (GroupField size) erase EndsEntry path.render.toList path .zero := by
  constructor
  intro cs ds hcs hds
  obtain ⟨p, hp, hsame⟩ := h.written size hcs.behind.toEndsPath
  exact ⟨p, cs, .mk (hp.alike hds), hsame, Alike.refl cs⟩

theorem Expr.Legible.readsBack {e : Expr} (h : e.Legible) (size : Nat) (keywords : List Keyword) :
    ReadsBack (Filter size) erase (EndsClause keywords) e.render.toList e e.complexity := by
  constructor
  intro cs ds hcs hds
  obtain ⟨c, hc, hsame, hcost⟩ := h.reads.condition hcs.behind (hcs.noLinks size)
  exact ⟨c.tree, cs, hcost ▸ .mk (hc.alike hds), hsame, Alike.refl cs⟩

namespace OrderTerm

/-- The text of the direction of a term. -/
theorem ascending_written (ascending : Bool) {cs : List Char} (hcs : EndsEntry cs) :
    Ascending ((if ascending then "" else " DESC").toList ++ cs) ascending cs := by
  cases ascending with
  | true => exact .implicit hcs.noOrder.2
  | false =>
      have htake : Takes (Rule.anyKeyword Keyword.directions) (" DESC".toList ++ cs)
          "DESC".toList .desc cs := by
        refine ⟨rfl, ?_⟩
        exact @Keyword.anyKeyword_text Keyword.directions .desc (by decide) (by decide) _
          hcs.behind.apart.name
      exact .explicit htake

/-- The text of the sort type of a term. -/
theorem sortType_written (sortType : DocQuery.SortType) {cs : List Char} (hcs : NoWord .as_ cs)
    (hpart : Identifier.NoPart cs) :
    Written.SortType (((sortType.text?.map (" AS " ++ ·)).getD "").toList ++ cs) sortType cs := by
  have has : ∀ more, Word .as_ (" AS ".toList ++ more) (' ' :: more) :=
    fun _ => ⟨"AS".toList, rfl, rfl⟩
  have htable : ∀ entry ∈ DocQuery.SortType.table,
      Identifier.isName true entry.1.toList = true ∧
        entry.1.toList.all Identifier.isPart = true := by
    decide
  have htake : ∀ {text : String}, Identifier.isName true text.toList = true →
      (DocQuery.SortType.table.find? fun entry => Text.sameWord entry.1.toList text.toList) =
        some (text, sortType) →
      Takes (Rule.firstOf DocQuery.SortType.table) (' ' :: (text.toList ++ cs)) text.toList
        sortType cs := by
    intro text hname hfound
    refine ⟨(Trivia.rest_blank _ (by decide)).trans (rest_name hname cs), ?_⟩
    rw [Rule.firstOf_name htable hname hpart, hfound]
    rfl
  cases sortType with
  | implicit => exact .implicit hcs
  | string => exact .explicit (has _) (@htake "string" (by decide) (by decide))
  | long => exact .explicit (has _) (@htake "long" (by decide) (by decide))
  | double => exact .explicit (has _) (@htake "double" (by decide) (by decide))
  | alphaNumeric => exact .explicit (has _) (@htake "alphaNumeric" (by decide) (by decide))

/-- The key of the term is read back. -/
def Legible (term : OrderTerm) : Prop :=
  term.key.LegibleKey

theorem Legible.readsBack {term : OrderTerm} (h : term.Legible) (size : Nat) :
    ReadsBack (Written.OrderTerm size) erase EndsEntry term.render.toList term
      term.key.complexity := by
  constructor
  intro cs ds hcs hds
  obtain ⟨key, sortType, ascending⟩ := term
  -- what stands behind the key, from its end backwards
  let direction := (if ascending then "" else " DESC").toList ++ cs
  let behind := ((sortType.text?.map (" AS " ++ ·)).getD "").toList ++ direction
  have hdirection : NoWord .as_ direction ∧ EndsPath direction ∧ NoMark '(' direction := by
    cases ascending with
    | true => exact ⟨hcs.noOrder.1, hcs.behind.toEndsPath, hcs.noOpen⟩
    | false => exact ⟨rfl, ⟨Apart.cons _ (by decide), rfl, rfl⟩, rfl⟩
  have hbehind : EndsPath behind ∧ NoMark '(' behind := by
    cases sortType with
    | implicit => exact hdirection.2
    | _ => exact ⟨⟨Apart.cons _ (by decide), rfl, rfl⟩, rfl⟩
  have htext : render ⟨key, sortType, ascending⟩ = key.render ++
      (sortType.text?.map (" AS " ++ ·)).getD "" ++ if ascending then "" else " DESC" := rfl
  rw [htext, String.toList_append, String.toList_append, List.append_assoc,
    List.append_assoc] at hds
  obtain ⟨found, hfound, hsame⟩ := Expr.LegibleKey.written h size hbehind.1 hbehind.2 hds
  exact ⟨_, cs, .mk hfound (sortType_written sortType hdirection.1 hdirection.2.1.apart.name)
    (ascending_written ascending hcs), by rw [erase, erase, hsame], Alike.refl cs⟩

end OrderTerm

namespace Projection

/-- What is projected: a field, a call, or a value that can not be a name. -/
inductive LegibleBody : Expr → Prop where
  | key {e : Expr} : e.LegibleKey → LegibleBody e
  | value {v : Value} :
      v.Spelled → (v.kind = .long ∨ v.kind = .double ∨ v.kind = .parameter) →
      LegibleBody (.value v)

/-- The entry is read back: its body is, and so is its alias, if one is written. -/
structure Legible (entry : Projection) : Prop where
  body : LegibleBody entry.body
  /-- A value has an alias. -/
  aliased : ∀ v, entry.body = .value v → entry.asName.isSome = true
  asName : entry.hasInferredAlias = false → ∀ asName ∈ entry.asName, Path.LegibleAlias asName

/-- A number or a parameter starts with no letter and with no quote. -/
theorem head_of_value {size : Nat} {v : Value} {cs rest : List Char}
    (h : Written.Value size cs v rest)
    (hkind : v.kind = .long ∨ v.kind = .double ∨ v.kind = .parameter) :
    ∃ c more, Trivia.rest cs = c :: more ∧ Identifier.isStart c = false ∧
      Quoted.isQuote c = false := by
  cases h with
  | number htake =>
      obtain ⟨c, more, hsplit, hc⟩ := Numeral.head_of_size? htake.measured
      refine ⟨c, more, htake.split.trans hsplit, ?_, ?_⟩
      · rcases hc with hdigit | ⟨rfl, -⟩
        · exact not_isStart_of_isDigit hdigit
        · decide
      · rcases hc with hdigit | ⟨rfl, -⟩
        · rw [← Bool.not_eq_true, Quoted.isQuote_eq_true]
          rintro (rfl | rfl) <;> cases hdigit
        · decide
  | quoted _ _ => simp at hkind
  | @literal _ _ keyword _ _ _ => cases keyword <;> simp [Grammar.literalKind] at hkind
  | parameter _ _ _ hmark _ => exact ⟨_, _, hmark.split, by decide, by decide⟩

/-- A number or a parameter is not taken for a name. -/
theorem noPath_of_value {size : Nat} {v : Value} {cs rest : List Char}
    (h : Written.Value size cs v rest)
    (hkind : v.kind = .long ∨ v.kind = .double ∨ v.kind = .parameter) : NoPath cs cs := by
  obtain ⟨c, more, hsplit, hstart, hquote⟩ := head_of_value h hkind
  exact .blank (noSegment_of_head hsplit hstart hquote)

/-- No keyword comes first in the text of a number or a parameter. -/
theorem noWord_of_value {v : Value} (h : v.Spelled)
    (hkind : v.kind = .long ∨ v.kind = .double ∨ v.kind = .parameter) (keyword : Keyword)
    {cs : List Char} (hcs : Apart cs) : NoWord keyword ((Expr.value v).render.toList ++ cs) := by
  obtain ⟨found, hfound, hsame⟩ := h.written 0 hcs
  obtain ⟨c, more, hsplit, hstart, -⟩ := head_of_value hfound (by
    rw [(Value.erase_eq_iff.mp hsame).2.1]
    exact hkind)
  rw [NoWord, Passes, Expr.render, hsplit]
  exact Keyword.noKeyword_at_mark keyword hstart more

theorem LegibleBody.written {e : Expr} (h : LegibleBody e) (size : Nat) {cs ds : List Char}
    (hcs : EndsPath cs) (hopen : NoMark '(' cs) (hds : Alike ds (e.render.toList ++ cs)) :
    ∃ body, Projected size ds body e.complexity cs ∧ body.erase = e.erase := by
  cases h with
  | key hkey =>
      obtain ⟨key, hfound, hsame⟩ := hkey.written size hcs hopen hds
      exact ⟨key, .named hfound, hsame⟩
  | @value v hspelled hkind =>
      obtain ⟨found, hfound, hsame⟩ := hspelled.written size hcs.apart
      have hno := noPath_of_value hfound (by
        rw [(Value.erase_eq_iff.mp hsame).2.1]
        exact hkind)
      obtain ⟨r, hno, hr⟩ := hno.alike hds
      refine ⟨.value found, ?_, by simp only [Expr.erase, hsame]⟩
      rw [Expr.complexity]
      exact .value hno (hfound.alike hr)

/-- Whether a keyword comes first does not depend on what follows the body. -/
theorem LegibleBody.noWord {e : Expr} (h : LegibleBody e) {keyword : Keyword}
    (hsingle : keyword.isSingle = true) (hno : NoWord keyword e.render.toList) {cs : List Char}
    (hcs : Apart cs) : NoWord keyword (e.render.toList ++ cs) := by
  cases h with
  | key hkey =>
      rw [← List.append_nil e.render.toList] at hno
      exact hkey.opening.noWord hsingle Apart.nil hcs hno
  | value hspelled hkind => exact noWord_of_value hspelled hkind keyword hcs

/-- An entry starts with its body. -/
theorem exists_alias (entry : Projection) : ∃ more : List Char,
    entry.render.toList = entry.body.render.toList ++ more ∧
      ∀ {cs : List Char}, Apart cs → Apart (more ++ cs) := by
  rw [render, String.toList_append]
  refine ⟨_, rfl, fun hcs => ?_⟩
  split
  · exact hcs
  · cases entry.asName with
    | none => exact hcs
    | some asName =>
        rw [Option.map_some, Option.getD_some, renderAlias, String.toList_append,
          List.append_assoc]
        exact Apart.cons _ (by decide)

/-- An alias is written for no value that has it as its text anyway. -/
theorem inferredAlias_of_erase {e d : Expr} (h : e.erase = d.erase) :
    Grammar.inferredAlias e = Grammar.inferredAlias d := by
  cases e with
  | value v =>
      cases d with
      | value w =>
          simp only [Expr.erase, Expr.value.injEq] at h
          simp only [Grammar.inferredAlias, ← Value.text_erase v, h, Value.text_erase]
      | _ => simp only [Expr.erase] at h; cases h
  | _ =>
      cases d with
      | value w => simp only [Expr.erase] at h; cases h
      | _ => rfl

theorem Legible.readsBack {entry : Projection} (h : entry.Legible) (size : Nat) (needsAs : Bool) :
    ReadsBack (Written.Projection size needsAs) erase EndsEntry entry.render.toList entry
      entry.body.complexity := by
  constructor
  intro cs ds hcs hds
  obtain ⟨body, asName⟩ := entry
  obtain ⟨hbody, haliased, hasName⟩ := h
  dsimp only at hbody haliased hasName
  by_cases hinferred : hasInferredAlias ⟨body, asName⟩ = true
  · rw [render, if_pos hinferred, String.append_empty] at hds
    obtain ⟨found, hfound, hsame⟩ := hbody.written size hcs.behind.toEndsPath hcs.noOpen hds
    obtain ⟨rest, hnone, hrest⟩ := hcs.noAlias size needsAs
    refine ⟨_, rest, .mk hfound hnone, ?_, hrest⟩
    rw [erase, erase, hsame, inferredAlias_of_erase hsame]
    unfold hasInferredAlias at hinferred
    split at hinferred
    · next heq heq' =>
        dsimp only at heq heq'
        rw [heq, heq', Grammar.inferredAlias, eq_of_beq hinferred]
        rfl
    · cases hinferred
  · rw [Bool.not_eq_true] at hinferred
    cases asName with
    | none =>
        rw [render, if_neg (by simp [hinferred]), Option.map_none, Option.getD_none,
          String.append_empty] at hds
        obtain ⟨found, hfound, hsame⟩ := hbody.written size hcs.behind.toEndsPath hcs.noOpen hds
        obtain ⟨rest, hnone, hrest⟩ := hcs.noAlias size needsAs
        refine ⟨_, rest, .mk hfound hnone, ?_, hrest⟩
        rw [erase, erase, hsame, inferredAlias_of_erase hsame]
        cases body with
        | value v => cases haliased v rfl
        | _ => rfl
    | some asName =>
        rw [render, if_neg (by simp [hinferred]), Option.map_some, Option.getD_some,
          String.toList_append, List.append_assoc] at hds
        have hnamed := (hasName hinferred asName rfl).written size needsAs hcs.behind.toEndsPath
        have hends : EndsPath ((renderAlias asName).toList ++ cs) ∧
            NoMark '(' ((renderAlias asName).toList ++ cs) := by
          rw [renderAlias, String.toList_append, List.append_assoc]
          exact ⟨⟨Apart.cons _ (by decide), rfl, rfl⟩, rfl⟩
        obtain ⟨found, hfound, hsame⟩ := hbody.written size hends.1 hends.2 hds
        exact ⟨_, cs, .mk hfound hnamed, by rw [erase, erase, hsame]; rfl, Alike.refl cs⟩

end Projection

namespace Expr

/-- The entry of INCLUDE is read back: a value, or a field that is not taken for one. -/
inductive LegibleInclude : Expr → Prop where
  | value {v : Value} : v.Spelled → LegibleInclude (.value v)
  | field {path : Path} :
      path.Legible → NoValue path.render.toList → LegibleInclude (.field path)

theorem LegibleInclude.readsBack {e : Expr} (h : e.LegibleInclude) (size : Nat) :
    ReadsBack (Include size) erase EndsEntry e.render.toList e e.complexity := by
  constructor
  intro cs ds hcs hds
  cases h with
  | value hvalue =>
      obtain ⟨v, hv, hsame⟩ := hvalue.written size hcs.behind.apart
      rw [complexity]
      exact ⟨.value v, cs, .value (hv.alike hds), by simp only [erase, hsame], Alike.refl cs⟩
  | @field path hpath hno =>
      obtain ⟨p, hp, hsame⟩ := hpath.written size hcs.behind.toEndsPath
      have hno : NoValue (path.render.toList ++ []) := by rwa [List.append_nil]
      have hno := hpath.opening.noValue Apart.nil hcs.behind.apart hno
      rw [complexity]
      exact ⟨.field p, cs, .field (hno.alike hds) (hp.alike hds), by simp only [erase, hsame],
        Alike.refl cs⟩

end Expr

/-! ## What follows SELECT -/

namespace Written

/-- Neither a star nor a brace starts what is projected. -/
theorem Projected.noMark {size : Nat} {cs rest : List Char} {e : Expr} {cost : Complexity}
    (h : Projected size cs e cost rest) {c : Char} (hc : c = '*' ∨ c = '{') : NoMark c cs := by
  have hsegment : ∀ {token r : List Char} {text : String} {quoted : Bool},
      Segment true cs token text quoted r → NoMark c cs := by
    intro token r text quoted h
    cases h with
    | name htake => exact noMark_of_takes htake fun _ => by rcases hc with rfl | rfl <;> rfl
    | quoted _ htake => exact noMark_of_takes htake fun _ => by rcases hc with rfl | rfl <;> rfl
  have hpath : ∀ {p : DocQuery.Path} {r : List Char}, Path size cs p r → NoMark c cs := by
    rintro p r ⟨h, -, -⟩
    exact hsegment h
  cases h with
  | named hnamed =>
      cases hnamed with
      | field h _ => exact hpath h
      | call h _ _ => exact hpath h
  | value hno hvalue =>
      cases hno with
      | broken h _ _ => exact hsegment h
      | reserved h _ => exact hsegment (.name h)
      | blank _ =>
          cases hvalue with
          | number htake => exact noMark_of_takes htake fun _ => by rcases hc with rfl | rfl <;> rfl
          | quoted _ htake =>
              exact noMark_of_takes htake fun _ => by rcases hc with rfl | rfl <;> rfl
          | literal _ _ htake =>
              exact noMark_of_takes htake fun _ => by rcases hc with rfl | rfl <;> rfl
          | parameter _ _ _ hmark _ =>
              exact noMark_of_takes hmark fun _ => by rcases hc with rfl | rfl <;> rfl

theorem Items.noMark {size : Nat} {needsAs : Bool} {cs rest : List Char}
    {entries : List DocQuery.Projection} {cost : Complexity}
    (h : Items (Projection size needsAs) cs entries cost rest) {c : Char}
    (hc : c = '*' ∨ c = '{') : NoMark c cs := by
  have hentry : ∀ {entry : DocQuery.Projection} {cost : Complexity} {r : List Char},
      Projection size needsAs cs entry cost r → NoMark c cs := by
    rintro _ _ _ ⟨hbody, -⟩
    exact hbody.noMark hc
  cases h with
  | last h _ => exact hentry h
  | more h _ _ => exact hentry h

theorem passes_block {cs : List Char} (h : NoMark '{' cs) : Passes Rule.block cs := by
  rw [NoMark, Passes, Rule.char_eq_none] at h
  rw [Passes, Rule.block, Rule.ofLength_eq_none, Block.length?.eq_def]
  split
  · next heq =>
      rw [heq] at h
      exact absurd rfl h
  · rfl

end Written

end DocQuery
