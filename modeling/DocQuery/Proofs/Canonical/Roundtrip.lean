import DocQuery.Proofs.Canonical.Plain
import DocQuery.Proofs.Canonical.Query

/-!
# Plain queries are read back

A query is plain if all its names are.  Its canonical text is parsed as the same
query, and it is the canonical text of what is parsed.  A value that is projected
could be taken for a name only in front of a dot or a bracket, where a reader is
stuck: no clause goes on there, and the text does not end there either.
-/

namespace DocQuery

open Lexical

namespace Written

variable {size : Nat} {cs rest : List Char}

/-! ## Text that nothing goes on with -/

/-- A dot or a bracket is next. -/
def Stuck (cs : List Char) : Prop :=
  ∃ c more, Trivia.rest cs = c :: more ∧ (c = '.' ∨ c = '[')

namespace Stuck

theorem noMark (h : Stuck cs) {c : Char} (hc : c ≠ '.' ∧ c ≠ '[') : NoMark c cs := by
  obtain ⟨d, more, hsplit, hd⟩ := h
  refine noMark_of_head hsplit ?_
  rintro rfl
  rcases hd with rfl | rfl
  · exact hc.1 rfl
  · exact hc.2 rfl

theorem head_eq (h : Stuck cs) :
    ∃ c more, Trivia.rest cs = c :: more ∧ Identifier.isStart c = false ∧
      Quoted.isQuote c = false := by
  obtain ⟨c, more, hsplit, rfl | rfl⟩ := h
  · exact ⟨_, more, hsplit, rfl, rfl⟩
  · exact ⟨_, more, hsplit, rfl, rfl⟩

theorem noWord (h : Stuck cs) (keyword : Keyword) : NoWord keyword cs := by
  obtain ⟨c, more, hsplit, hstart, -⟩ := h.head_eq
  rw [NoWord, Passes, hsplit]
  exact Keyword.noKeyword_at_mark keyword hstart more

theorem noSegment (h : Stuck cs) : NoSegment true cs := by
  obtain ⟨c, more, hsplit, hstart, hquote⟩ := h.head_eq
  exact noSegment_of_head hsplit hstart hquote

theorem not_keyword (h : Stuck cs) {token : List Char} {keyword : Keyword} :
    ¬ Takes (Rule.anyKeyword Keyword.reserved) cs token keyword rest := by
  intro htake
  obtain ⟨c, more, hsplit, hstart, -⟩ := h.head_eq
  obtain ⟨hname, -, -⟩ := Keyword.name_of_anyKeyword (by decide) htake.measured
  have hhead := htake.split
  cases token with
  | nil => cases hname
  | cons d token =>
      rw [hsplit] at hhead
      cases hhead
      rw [Identifier.isName, Identifier.mayOpen, if_pos rfl, hstart] at hname
      cases hname

theorem ne_nil (h : Stuck cs) : Trivia.rest cs ≠ [] := by
  obtain ⟨c, more, hsplit, -⟩ := h
  rw [hsplit]
  exact List.cons_ne_nil c more

/-- No alias is read. -/
theorem asName (h : Stuck cs) {needsAs : Bool} {asName : Option String}
    (hasName : AsName size needsAs cs asName rest) : Stuck rest := by
  have hpath : ∀ {p : DocQuery.Path} {r : List Char}, ¬ Path size cs p r := by
    rintro p r ⟨hsegment, -, -⟩
    cases hsegment with
    | name htake => exact htake.not_passes h.noSegment.name
    | quoted _ htake => exact htake.not_passes h.noSegment.quoted
  cases hasName with
  | named htake _ => exact absurd htake h.not_keyword
  | clause htake _ => exact absurd htake h.not_keyword
  | needed _ _ => exact h
  | bare _ _ hnamed => exact absurd hnamed hpath
  | absent _ _ hno =>
      cases hno with
      | blank _ => exact h
      | reserved htake _ => exact absurd h.noSegment.name htake.not_passes
      | broken _ _ _ => exact h

/-- A clause is absent. -/
theorem clause (h : Stuck cs) {α : Type} {keyword : Keyword} {body : Written.Part α}
    {found : Option α} {cost : Complexity} (hclause : Clause keyword body cs found cost rest) :
    Stuck rest := by
  cases hclause with
  | absent _ => exact h
  | present hword _ =>
      obtain ⟨token, htake⟩ := hword
      exact absurd (h.noWord keyword) htake.not_passes

/-- A query does not end here. -/
theorem not_ending (h : Stuck cs) {kind : QueryKind} {body query : DocQuery.Query}
    {cost : Complexity} (hending : Ending size kind body cs query cost rest) :
    Trivia.rest rest ≠ [] := by
  cases hending with
  | select hselect hincludes => exact ((h.clause hselect).clause hincludes).ne_nil
  | update hword _ =>
      obtain ⟨token, htake⟩ := hword
      exact absurd (h.noWord .update) htake.not_passes

end Stuck

/-- What goes on with a segment in vain is a dot or a bracket. -/
theorem NoTail.stuck (h : NoTail cs) : Stuck cs := by
  have hindex : ∀ {bracket : String} {r r₁ : List Char}, Index cs bracket r → Mark '.' r r₁ →
      Stuck cs := by
    intro bracket r r₁ hindex hdot
    cases hindex with
    | absent _ => exact ⟨'.', r₁, hdot.split, Or.inl rfl⟩
    | empty hopen _ _ => exact ⟨'[', _, hopen.split, Or.inr rfl⟩
    | number hopen _ _ _ => exact ⟨'[', _, hopen.split, Or.inr rfl⟩
  cases h with
  | «open» hfound hdot _ => exact hindex hfound hdot
  | more hfound hdot _ _ => exact hindex hfound hdot

/-! ## What is projected -/

/-- A value where a name is next is a literal, and it ends where the name does. -/
theorem Value.literal_of_name {name r : List Char} {v : DocQuery.Value}
    (hname : Takes (Rule.identifier true) cs name () r) (h : Value size cs v rest) :
    rest = r ∧ ∃ keyword ∈ Keyword.literals, Keyword.ofText? name = some keyword := by
  have hfacts := name_facts (name_of_takes hname).1 r
  rw [← hname.split] at hfacts
  cases h with
  | number htake => exact absurd hfacts.1 htake.not_passes
  | quoted _ htake => exact absurd hfacts.2 htake.not_passes
  | @literal token _ keyword _ _ htake =>
      obtain ⟨htoken, hrest, hsame⟩ := Keyword.name_of_anyKeyword (by decide) htake.measured
      have hagain : Takes (Rule.identifier true) cs token () rest :=
        ⟨htake.split, (takes_name htoken hrest).measured⟩
      obtain ⟨rfl, -, rfl⟩ := hagain.unique hname
      have hmem := Keyword.mem_of_anyKeyword htake.measured
      have hsingle : ∀ keyword ∈ Keyword.literals, keyword.isSingle = true := by decide
      exact ⟨rfl, keyword, hmem, Keyword.ofText?_of_sameWord (hsingle keyword hmem) htoken hsame⟩
  | parameter _ _ _ hmark _ =>
      have hno := noMark_name (c := '$') (name_of_takes hname).1 (by decide) r
      exact absurd (hno.alike (Eq.trans hname.split
        (rest_name (name_of_takes hname).1 r).symm)) hmark.not_passes

/-- A value is projected only if it can not be a name, or else the reader is stuck behind it. -/
theorem Projected.kind_or_stuck {v : DocQuery.Value} {cost : Complexity}
    (h : Projected size cs (.value v) cost rest) :
    (v.kind = .long ∨ v.kind = .double ∨ v.kind = .parameter) ∨ Stuck rest := by
  cases h with
  | named hnamed => cases hnamed
  | @value _ r _ _ hno hvalue =>
      cases hno with
      | blank hno =>
          refine Or.inl ?_
          cases hvalue with
          | @number _ _ kind htake => cases kind <;> simp [Grammar.numberKind]
          | quoted _ htake => exact absurd hno.quoted htake.not_passes
          | literal _ _ htake =>
              obtain ⟨htoken, hrest, -⟩ := Keyword.name_of_anyKeyword (by decide) htake.measured
              have hname : Takes (Rule.identifier true) cs _ () rest :=
                ⟨htake.split, (takes_name htoken hrest).measured⟩
              exact absurd hno.name hname.not_passes
          | parameter _ _ _ _ _ => exact Or.inr (Or.inr rfl)
      | reserved htake hreserved =>
          obtain ⟨hname, hrest⟩ := name_of_takes htake
          obtain ⟨-, keyword, hmem, hfound⟩ := hvalue.literal_of_name (takes_name hname hrest)
          have hliteral : ∀ keyword ∈ Keyword.literals, keyword ∉ Keyword.reserved := by decide
          rw [isReserved, hfound, Option.any_some, List.contains_iff_mem] at hreserved
          exact absurd hreserved (hliteral keyword hmem)
      | broken hsegment _ htail =>
          refine Or.inr ?_
          cases hsegment with
          | name htake =>
              obtain ⟨rfl, -⟩ := hvalue.literal_of_name htake
              exact htail.stuck
          | quoted _ htake =>
              cases hvalue with
              | number hnumber =>
                  obtain ⟨quote, body, hquote, hshape, -⟩ := Rule.quoted_eq_some htake.measured
                  refine absurd ?_ hnumber.not_passes
                  rw [Passes, htake.split, hshape]
                  exact (quote_facts hquote _).2.1
              | quoted _ htake' =>
                  obtain ⟨-, -, rfl⟩ := htake.unique htake'
                  exact htail.stuck
              | literal _ hno _ => exact absurd hno htake.not_passes
              | parameter _ hno _ _ _ => exact absurd hno htake.not_passes

end Written

/-! ## Plain queries -/

/-- The names of the source are plain. -/
def Source.isPlain (source : Source) : Bool :=
  source.name.isPlain && source.asName.all Path.isPlainAlias && source.filter.all (Expr.isPlain false)

/-- The names of the entry are plain.  An alias that is not written may be any text. -/
def Projection.isPlain (entry : Projection) : Bool :=
  entry.body.isPlain false && (entry.hasInferredAlias || entry.asName.all Path.isPlainAlias)

/-- All names of the query are plain, and no argument of a call has `true` in it. -/
def Query.isPlain (query : Query) : Bool :=
  query.source.isPlain && (query.groupBy.getD []).all Path.isPlain &&
    query.filter.all (Expr.isPlain false) &&
    (query.orderBy.getD []).all (fun term => term.key.isPlain false) &&
    (query.load.getD []).all Projection.isPlain && (query.select.getD []).all Projection.isPlain &&
    (query.includes.getD []).all (Expr.isPlain false)

namespace Written

open DocQuery.Expr

variable {size : Nat} {cs rest : List Char}

/-! ## Plain clauses that were read -/

theorem FieldOrCall.legible {e : Expr} {cost : Complexity} (h : FieldOrCall size cs e cost rest)
    (hplain : e.isPlain false = true) : LegibleKey e := by
  cases h with
  | field hpath _ =>
      rw [isPlain] at hplain
      exact .field (DocQuery.Path.legible_of_isPlain hpath hplain)
  | call hname _ harguments =>
      rw [isPlain, Bool.and_eq_true] at hplain
      exact .call (DocQuery.Path.legible_of_isPlain hname hplain.1) (harguments.legible hplain.2)

theorem Projected.legible {e : Expr} {cost : Complexity} (h : Projected size cs e cost rest)
    (hplain : e.isPlain false = true) : Projection.LegibleBody e ∨ Stuck rest := by
  cases h with
  | named hnamed => exact Or.inl (.key (hnamed.legible hplain))
  | value hno hvalue =>
      exact (Projected.value hno hvalue).kind_or_stuck.imp_left
        (.value ⟨_, _, _, _, hvalue, rfl⟩)

theorem Projection.legible {needsAs : Bool} {entry : DocQuery.Projection} {cost : Complexity}
    (h : Projection size needsAs cs entry cost rest) (hplain : entry.isPlain = true) :
    entry.Legible ∨ Stuck rest := by
  have haliased := h.isShaped.2
  rw [DocQuery.Projection.isPlain, Bool.and_eq_true, Bool.or_eq_true] at hplain
  obtain ⟨hplainBody, hplainAlias⟩ := hplain
  cases h with
  | mk hbody hasName =>
      rcases hbody.legible hplainBody with hlegible | hstuck
      · refine Or.inl ⟨hlegible, haliased, fun hinferred asName hmem => ?_⟩
        have hplain := hplainAlias.resolve_left (by simp [hinferred])
        rw [Option.mem_def.mp hmem] at hplain
        exact DocQuery.Path.legibleAlias_of_isPlainAlias hplain
      · exact Or.inr (hstuck.asName hasName)

/-- Each item was read, and the reader is stuck behind the last one at most. -/
theorem Items.forall_or_stuck {α : Type} {item : Written.Part α} {P : α → Prop} {as : List α}
    {cost : Complexity} (h : Items item cs as cost rest)
    (hitem : ∀ a ∈ as, ∀ {cs rest cost}, item cs a cost rest → P a ∨ Stuck rest) :
    (∀ a ∈ as, P a) ∨ Stuck rest := by
  induction h with
  | last ha _ =>
      exact (hitem _ List.mem_cons_self ha).imp_left List.forall_mem_singleton.mpr
  | more ha hcomma _ ih =>
      rcases hitem _ List.mem_cons_self ha with hfirst | hstuck
      · exact (ih fun a hmem => hitem a (List.mem_cons_of_mem _ hmem)).imp_left fun hothers =>
          List.forall_mem_cons.mpr ⟨hfirst, hothers⟩
      · exact absurd (hstuck.noMark (by decide)) hcomma.not_passes

/-- Whether a keyword comes first is the same for a plain path and for its own text. -/
theorem Path.noWord_render {p : DocQuery.Path} (h : Path size cs p rest) (hplain : p.isPlain = true)
    {keyword : Keyword} (hsingle : keyword.isSingle = true) (hno : NoWord keyword cs)
    {other : List Char} (hother : Identifier.NoPart other) :
    NoWord keyword (p.render.toList ++ other) := by
  have hquoted := DocQuery.Path.quoted_of_isPlain hplain
  have hlegible := DocQuery.Path.legible_of_isPlain h hplain
  rw [DocQuery.Path.Legible, if_neg (by simp [hquoted])] at hlegible
  rw [DocQuery.Path.render_of_bare hquoted hlegible.1]
  cases h with
  | mk hsegment _ htail =>
      simp only [Bool.or_eq_false_iff] at hquoted
      obtain ⟨rfl, -⟩ := hquoted
      cases hsegment with
      | name htake =>
          obtain ⟨hname, hpart⟩ := name_of_takes htake
          rw [NoWord, Passes, htake.split, Keyword.noKeyword_at_name_iff hsingle hname hpart] at hno
          rw [String.toList_append, String.toList_ofList, List.append_assoc, NoWord, Passes,
            rest_name hname]
          exact Keyword.noKeyword_at_name hno hname (htail.noPart hother)

theorem Projected.noWord_render {e : Expr} {cost : Complexity} (h : Projected size cs e cost rest)
    (hplain : e.isPlain false = true) (hlegible : Projection.LegibleBody e) {keyword : Keyword}
    (hsingle : keyword.isSingle = true) (hno : NoWord keyword cs) :
    NoWord keyword e.render.toList := by
  cases h with
  | named hnamed =>
      cases hnamed with
      | field hpath _ =>
          rw [isPlain] at hplain
          have hrender := hpath.noWord_render hplain hsingle hno Apart.nil.name
          rwa [List.append_nil] at hrender
      | call hname _ harguments =>
          rw [isPlain, Bool.and_eq_true] at hplain
          rw [render_call fun e he => (harguments.legible hplain.2 e he).not_implicit]
          exact hname.noWord_render hplain.1 hsingle hno rfl
  | value _ _ =>
      cases hlegible with
      | key hkey => cases hkey
      | value hspelled hkind =>
          have hrender := Projection.noWord_of_value hspelled hkind keyword Apart.nil
          rwa [List.append_nil] at hrender

theorem Include.legible {e : Expr} {cost : Complexity} (h : Include size cs e cost rest)
    (hplain : e.isPlain false = true) : e.LegibleInclude := by
  cases h with
  | value hvalue => exact .value ⟨_, _, _, _, hvalue, rfl⟩
  | field _ hpath =>
      rw [isPlain] at hplain
      have hlegible := DocQuery.Path.legible_of_isPlain hpath hplain
      have hno := (hlegible.startsWithout hplain).noValue (by decide) Apart.nil
      rw [List.append_nil] at hno
      exact .field hlegible hno

theorem GroupField.legible {path : DocQuery.Path} {cost : Complexity}
    (h : GroupField size cs path cost rest) (hplain : path.isPlain = true) : path.Legible := by
  cases h with
  | mk hpath => exact DocQuery.Path.legible_of_isPlain hpath hplain

theorem OrderTerm.legible {term : DocQuery.OrderTerm} {cost : Complexity}
    (h : OrderTerm size cs term cost rest) (hplain : term.key.isPlain false = true) :
    term.Legible := by
  cases h with
  | mk hkey _ _ => exact hkey.legible hplain

theorem Filter.legible {e : Expr} {cost : Complexity} (h : Filter size cs e cost rest)
    (hplain : e.isPlain false = true) : e.Legible := by
  cases h with
  | mk hcondition => exact hcondition.legible hplain

theorem Script.legible {script : DocQuery.Script} (h : Script size cs script rest) :
    script.Legible := by
  cases h with
  | mk htake =>
      obtain ⟨-, hagain⟩ := Block.length?_append (Rule.ofLength_eq_some.mp htake.measured)
      have hmeasured := hagain []
      rw [List.append_nil] at hmeasured
      rw [DocQuery.Script.Legible, Token.text, tokenAt, String.toList_ofList]
      exact hmeasured

theorem Items.first {α : Type} {item : Written.Part α} {a : α} {as : List α} {cost : Complexity}
    (h : Items item cs (a :: as) cost rest) : ∃ cost r, item cs a cost r := by
  cases h with
  | last ha _ => exact ⟨_, _, ha⟩
  | more ha _ _ => exact ⟨_, _, ha⟩

theorem Selection.legible {selection : Grammar.Selection} {cost : Complexity}
    (h : Selection size cs selection cost rest)
    (hplain : ∀ entry ∈ selection.entries.getD [], entry.isPlain = true) :
    selection.Legible ∨ Stuck rest := by
  cases h with
  | all _ _ => exact Or.inl .all
  | script _ _ hscript => exact Or.inl (.script hscript.legible)
  | @entries _ r _ distinct entries _ hdistinct _ _ hitems =>
      have hne := (hitems.forall_mem fun _ => trivial).1
      rcases hitems.forall_or_stuck fun entry hmem => fun h => h.legible (hplain entry hmem)
        with hall | hstuck
      · cases entries with
        | nil => exact absurd rfl hne
        | cons first others =>
            refine Or.inl (.entries hall ?_)
            cases hdistinct with
            | present _ => exact Or.inl rfl
            | absent hno =>
                have hplainFirst := hplain first List.mem_cons_self
                rw [DocQuery.Projection.isPlain, Bool.and_eq_true] at hplainFirst
                obtain ⟨cost, r₁, hbody, -⟩ := hitems.first
                exact Or.inr (hbody.noWord_render hplainFirst.1 (hall _ List.mem_cons_self).body rfl
                  hno)
      · exact Or.inr hstuck

/-- A plain name of a source that was read is read back. -/
theorem Segment.legibleName {token : List Char} {text : String} {quoted : Bool} {span : Span}
    (h : Segment true cs token text quoted rest) {isIndex : Bool}
    (hindex : isIndex = false → NoWord .index cs)
    (hplain : DocQuery.Path.isPlain ⟨text, span, quoted⟩ = true) :
    DocQuery.Path.LegibleName isIndex ⟨text, span, quoted⟩ := by
  obtain rfl : quoted = false := DocQuery.Path.quoted_of_isPlain hplain
  cases h with
  | name htake =>
      obtain ⟨hname, hpart⟩ := name_of_takes htake
      have hlegible := (DocQuery.Path.spelled_of_name hname
        (DocQuery.Path.isReserved_of_isPlain hname hplain)).legible hplain
      rw [DocQuery.Path.Legible, if_neg (by simp)] at hlegible
      have hdot := Identifier.not_mem_of_isName hname (c := '.') (by decide) (by decide)
      have hopen := Identifier.not_mem_of_isName hname (c := '[') (by decide) (by decide)
      have hnone : token.any (fun c => c == '.' || c == '[') = false := by
        simp only [List.any_eq_false, Bool.or_eq_true, beq_iff_eq, not_or]
        exact fun c hc => ⟨fun h => hdot (h ▸ hc), fun h => hopen (h ▸ hc)⟩
      rw [DocQuery.Path.LegibleName, if_neg (by simp), DocQuery.Path.isBareName,
        String.toList_ofList]
      refine ⟨?_, hname, fun hcollection => ?_⟩
      · rw [String.toList_ofList] at hlegible
        rw [hlegible.1, hnone]
        rfl
      · have hno := hindex hcollection
        rw [NoWord, Passes, htake.split, Keyword.noKeyword_at_name_iff rfl hname hpart] at hno
        have hagain := Keyword.noKeyword_at_name hno hname Apart.nil.name
        rwa [NoWord, Passes, ← List.append_nil token, rest_name hname]

theorem Source.legible {source : DocQuery.Source} {cost : Complexity}
    (h : Source size cs source cost rest) (hplain : source.isPlain = true) : source.Legible := by
  have hindex := h.isShaped.2
  rw [DocQuery.Source.isPlain, Bool.and_eq_true, Bool.and_eq_true] at hplain
  obtain ⟨⟨hplainName, hplainAlias⟩, hplainFilter⟩ := hplain
  have hasName : ∀ asName ∈ source.asName, DocQuery.Path.LegibleAlias asName := by
    intro asName hmem
    rw [Option.mem_def.mp hmem] at hplainAlias
    exact DocQuery.Path.legibleAlias_of_isPlainAlias hplainAlias
  cases h with
  | collection _ hno hsegment hfilter _ =>
      refine ⟨hsegment.legibleName (fun _ => hno) hplainName, ?_, hindex, hasName⟩
      intro e hmem
      cases hfilter with
      | absent _ => cases hmem
      | present _ hcondition _ =>
          cases hmem
          exact hcondition.legible hplainFilter
  | index _ _ hsegment _ =>
      exact ⟨hsegment.legibleName (fun hcollection => by cases hcollection) hplainName,
        fun _ hmem => (by cases hmem), hindex, hasName⟩

/-! ## Plain queries that were read -/

section

variable {α : Type} {keyword : Keyword} {item : Written.Part α} {found : Option (List α)}
  {cost : Complexity} {plain : α → Bool} {P : α → Prop}

/-- The items of a clause that was read, if it is there. -/
theorem Clause.items_of_plain (h : Clause keyword (Items item) cs found cost rest)
    (hplain : (found.getD []).all plain = true)
    (hitem : ∀ {cs rest a cost}, item cs a cost rest → plain a = true → P a) :
    ∀ as ∈ found, as ≠ [] ∧ ∀ a ∈ as, P a := by
  intro as hmem
  obtain ⟨hne, hall⟩ := h.forall_mem (fun hitems => hitems.forall_mem hitem) as hmem
  rw [Option.mem_def.mp hmem, Option.getD_some, List.all_eq_true] at hplain
  exact ⟨hne, fun a ha => hall a ha (hplain a ha)⟩

/-- The items of a clause that was read, unless the reader is stuck behind it. -/
theorem Clause.items_of_plain_or_stuck (h : Clause keyword (Items item) cs found cost rest)
    (hplain : (found.getD []).all plain = true)
    (hitem : ∀ {cs rest a cost}, item cs a cost rest → plain a = true → P a ∨ Stuck rest) :
    (∀ as ∈ found, as ≠ [] ∧ ∀ a ∈ as, P a) ∨ Stuck rest := by
  cases h with
  | absent _ => exact Or.inl fun _ hmem => by cases hmem
  | @present _ _ _ as _ _ hitems =>
      have hne := (hitems.forall_mem fun _ => trivial).1
      rw [Option.getD_some, List.all_eq_true] at hplain
      refine (hitems.forall_or_stuck fun a hmem => fun h => hitem h (hplain a hmem)).imp_left ?_
      intro hall _ hmem
      cases hmem
      exact ⟨hne, hall⟩

end

/-- What is selected was read, unless the reader is stuck behind it. -/
theorem Clause.selection_legible {query : DocQuery.Query} {selection : Option Grammar.Selection}
    {cost : Complexity} (h : Clause .select (Selection size) cs selection cost rest)
    (hselect : query.select = (selection.getD .none).entries)
    (hscript : query.selectScript = (selection.getD .none).script)
    (hdistinct : query.distinct = (selection.getD .none).distinct)
    (hplain : (query.select.getD []).all DocQuery.Projection.isPlain = true) :
    (∀ found ∈ query.selection, found.Legible) ∨ Stuck rest := by
  rw [DocQuery.Query.selection, hselect, hscript, hdistinct]
  cases h with
  | absent _ => exact Or.inl fun _ hmem => by cases hmem
  | @present _ _ _ found _ _ hfound =>
      rw [hselect, Option.getD_some, List.all_eq_true] at hplain
      refine (hfound.legible hplain).imp_left fun hlegible _ hmem => ?_
      split at hmem
      · cases hmem
      · cases hmem
        exact hlegible

/-- What a plain query ends with is legible. -/
theorem Ending.legible {kind : QueryKind} {body q : DocQuery.Query} {cost : Complexity}
    (h : Ending size kind body cs q cost rest) (hend : Trivia.rest rest = [])
    (hwell : q.WellFormed kind)
    (hplainSelect : (q.select.getD []).all DocQuery.Projection.isPlain = true)
    (hplainIncludes : (q.includes.getD []).all (isPlain false) = true) :
    (∀ found ∈ q.selection, found.Legible) ∧
      (∀ es ∈ q.includes, es ≠ [] ∧ ∀ e ∈ es, e.LegibleInclude) ∧
      ∀ script ∈ q.updateScript, script.Legible := by
  cases h with
  | select hselect hincludes =>
      refine ⟨?_, hincludes.items_of_plain hplainIncludes fun h => h.legible, ?_⟩
      · refine (hselect.selection_legible rfl rfl rfl hplainSelect).resolve_right fun hstuck => ?_
        exact (hstuck.clause hincludes).ne_nil hend
      · intro script hmem
        have hupdate := hwell.updateScript.mp (Option.isSome_iff_exists.mpr ⟨script, hmem⟩)
        cases hupdate
  | update _ hscript =>
      obtain ⟨hselect, hselectScript, hincludes, hdistinct⟩ := hwell.update rfl
      refine ⟨?_, ?_, ?_⟩
      · rw [DocQuery.Query.selection_eq_none.mpr ⟨hselect, hselectScript, hdistinct⟩]
        exact fun _ hmem => by cases hmem
      · rw [hincludes]
        exact fun _ hmem => by cases hmem
      · intro script hmem
        cases hmem
        exact hscript.legible

theorem Query.legible {kind : QueryKind} {text : String} {q : DocQuery.Query} {cost : Complexity}
    (h : Query kind text q cost) (hplain : q.isPlain = true) : q.Legible kind := by
  have hwell := h.wellFormed
  simp only [DocQuery.Query.isPlain, Bool.and_eq_true] at hplain
  obtain ⟨⟨⟨⟨⟨⟨hplainSource, hplainGroup⟩, hplainFilter⟩, hplainOrder⟩, hplainLoad⟩, hplainSelect⟩,
    hplainIncludes⟩ := hplain
  cases h with
  | mk _ hbody hending hend =>
  obtain ⟨hselection, hincludes, hscript⟩ := hending.legible hend hwell hplainSelect hplainIncludes
  cases hbody with
  | @mk _ _ _ _ _ _ source groupBy filter orderBy load _ _ _ _ _ hsource hgroup hfilter horder hload =>
  obtain ⟨rfl, rfl, rfl, rfl, rfl⟩ : source = q.source ∧ groupBy = q.groupBy ∧ filter = q.filter ∧
      orderBy = q.orderBy ∧ load = q.load := by
    cases hending <;> exact ⟨rfl, rfl, rfl, rfl, rfl⟩
  exact {
    source := hsource.legible hplainSource
    groupBy := hgroup.items_of_plain hplainGroup fun h => h.legible
    filter := fun e hmem => by
      rw [Option.mem_def.mp hmem] at hplainFilter
      exact hfilter.forall_mem (fun h => h.legible) e hmem hplainFilter
    orderBy := horder.items_of_plain hplainOrder fun h => h.legible
    load := (hload.items_of_plain_or_stuck hplainLoad fun h => h.legible).resolve_right
      fun hstuck => hstuck.not_ending hending hend
    selection := hselection
    includes := hincludes
    updateScript := hscript
    select := fun hkind => by
      rw [← Option.not_isSome_iff_eq_none, hwell.updateScript, hkind]
      decide
    update := fun hkind => by
      obtain ⟨hselect, hselectScript, hincludes, hdistinct⟩ := hwell.update hkind
      exact ⟨hwell.updateScript.mpr hkind,
        DocQuery.Query.selection_eq_none.mpr ⟨hselect, hselectScript, hdistinct⟩, hincludes⟩ }

/-- What a text costs is what its declared functions cost and what its clauses do. -/
theorem Query.allDeclared {kind : QueryKind} {text : String} {q : DocQuery.Query}
    {cost : Complexity} (h : Query kind text q cost) :
    ∃ costs clauses, AllDeclared q.functions.entries costs ∧ cost = costs.join clauses ∧
      clauses.connectives = q.connectives := by
  cases h with
  | @mk _ _ _ _ _ _ c₁ c₂ c₃ hdeclared hbody hending _ =>
      obtain ⟨hcount, hselect, hincludes, hfunctions⟩ := hbody.connectives_eq
      obtain ⟨hcount', hkept⟩ := hending.connectives_eq hselect hincludes
      have hall := AllDeclared.of_written hdeclared .nil
      rw [Complexity.zero_join] at hall
      refine ⟨c₁, c₂.join c₃, by rwa [hkept, hfunctions], rfl, ?_⟩
      rw [hcount', hcount]
      rfl

end Written

/-! ## Canonical text is read back -/

namespace Query

open Grammar

variable {kind : QueryKind} {limits ample : Limits} {text : String} {q : Query}

/--
The canonical text of a parsed query that is legible is parsed as the same query,
and it is the canonical text of that.
-/
theorem Legible.parse_render (hlegible : q.Legible kind) (h : parse kind limits text = .ok q)
    (hample : ample.AmpleFor q.render) :
    ∃ r, parse kind ample q.render = .ok r ∧ (r == q) = true ∧ r.render = q.render := by
  obtain ⟨cost, hwritten⟩ := written_of_parse h
  obtain ⟨costs, -, hfunctions, -⟩ := hwritten.allDeclared
  obtain ⟨r, hread, hsame⟩ := hlegible.written hfunctions
  have hbeq := beq_iff.mpr hsame
  exact ⟨r, parse_of_admits hread (hample.admits hread), hbeq, render_eq_of_beq hbeq⟩

/--
Whatever limits accept the canonical text of a parsed query that is legible, it is
parsed as the same query, and there are limits that accept it.
-/
theorem beq_of_parse_render (h : parse kind limits text = .ok q) (hlegible : q.Legible kind) :
    (∀ others r, parse kind others q.render = .ok r → (r == q) = true) ∧
      ∃ others r, parse kind others q.render = .ok r := by
  obtain ⟨cost, hwritten⟩ := written_of_parse h
  obtain ⟨costs, -, hfunctions, -⟩ := hwritten.allDeclared
  obtain ⟨r, hread, hsame⟩ := hlegible.written hfunctions
  constructor
  · intro others r' hparse
    have hadmits := (exists_parse_iff hread).mp ⟨r', hparse⟩
    rw [parse_of_admits hread hadmits] at hparse
    cases hparse
    exact beq_iff.mpr hsame
  · exact ⟨⟨_, _⟩, r, parse_of_admits hread ⟨Nat.le_refl _, Nat.le_refl _⟩⟩

/-- A query with a group and a negation is legible, and its canonical text is read as it. -/
theorem beq_of_parse_render_group :
    ∃ q, parse .select {} "FROM X WHERE a = 1 AND NOT (b = 2 OR c = 3)" = .ok q ∧
      q.Legible .select ∧
      ∀ others r, parse .select others q.render = .ok r → (r == q) = true := by
  have hparsed : (parse .select {} "FROM X WHERE a = 1 AND NOT (b = 2 OR c = 3)").toOption.any
      isPlain = true := by
    decide +kernel
  obtain ⟨q, hq, hplain⟩ := (Option.any_eq_true _ _).mp hparsed
  have hparse := parse_of_toOption hq
  obtain ⟨cost, hwritten⟩ := written_of_parse hparse
  have hlegible := hwritten.legible hplain
  exact ⟨q, hparse, hlegible, (beq_of_parse_render hparse hlegible).1⟩

/--
The canonical text of each parsed query that is plain is parsed as the same query,
and it is the canonical text of that.
-/
theorem parse_render_of_isPlain (h : parse kind limits text = .ok q) (hplain : q.isPlain = true)
    (hample : ample.AmpleFor q.render) :
    ∃ r, parse kind ample q.render = .ok r ∧ (r == q) = true ∧ r.render = q.render := by
  obtain ⟨cost, hwritten⟩ := written_of_parse h
  exact (hwritten.legible hplain).parse_render h hample

/-- A query with an alias, a call and a group is plain, and its canonical text is parsed as it. -/
theorem parse_render_of_isPlain_group :
    ∃ q, parse .select {} "from X as x where f(a) > 2 and (b = 1 or c = 2) select d.e as @k" =
        .ok q ∧ q.isPlain = true ∧
      ∃ r, parse .select ⟨q.render.utf8ByteSize, q.render.utf8ByteSize⟩ q.render = .ok r ∧
        (r == q) = true ∧ r.render = q.render := by
  have hparsed :
      (parse .select {} "from X as x where f(a) > 2 and (b = 1 or c = 2) select d.e as @k").toOption.any
        isPlain = true := by
    decide +kernel
  obtain ⟨q, hq, hplain⟩ := (Option.any_eq_true _ _).mp hparsed
  have hparse := parse_of_toOption hq
  exact ⟨q, hparse, hplain, parse_render_of_isPlain hparse hplain ⟨Nat.le_refl _, Nat.le_refl _⟩⟩

end Query

end DocQuery
