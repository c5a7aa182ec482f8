import DocQuery.Proofs.Canonical.Function
import DocQuery.Proofs.Limits

/-!
# Queries that are read back

A query is legible if each part of it is.  Its canonical text is then read as a
query that differs in positions alone, and what the limits count in that text is
known from the query.  The main statement is `Query.Legible.written`.
-/

namespace DocQuery

open Lexical Written

/-! ## What follows SELECT -/

namespace Grammar.Selection

/-- The selection without positions. -/
def erase (selection : Selection) : Selection :=
  ⟨selection.entries.map (·.map Projection.erase), selection.script.map Script.erase,
    selection.distinct⟩

/-- The canonical text behind SELECT. -/
def render (selection : Selection) : String :=
  (if selection.distinct then "DISTINCT " else "") ++
    match selection.script, selection.entries with
    | some script, _ => script.text
    | .none, some entries => Query.renderList Projection.render entries
    | .none, .none => "*"

/-- What the limits count in a list of entries. -/
def complexity (selection : Selection) : Complexity :=
  Complexity.joinAll ((selection.entries.getD []).map fun entry => entry.body.complexity)

/-- The selection is read back; its first entry is not taken for the word DISTINCT. -/
inductive Legible : Selection → Prop where
  | all {distinct : Bool} : Legible ⟨.none, .none, distinct⟩
  | script {distinct : Bool} {script : Script} :
      script.Legible → Legible ⟨some [], some script, distinct⟩
  | entries {distinct : Bool} {first : Projection} {others : List Projection} :
      (∀ entry ∈ first :: others, entry.Legible) →
      (distinct = true ∨ NoWord .distinct first.body.render.toList) →
      Legible ⟨some (first :: others), .none, distinct⟩

theorem distinct_written {distinct : Bool} {cs ds : List Char}
    (hcs : distinct = true ∨ NoWord .distinct cs)
    (hds : Alike ds ((if distinct then "DISTINCT " else "").toList ++ cs)) :
    ∃ rest, Distinct ds distinct rest ∧ Alike rest cs := by
  cases distinct with
  | true =>
      have hword : Word .distinct ("DISTINCT ".toList ++ cs) (' ' :: cs) :=
        ⟨"DISTINCT".toList, rfl, rfl⟩
      exact ⟨' ' :: cs, .present (hword.alike hds), alike_blank cs⟩
  | false => exact ⟨ds, .absent ((hcs.resolve_left (by simp)).alike hds), hds⟩

theorem Legible.readsBack {selection : Selection} (h : selection.Legible) (size : Nat)
    (keywords : List Keyword) :
    ReadsBack (Written.Selection size) erase (EndsClause keywords) selection.render.toList
      selection selection.complexity := by
  constructor
  intro cs ds hcs hds
  rw [render, String.toList_append, List.append_assoc] at hds
  cases h with
  | @all distinct =>
      have hstar : NoWord .distinct ("*".toList ++ cs) :=
        Keyword.noKeyword_at_mark .distinct (by decide) cs
      obtain ⟨rest, hdistinct, hrest⟩ := distinct_written (Or.inr hstar) hds
      exact ⟨_, cs, .all hdistinct (mark_alike hrest rfl), rfl, Alike.refl cs⟩
  | @script distinct script hscript =>
      obtain ⟨body, hbody⟩ := hscript.brace
      have hword : NoWord .distinct (script.text.toList ++ cs) := by
        rw [hbody]
        exact Keyword.noKeyword_at_mark .distinct (by decide) _
      have hstar : NoMark '*' (script.text.toList ++ cs) := by
        rw [hbody]
        exact noMark_cons _ rfl (by decide)
      obtain ⟨rest, hdistinct, hrest⟩ := distinct_written (Or.inr hword) hds
      obtain ⟨found, hfound, hsame⟩ := hscript.written size hrest
      exact ⟨_, cs, .script hdistinct (hstar.alike hrest) hfound, by rw [erase, erase]; simp [hsame],
        Alike.refl cs⟩
  | @entries distinct first others hentries hfirst =>
      have hbody := (hentries first List.mem_cons_self).body
      have hword : distinct = true ∨
          NoWord .distinct ((Query.renderList Projection.render (first :: others)).toList ++ cs) := by
        refine hfirst.imp_right fun hno => ?_
        obtain ⟨more, hfirst, hmore⟩ := first.exists_alias
        have hothers : Apart (commas (others.map Projection.render) ++ cs) := by
          cases others with
          | nil => exact hcs.behind.apart
          | cons _ _ => exact Apart.cons _ (by decide)
        rw [Query.renderList, List.map_cons, Expr.commaSeparated_cons, hfirst,
          List.append_assoc, List.append_assoc]
        exact hbody.noWord rfl hno (hmore hothers)
      obtain ⟨r, hdistinct, hr⟩ := distinct_written hword hds
      obtain ⟨found, rest, hfound, hsame, hrest⟩ := (ReadsBack.items (List.cons_ne_nil first others)
        fun entry hmem => (hentries entry hmem).readsBack size true).reads hcs hr
      exact ⟨_, rest, .entries hdistinct (hfound.noMark (Or.inl rfl))
        (passes_block (hfound.noMark (Or.inr rfl))) hfound, by rw [erase, erase]; simp [hsame],
        hrest⟩

end Grammar.Selection

/-! ## The source -/

namespace Path

/-- The name of a source is read back; one of a collection is not taken for the word INDEX. -/
def LegibleName (isIndex : Bool) (name : Path) : Prop :=
  if name.quoted then QuoteSafe name.text
  else name.isBareName = true ∧ Identifier.isName true name.text.toList = true ∧
    (isIndex = false → NoWord .index name.text.toList)

/-- The text of the name of a source. -/
def renderName (name : Path) : String :=
  if name.isBareName then name.text else Text.inQuotes name.text

theorem LegibleName.written {isIndex : Bool} {name : Path} (h : name.LegibleName isIndex)
    {cs : List Char} (hcs : Apart cs) :
    (∃ token, Segment true (name.renderName.toList ++ cs) token name.text name.quoted cs) ∧
      (isIndex = false → NoWord .index (name.renderName.toList ++ cs)) := by
  unfold LegibleName at h
  split at h
  · next hquoted =>
      have hrender : name.renderName = Text.inQuotes name.text := by
        simp [renderName, isBareName, hquoted]
      obtain ⟨escapes, htake⟩ := h.takes hcs
      have hquote := isQuote_quoteFor name.text.toList
      have hstart : Identifier.isStart (Text.quoteFor name.text.toList) = false := by
        rcases Quoted.isQuote_eq_true.mp hquote with hq | hq
        · rw [hq]; rfl
        · rw [hq]; rfl
      have hpass : Passes (Rule.identifier true) ((Text.inQuotes name.text).toList ++ cs) := by
        rw [Passes, htake.split, Text.toList_inQuotes]
        exact (quote_facts hquote _).2.2 true
      have hsegment := Segment.quoted hpass htake
      have hbody : String.ofList (Text.inQuotes name.text).toList.tail.dropLast = name.text := by
        simp
      rw [hbody] at hsegment
      rw [hrender, hquoted]
      refine ⟨⟨_, hsegment⟩, fun _ => ?_⟩
      rw [NoWord, Passes, htake.split, Text.toList_inQuotes]
      exact Keyword.noKeyword_at_mark .index hstart _
  · next hquoted =>
      rw [Bool.not_eq_true] at hquoted
      obtain ⟨hbare, hname, hindex⟩ := h
      have hrender : name.renderName = name.text := by simp [renderName, hbare]
      have hsegment := Segment.name (takes_name hname hcs.name)
      rw [String.ofList_toList] at hsegment
      rw [hrender, hquoted]
      refine ⟨⟨_, hsegment⟩, fun hcollection => ?_⟩
      have hno := hindex hcollection
      rw [NoWord, Passes, ← List.append_nil name.text.toList, rest_name hname,
        Keyword.noKeyword_at_name_iff rfl hname Apart.nil.name] at hno
      rw [NoWord, Passes, rest_name hname]
      exact Keyword.noKeyword_at_name hno hname hcs.name

end Path

namespace Source

/-- The source is read back, and only a collection has a filter. -/
structure Legible (source : Source) : Prop where
  name : source.name.LegibleName source.isIndex
  filter : ∀ e ∈ source.filter, e.Legible
  index : source.isIndex = true → source.filter = none
  asName : ∀ asName ∈ source.asName, Path.LegibleAlias asName

/-- What the limits count in the filter of a source. -/
def complexity (source : Source) : Complexity :=
  (source.filter.map fun e => e.complexity.nest).getD .zero

/-- The alias of a source, or nothing. -/
theorem alias_written {asName : Option String} (h : ∀ text ∈ asName, Path.LegibleAlias text)
    (size : Nat) {keywords : List Keyword} {cs : List Char} (hcs : EndsClause keywords cs) :
    EndsPath (((asName.map renderAlias).getD "").toList ++ cs) ∧
      NoMark '(' (((asName.map renderAlias).getD "").toList ++ cs) ∧
      ∃ rest, AsName size false (((asName.map renderAlias).getD "").toList ++ cs) asName rest ∧
        Alike rest cs := by
  cases asName with
  | none => exact ⟨hcs.behind.toEndsPath, hcs.noMark (by decide), hcs.noAlias size false⟩
  | some text =>
      have hnamed := (h text rfl).written size false hcs.behind.toEndsPath
      refine ⟨?_, ?_, cs, hnamed, Alike.refl cs⟩
      · rw [Option.map_some, Option.getD_some, renderAlias, String.toList_append,
          List.append_assoc]
        exact ⟨Apart.cons _ (by decide), rfl, rfl⟩
      · rw [Option.map_some, Option.getD_some, renderAlias, String.toList_append,
          List.append_assoc]
        rfl

/-- The filter of a collection, or nothing. -/
theorem filter_written {filter : Option Expr} (h : ∀ e ∈ filter, e.Legible) (size : Nat)
    {cs : List Char} (hcs : Apart cs) (hopen : NoMark '(' cs) :
    ∃ found, SourceFilter size
        (((filter.map fun e => "(" ++ e.render ++ ")").getD "").toList ++ cs) found
        ((filter.map fun e => e.complexity.nest).getD .zero) cs ∧
      found.map Expr.erase = filter.map Expr.erase ∧
      Apart (((filter.map fun e => "(" ++ e.render ++ ")").getD "").toList ++ cs) := by
  cases filter with
  | none => exact ⟨none, .absent hopen, rfl, hcs⟩
  | some e =>
      obtain ⟨c, hc, hsame, hcost⟩ :=
        (h e rfl).reads.condition (Behind.close cs) (EndsItem.close.noLinks size)
      have htext : ((Option.map (fun e => "(" ++ e.render ++ ")") (some e)).getD "").toList ++ cs =
          '(' :: (e.render.toList ++ ')' :: cs) := by
        simp
      rw [htext, Option.map_some, Option.getD_some, ← hcost]
      exact ⟨some c.tree, .present (mark_cons _ rfl) hc (mark_cons cs rfl), congrArg some hsame,
        Apart.cons _ (by decide)⟩

theorem Legible.readsBack {source : Source} (h : source.Legible) (size : Nat)
    (keywords : List Keyword) :
    ReadsBack (Written.Source size) erase (EndsClause keywords) source.render.toList source
      source.complexity := by
  constructor
  intro cs ds hcs hds
  obtain ⟨name, asName, filter, isIndex⟩ := source
  obtain ⟨hname, hfilter, hindex, hasName⟩ := h
  dsimp only at hname hfilter hindex hasName
  obtain ⟨hends, hopen, rest, hfound, hrest⟩ := alias_written hasName size hcs
  let behind := ((asName.map renderAlias).getD "").toList ++ cs
  have htext : render ⟨name, asName, filter, isIndex⟩ =
      (if isIndex then "FROM INDEX " else "FROM ") ++ name.renderName ++
        (filter.map fun filter => "(" ++ filter.render ++ ")").getD "" ++
        (asName.map renderAlias).getD "" := rfl
  rw [htext, String.toList_append, String.toList_append, String.toList_append,
    List.append_assoc, List.append_assoc, List.append_assoc] at hds
  have herase : ∀ span filter', filter'.map Expr.erase = filter.map Expr.erase →
      erase ⟨⟨name.text, span, name.quoted⟩, asName, filter', isIndex⟩ =
        erase ⟨name, asName, filter, isIndex⟩ := by
    intro span filter' hsame
    rw [erase, erase, hsame]
    rfl
  cases isIndex with
  | true =>
      obtain rfl : filter = none := hindex rfl
      obtain ⟨⟨token, hsegment⟩, -⟩ := hname.written hends.apart
      have hfrom : ∀ more, Word .from_ ("FROM INDEX ".toList ++ more)
          (" INDEX ".toList ++ more) := fun _ => ⟨"FROM".toList, rfl, rfl⟩
      have hword : ∀ more, Word .index (" INDEX ".toList ++ more) (' ' :: more) :=
        fun _ => ⟨"INDEX".toList, rfl, rfl⟩
      exact ⟨_, rest, .index ((hfrom _).alike hds) (hword _) (hsegment.alike (alike_blank _)) hfound,
        herase _ none rfl, hrest⟩
  | false =>
      obtain ⟨found, hfilter, hsame, happart⟩ := filter_written hfilter size hends.apart hopen
      obtain ⟨⟨token, hsegment⟩, hword⟩ := hname.written happart
      have hfrom : ∀ more, Word .from_ ("FROM ".toList ++ more) (' ' :: more) :=
        fun _ => ⟨"FROM".toList, rfl, rfl⟩
      exact ⟨_, rest, .collection ((hfrom _).alike hds) ((hword rfl).alike (alike_blank _))
        (hsegment.alike (alike_blank _)) hfilter hfound, herase _ found hsame, hrest⟩

end Source

/-! ## Whole queries -/

namespace Query

/-- What follows SELECT, if there is such a clause. -/
def selection (query : Query) : Option Grammar.Selection :=
  if query.select.isNone && query.selectScript.isNone && !query.distinct then none
  else some ⟨query.select, query.selectScript, query.distinct⟩

/-- Each part of the query is read back, and the query has no more parts than its kind. -/
structure Legible (kind : QueryKind) (query : Query) : Prop where
  source : query.source.Legible
  groupBy : ∀ paths ∈ query.groupBy, paths ≠ [] ∧ ∀ path ∈ paths, path.Legible
  filter : ∀ e ∈ query.filter, e.Legible
  orderBy : ∀ terms ∈ query.orderBy, terms ≠ [] ∧ ∀ term ∈ terms, term.Legible
  load : ∀ entries ∈ query.load, entries ≠ [] ∧ ∀ entry ∈ entries, entry.Legible
  selection : ∀ selection ∈ query.selection, selection.Legible
  includes : ∀ es ∈ query.includes, es ≠ [] ∧ ∀ e ∈ es, e.LegibleInclude
  updateScript : ∀ script ∈ query.updateScript, script.Legible
  select : kind = .select → query.updateScript = none
  update : kind = .update → query.updateScript.isSome = true ∧ query.selection = none ∧
    query.includes = none

/-- The expressions of the clauses behind FROM. -/
def clauseExpressions (query : Query) : List Expr :=
  query.filter.toList ++ ((query.orderBy.getD []).map OrderTerm.key ++
    ((query.load.getD []).map Projection.body ++
      ((query.select.getD []).map Projection.body ++ query.includes.getD [])))

/-- What the limits count in the canonical text, its declared functions apart. -/
def complexity (query : Query) : Complexity :=
  query.source.complexity.join (Expr.complexityOf query.clauseExpressions)

theorem selection_getD (query : Query) :
    query.selection.getD .none = ⟨query.select, query.selectScript, query.distinct⟩ := by
  rw [selection]
  split
  · next hnone =>
      simp only [Bool.and_eq_true, Option.isNone_iff_eq_none, Bool.not_eq_true'] at hnone
      rw [hnone.1.1, hnone.1.2, hnone.2]
      rfl
  · rfl

theorem selection_eq_none {query : Query} : query.selection = none ↔
    query.select = none ∧ query.selectScript = none ∧ query.distinct = false := by
  simp [selection, and_assoc]

/-- The text of the clause SELECT, if it is there. -/
theorem renderClause_selection {query : Query} (h : ∀ found ∈ query.selection, found.Legible) :
    renderClause (if query.distinct then "SELECT DISTINCT" else "SELECT") id query.selection? =
      renderClause Keyword.select.text Grammar.Selection.render query.selection := by
  have htext : ∀ (distinct : Bool) (text : String),
      renderClause (if distinct then "SELECT DISTINCT" else "SELECT") id (some text) =
        "\n" ++ "SELECT" ++ " " ++ ((if distinct then "DISTINCT " else "") ++ text) := by
    intro distinct text
    apply String.toList_inj.mp
    cases distinct <;> simp [renderClause]
  rw [selection] at h ⊢
  rw [selection?]
  cases hselect : query.select with
  | none =>
      cases hscript : query.selectScript with
      | none =>
          cases hdistinct : query.distinct with
          | false => rfl
          | true => exact htext true "*"
      | some script =>
          rw [hselect, hscript] at h
          cases h _ rfl
  | some entries =>
      rw [hselect] at h
      generalize query.selectScript = script at h ⊢
      cases h _ rfl with
      | script _ => exact htext _ _
      | entries _ _ => exact htext _ _

/-- What the limits count in items that have one expression each. -/
theorem joinAll_complexity {α : Type} (expression : α → Expr) (items : List α) :
    Complexity.joinAll (items.map fun a => (expression a).complexity) =
      Expr.complexityOf (items.map expression) := by
  induction items with
  | nil => rfl
  | cons a items ih =>
      rw [List.map_cons, List.map_cons, Complexity.joinAll, Expr.complexityOf, ih]

/-- What the limits count in the items of a clause, if the clause is there. -/
theorem clause_complexity {α : Type} (expression : α → Expr) (found : Option (List α)) :
    (found.map fun items =>
      Complexity.joinAll (items.map fun a => (expression a).complexity)).getD .zero =
      Expr.complexityOf ((found.getD []).map expression) := by
  cases found with
  | none => rfl
  | some items => exact joinAll_complexity expression items

theorem complexity_eq (query : Query) :
    query.complexity = query.source.complexity.join
      (((query.filter.map Expr.complexity).getD .zero).join
        ((Expr.complexityOf ((query.orderBy.getD []).map OrderTerm.key)).join
          ((Expr.complexityOf ((query.load.getD []).map Projection.body)).join
            ((Expr.complexityOf ((query.select.getD []).map Projection.body)).join
              (Expr.complexityOf (query.includes.getD [])))))) := by
  have hfilter : Expr.complexityOf query.filter.toList =
      (query.filter.map Expr.complexity).getD .zero := by
    cases query.filter with
    | none => rfl
    | some e => simp [Expr.complexityOf]
  rw [complexity, clauseExpressions, Expr.complexityOf_append, Expr.complexityOf_append,
    Expr.complexityOf_append, Expr.complexityOf_append, hfilter]

/-- What the limits count in the entries of the clause SELECT. -/
theorem selection_complexity (query : Query) :
    (query.selection.map Grammar.Selection.complexity).getD .zero =
      Expr.complexityOf ((query.select.getD []).map Projection.body) := by
  have hselect : Expr.complexityOf ((query.select.getD []).map Projection.body) =
      (query.selection.getD .none).complexity := by
    rw [selection_getD, ← joinAll_complexity]
    rfl
  rw [hselect]
  cases query.selection <;> rfl

/-- The fields of GROUP BY have no complexity. -/
theorem groupBy_complexity (found : Option (List Path)) :
    (found.map fun paths => Complexity.joinAll (paths.map fun _ => .zero)).getD .zero =
      .zero := by
  have hzero : ∀ paths : List Path,
      Complexity.joinAll (paths.map fun _ => .zero) = .zero := by
    intro paths
    induction paths with
    | nil => rfl
    | cons _ paths ih => rw [List.map_cons, Complexity.joinAll, ih, Complexity.join_zero]
  cases found with
  | none => rfl
  | some paths => exact hzero paths

/-! ## The text of a query, part by part -/

/-- The clauses from FROM to LOAD. -/
def renderBody (query : Query) : List Char :=
  query.source.render.toList ++
    ((renderClause Keyword.groupBy.text (renderList Path.render) query.groupBy).toList ++
      ((renderClause Keyword.where_.text Expr.render query.filter).toList ++
        ((renderClause Keyword.orderBy.text (renderList OrderTerm.render) query.orderBy).toList ++
          (renderClause Keyword.load.text (renderList Projection.render) query.load).toList)))

/-- The clauses behind LOAD. -/
def renderEnding (query : Query) : List Char :=
  (renderClause Keyword.select.text Grammar.Selection.render query.selection).toList ++
    ((renderClause Keyword.include_.text (renderList Expr.render) query.includes).toList ++
      (renderClause Keyword.update.text Script.text query.updateScript).toList)

theorem toList_render {query : Query} (h : ∀ found ∈ query.selection, found.Legible) :
    query.render.toList = Functions.renderEntries query.functions.entries ++
      (query.renderBody ++ query.renderEnding) := by
  have hentries : (String.join (query.functions.entries.map fun entry =>
      "DECLARE " ++ entry.2.text ++ "\n")).toList =
        Functions.renderEntries query.functions.entries := by
    rw [String.toList_join, List.flatMap_map, Functions.renderEntries]
    exact congrArg (fun f => query.functions.entries.flatMap f) (funext fun entry => by simp)
  rw [render, renderClause_selection h]
  simp only [String.toList_append, hentries, List.append_assoc, renderBody, renderEnding]
  rfl

/-- The query without what stands behind LOAD. -/
def body (query : Query) : Query :=
  { query with
    select := none, selectScript := none, updateScript := none, includes := none,
    distinct := false }

theorem Legible.body {kind : QueryKind} {q : Query} (h : q.Legible kind) (size : Nat) (text : String)
    {functions : Functions} (hfunctions : functions.erase = q.functions.erase) {cs ds : List Char}
    (hcs : EndsClause [.select, .include_, .update] cs) (hds : Alike ds (q.renderBody ++ cs)) :
    ∃ found rest, Body size text functions ds found (q.source.complexity.join
        (((q.filter.map Expr.complexity).getD .zero).join
          ((Expr.complexityOf ((q.orderBy.getD []).map OrderTerm.key)).join
            (Expr.complexityOf ((q.load.getD []).map Projection.body))))) rest ∧
      found.erase = q.body.erase ∧ Alike rest cs := by
  -- what stands behind each clause, from the last one on
  have hload : EndsClause [.load, .select, .include_, .update] _ :=
    hcs.renderClause (by decide) (renderList Projection.render) q.load
  have horderBy : EndsClause [.orderBy, .load, .select, .include_, .update] _ :=
    hload.renderClause (by decide) (renderList OrderTerm.render) q.orderBy
  have hfilter : EndsClause [.where_, .orderBy, .load, .select, .include_, .update] _ :=
    horderBy.renderClause (by decide) Expr.render q.filter
  have hgroupBy : EndsClause [.groupBy, .where_, .orderBy, .load, .select, .include_, .update] _ :=
    hfilter.renderClause (by decide) (renderList Path.render) q.groupBy
  rw [renderBody] at hds
  simp only [List.append_assoc] at hds
  obtain ⟨source, r, hsource, hsame, hr⟩ := (h.source.readsBack size _).reads hgroupBy hds
  obtain ⟨groupBy, r₁, hgroup, hsame₁, hr₁⟩ := (ReadsBack.clause (by decide) (by decide)
    fun paths hmem => ReadsBack.items (h.groupBy paths hmem).1
      fun path hpath => ((h.groupBy paths hmem).2 path hpath).readsBack size).reads hfilter hr
  obtain ⟨filter, r₂, hwhere, hsame₂, hr₂⟩ := (ReadsBack.clause (by decide) (by decide)
    fun e hmem => (h.filter e hmem).readsBack size _).reads horderBy hr₁
  obtain ⟨orderBy, r₃, horder, hsame₃, hr₃⟩ := (ReadsBack.clause (by decide) (by decide)
    fun terms hmem => ReadsBack.items (h.orderBy terms hmem).1
      fun term hterm => ((h.orderBy terms hmem).2 term hterm).readsBack size).reads hload hr₂
  obtain ⟨load, rest, hload, hsame₄, hrest⟩ := (ReadsBack.clause (by decide) (by decide)
    fun entries hmem => ReadsBack.items (h.load entries hmem).1
      fun entry hentry => ((h.load entries hmem).2 entry hentry).readsBack size false).reads hcs hr₃
  have hbody : Body size text functions ds _ _ rest := .mk hsource hgroup hwhere horder hload
  rw [groupBy_complexity, Complexity.zero_join, clause_complexity, clause_complexity] at hbody
  refine ⟨_, rest, hbody, ?_, hrest⟩
  rw [erase, erase, Query.mk.injEq]
  exact ⟨rfl, hfunctions, hsame, hsame₁, hsame₂, hsame₃, hsame₄, rfl, rfl, rfl, rfl, rfl⟩

theorem Legible.ending {kind : QueryKind} {q : Query} (h : q.Legible kind) (size : Nat)
    {body : Query} (hbody : body.erase = q.body.erase) {ds : List Char}
    (hds : Alike ds q.renderEnding) :
    ∃ found rest, Ending size kind body ds found
        ((Expr.complexityOf ((q.select.getD []).map Projection.body)).join
          (Expr.complexityOf (q.includes.getD []))) rest ∧
      found.erase = q.erase ∧ Alike rest [] := by
  rw [erase, erase, Query.mk.injEq] at hbody
  obtain ⟨-, hfunctions, hsource, hgroupBy, hfilter, horderBy, hload, hselect, hscript, hupdate,
    hincludes, hdistinct⟩ := hbody
  rw [renderEnding] at hds
  cases kind with
  | select =>
      have hnone := h.select rfl
      rw [hnone, renderClause, String.toList_empty] at hds
      have hinclude : EndsClause [.include_, .update] _ :=
        EndsClause.nil.renderClause (by decide) (renderList Expr.render) q.includes
      obtain ⟨selection, r, hselection, hsame, hr⟩ := (ReadsBack.clause (by decide) (by decide)
        fun found hmem => (h.selection found hmem).readsBack size _).reads hinclude hds
      obtain ⟨includes, rest, hincluded, hsame', hrest⟩ := (ReadsBack.clause (by decide) (by decide)
        fun es hmem => ReadsBack.items (h.includes es hmem).1
          fun e he => ((h.includes es hmem).2 e he).readsBack size).reads
            (@EndsClause.nil [.update]) hr
      have hending : Ending size .select body ds _ _ rest := .select hselection hincluded
      have hgetD : (selection.getD .none).erase = (q.selection.getD .none).erase := by
        have hnone := congrArg (·.getD Grammar.Selection.none.erase) hsame
        simpa only [Option.getD_map] using hnone
      rw [selection_getD, Grammar.Selection.erase, Grammar.Selection.erase,
        Grammar.Selection.mk.injEq] at hgetD
      have hcost := clause_complexity id q.includes
      rw [List.map_id] at hcost
      rw [selection_complexity] at hending
      refine ⟨_, rest, hcost ▸ hending, ?_, hrest⟩
      rw [erase, erase, Query.mk.injEq, hnone]
      exact ⟨rfl, hfunctions, hsource, hgroupBy, hfilter, horderBy, hload, hgetD.1, hgetD.2.1,
        hupdate, hsame', hgetD.2.2⟩
  | update =>
      obtain ⟨hscript', hselection', hincludes'⟩ := h.update rfl
      obtain ⟨script, hscript'⟩ := Option.isSome_iff_exists.mp hscript'
      obtain ⟨hselect', hselectScript', hdistinct'⟩ := selection_eq_none.mp hselection'
      obtain ⟨rest, hword, hrest⟩ : ∃ rest, Word .update ds rest ∧ Alike rest script.text.toList := by
        rw [hscript', hselection', hincludes'] at hds
        have hword : Word .update ("\nUPDATE ".toList ++ script.text.toList)
            (' ' :: script.text.toList) := ⟨"UPDATE".toList, rfl, rfl⟩
        refine ⟨_, hword.alike (Eq.trans hds ?_), alike_blank _⟩
        simp [renderClause]
        rfl
      rw [← List.append_nil script.text.toList] at hrest
      obtain ⟨found, hfound, hsame⟩ := (h.updateScript script hscript').written size hrest
      have hending : Ending size .update body ds _ _ [] := .update hword hfound
      rw [hselect', hincludes']
      refine ⟨_, [], hending, ?_, Alike.refl []⟩
      rw [erase, erase, Query.mk.injEq, hselect', hselectScript', hdistinct', hincludes', hscript']
      exact ⟨rfl, hfunctions, hsource, hgroupBy, hfilter, horderBy, hload, hselect, hscript,
        congrArg some hsame, hincludes, hdistinct⟩

theorem Legible.written {kind : QueryKind} {q : Query} (h : q.Legible kind) {costs : Complexity}
    (hfunctions : AllDeclared q.functions.entries costs) :
    ∃ r, Written.Query kind q.render r (costs.join q.complexity) ∧ r.erase = q.erase := by
  generalize hsize : Text.byteLength q.render.toList = size
  have hselect : EndsClause [.select, .include_, .update] q.renderEnding := by
    rw [renderEnding, ← List.append_nil (renderClause Keyword.update.text _ _).toList]
    exact ((EndsClause.nil.renderClause (by decide) _ _).renderClause (by decide) _ _).renderClause
      (by decide) _ _
  have hdeclare : NoWord .declare (q.renderBody ++ q.renderEnding) := by
    simp only [renderBody, Source.render, String.toList_append, List.append_assoc]
    cases q.source.isIndex <;> rfl
  obtain ⟨functions, r, hdeclared, hentries, hr⟩ := @AllDeclared.written _ _ hfunctions
    q.functions.sorted .empty (fun _ hmem => absurd hmem List.not_mem_nil) size _ _ hdeclare
    (congrArg Trivia.rest (toList_render h.selection))
  obtain ⟨body, r₁, hbody, hsame, hr₁⟩ :=
    h.body size q.render (Functions.erase_eq_iff.mpr hentries) hselect hr
  obtain ⟨found, rest, hending, hsame', hrest⟩ := h.ending size hsame hr₁
  subst hsize
  have hquery : Written.Query kind q.render found _ := .mk hdeclared hbody hending hrest
  refine ⟨found, ?_, hsame'⟩
  rw [complexity_eq]
  simpa only [Complexity.join_assoc] using hquery

end Query

end DocQuery
