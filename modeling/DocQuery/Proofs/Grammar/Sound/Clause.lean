import DocQuery.Proofs.Grammar.Sound.Condition
import DocQuery.Session

/-!
# Accepted queries are written

The readers of clauses accept only what the grammar says, and so does the reader
of a whole query.  The main statement is `Query.written_of_parse`.
-/

namespace DocQuery.Grammar

open Lexical Written

variable {size : Nat} {cs : List Char} {s s' : State}

/-- Where the reader gives an answer, the part is written, and its connectives are counted. -/
def Accepts {α : Type} (size : Nat) (reader : Read α) (part : Written.Part α) : Prop :=
  ∀ {cs : List Char} {s s' : State} {a : α}, Stands size cs s → reader s = .ok a s' →
    ∃ cost rest, part cs a cost rest ∧ Moves s rest cost.connectives s'

/-! ## Shapes -/

theorem commaSeparated_sound {α : Type} {item : Nat → Read α} {part : Written.Part α}
    (hitem : ∀ fuel, Accepts size (item fuel) part) (fuel : Nat) :
    Accepts size (commaSeparated item fuel) (Items part) := by
  intro cs s s' as hs h
  induction fuel generalizing cs s as with
  | zero => exact (throw_ne_ok h).elim
  | succ fuel ih =>
      obtain ⟨first, s₁, hfirst, h⟩ := bind_eq_ok h
      obtain ⟨cost, r, hpart, hmoves⟩ := hitem fuel hs hfirst
      have hr := hmoves.stands hs
      obtain ⟨comma, s₂, hcomma, h⟩ := bind_eq_ok h
      rcases char_eq_ok hr hcomma with ⟨rfl, hno, rfl⟩ | ⟨r₁, rfl, hmark, htook⟩
      · obtain ⟨rfl, rfl⟩ := pure_eq_ok h
        exact ⟨cost, r, .last hpart hno, hmoves⟩
      · obtain ⟨others, s₃, hothers, h⟩ := bind_eq_ok h
        obtain ⟨rfl, rfl⟩ := pure_eq_ok h
        obtain ⟨costs, rest, hothers, hmoves₁⟩ := ih (htook.stands hr) hothers
        exact ⟨cost.join costs, rest, .more hpart hmark hothers,
          (hmoves.trans htook.toMoves).trans hmoves₁⟩

theorem optional_sound {α : Type} {reader : Read α} {part : Written.Part α} (keyword : Keyword)
    (hreader : Accepts size reader part) :
    Accepts size (optional keyword reader) (Clause keyword part) := by
  intro cs s s' a hs h
  obtain ⟨found, s₁, hword, h⟩ := bind_eq_ok h
  rcases keyword_eq_ok hs hword with ⟨rfl, hno, rfl⟩ | ⟨token, r, rfl, htake, htook⟩
  · obtain ⟨rfl, rfl⟩ := pure_eq_ok h
    exact ⟨.zero, cs, .absent hno, Moves.refl hs⟩
  · obtain ⟨body, s₂, hbody, h⟩ := bind_eq_ok h
    obtain ⟨rfl, rfl⟩ := pure_eq_ok h
    obtain ⟨cost, rest, hpart, hmoves⟩ := hreader (htook.stands hs) hbody
    exact ⟨cost, rest, .present ⟨token, htake⟩ hpart, htook.toMoves.next hmoves⟩

/-! ## Scripts, names and aliases -/

theorem script_sound {found : Option Script} (hs : Stands size cs s)
    (h : script s = .ok found s') :
    (found = none ∧ Passes Rule.block cs ∧ s = s') ∨
      ∃ body rest, found = some body ∧ Written.Script size cs body rest ∧ Moves s rest 0 s' := by
  obtain ⟨found, s₁, hblock, h⟩ := bind_eq_ok h
  rcases block_eq_ok hs hblock with ⟨rfl, hno, rfl⟩ | ⟨token, rest, rfl, htake, htook⟩
  · obtain ⟨rfl, rfl⟩ := pure_eq_ok h
    exact Or.inl ⟨rfl, hno, rfl⟩
  · obtain ⟨token', s₂, htoken, h⟩ := bind_eq_ok h
    cases htoken
    obtain ⟨rfl, rfl⟩ := pure_eq_ok h
    rw [htook.token]
    exact Or.inr ⟨_, rest, rfl, .mk htake, htook.toMoves⟩

theorem asName_sound {needsAs : Bool} {fuel : Nat} {found : Option String}
    (hs : Stands size cs s) (h : asName needsAs fuel s = .ok found s') :
    ∃ rest, AsName size needsAs cs found rest ∧ Moves s rest 0 s' := by
  obtain ⟨keyword, s₁, hword, h⟩ := bind_eq_ok h
  rcases anyKeyword_eq_ok hs hword with ⟨rfl, hno, rfl⟩ | ⟨keyword, token, r, rfl, htake, htook⟩
  · cases needsAs with
    | true =>
        obtain ⟨rfl, rfl⟩ := pure_eq_ok h
        exact ⟨cs, .needed hno rfl, Moves.refl hs⟩
    | false =>
        obtain ⟨found, s₂, hpath, h⟩ := bind_eq_ok h
        obtain ⟨rfl, rfl⟩ := pure_eq_ok h
        rcases path_sound hs hpath with ⟨rfl, rest, hnone, hmoves⟩ | ⟨p, rest, rfl, hpath, hmoves⟩
        · exact ⟨rest, .absent hno rfl hnone, hmoves⟩
        · exact ⟨rest, .bare hno rfl hpath, hmoves⟩
  · by_cases has : keyword = .as_
    · subst has
      obtain ⟨p, s₂, hpath, h⟩ := bind_eq_ok h
      obtain ⟨rfl, rfl⟩ := pure_eq_ok h
      obtain ⟨rest, hpath, hmoves⟩ := requirePath_sound (htook.stands hs) hpath
      exact ⟨rest, .named htake hpath, htook.toMoves.trans hmoves⟩
    · have hback : (do unread; return none : Read (Option String)) s₁ = .ok found s' := by
        cases keyword <;> first | exact h | exact absurd rfl has
      obtain ⟨u, s₂, hunread, h⟩ := bind_eq_ok hback
      obtain ⟨rfl, rfl⟩ := pure_eq_ok h
      obtain ⟨s₃, hunread', hmoves⟩ := unread_eq hs htake.split htook
      rw [hunread'] at hunread
      cases hunread
      exact ⟨token ++ r, .clause htake has, hmoves⟩

/-! ## Parts with arguments and conditions -/

theorem filter_sound (limits : Limits) (e : Expectation) (fuel : Nat) :
    Accepts size (require e (condition limits fuel)) (Filter size) := by
  intro cs s s' filter hs h
  obtain ⟨c, rest, hcondition, rfl, hmoves⟩ := (sound limits fuel).condition hs (require_eq_ok h)
  exact ⟨c.cost, rest, .mk hcondition, hmoves⟩

/-- A list of arguments is gone into and come out of. -/
theorem argumentList_sound {limits : Limits} {fuel : Nat} {found : List Expr}
    (hs : Stands size cs s) (h : argumentList limits fuel s = .ok found s') :
    ∃ arguments rest, Arguments size true cs arguments rest ∧ arguments.trees = found ∧
      Moves s rest arguments.cost.nest.connectives s' := by
  obtain ⟨u, s₁, henter, h⟩ := bind_eq_ok h
  obtain rfl := enter_eq_ok henter
  have hinside : Stands size cs { s with depth := s.depth + 1 } := ⟨hs.ahead, hs.size_eq⟩
  obtain ⟨arguments, rest, harguments, rfl, hon, hdepth, hconnectives⟩ :=
    (sound limits fuel).arguments hinside h
  exact ⟨arguments, rest, harguments, rfl, ⟨hon.text, hon.ahead⟩,
    (Nat.succ.inj hdepth).symm, hconnectives⟩

theorem fieldOrCall_sound {limits : Limits} {fuel : Nat} {found : Option Expr}
    (hs : Stands size cs s) (h : fieldOrCall limits fuel s = .ok found s') :
    (found = none ∧ ∃ rest, NoPath cs rest ∧ Moves s rest 0 s') ∨
      ∃ e cost rest, found = some e ∧ FieldOrCall size cs e cost rest ∧
        Moves s rest cost.connectives s' := by
  obtain ⟨name, s₁, hpath, h⟩ := bind_eq_ok h
  rcases path_sound hs hpath with ⟨rfl, rest, hno, hmoves⟩ | ⟨name, r, rfl, hpath, hmoves⟩
  · obtain ⟨rfl, rfl⟩ := pure_eq_ok h
    exact Or.inl ⟨rfl, rest, hno, hmoves⟩
  · have hr := hmoves.stands hs
    obtain ⟨opened, s₂, hopen, h⟩ := bind_eq_ok h
    rcases char_eq_ok hr hopen with ⟨rfl, hno, rfl⟩ | ⟨r₁, rfl, hmark, htook⟩
    · obtain ⟨rfl, rfl⟩ := pure_eq_ok h
      exact Or.inr ⟨_, .zero, r, rfl, .field hpath hno, hmoves⟩
    · obtain ⟨found, s₃, hfound, h⟩ := bind_eq_ok h
      obtain ⟨rfl, rfl⟩ := pure_eq_ok h
      obtain ⟨arguments, rest, harguments, rfl, hmoves₁⟩ :=
        argumentList_sound (htook.stands hr) hfound
      exact Or.inr ⟨_, arguments.cost.nest, rest, rfl, .call hpath hmark harguments,
        (hmoves.next htook.toMoves).next hmoves₁⟩

/-! ## Items -/

theorem groupField_sound (fuel : Nat) : Accepts size (groupField fuel) (GroupField size) := by
  intro cs s s' p hs h
  obtain ⟨rest, hpath, hmoves⟩ := requirePath_sound hs h
  exact ⟨.zero, rest, .mk hpath, hmoves⟩

theorem sortType_sound {sortType : SortType} (hs : Stands size cs s)
    (h : Grammar.sortType s = .ok sortType s') :
    ∃ rest, Written.SortType cs sortType rest ∧ Moves s rest 0 s' := by
  obtain ⟨found, s₁, hword, h⟩ := bind_eq_ok h
  rcases keyword_eq_ok hs hword with ⟨rfl, hno, rfl⟩ | ⟨token, r, rfl, htake, htook⟩
  · obtain ⟨rfl, rfl⟩ := pure_eq_ok h
    exact ⟨cs, .implicit hno, Moves.refl hs⟩
  · rcases firstOf_eq_ok (htook.stands hs) (require_eq_ok h) with
      ⟨hnone, -, -⟩ | ⟨found, token', rest, hsome, htake', htook'⟩
    · cases hnone
    · cases hsome
      exact ⟨rest, .explicit ⟨token, htake⟩ htake', htook.toMoves.trans htook'.toMoves⟩

theorem ascending_sound {up : Bool} (hs : Stands size cs s) (h : ascending s = .ok up s') :
    ∃ rest, Ascending cs up rest ∧ Moves s rest 0 s' := by
  obtain ⟨found, s₁, hword, h⟩ := bind_eq_ok h
  rcases anyKeyword_eq_ok hs hword with ⟨rfl, hno, rfl⟩ | ⟨keyword, token, rest, rfl, htake, htook⟩
  · obtain ⟨rfl, rfl⟩ := pure_eq_ok h
    exact ⟨cs, .implicit hno, Moves.refl hs⟩
  · have hup : (keyword != .desc && keyword != .descending) = up ∧ s₁ = s' := by
      cases keyword <;> exact pure_eq_ok h
    obtain ⟨rfl, rfl⟩ := hup
    exact ⟨rest, .explicit htake, htook.toMoves⟩

theorem orderTerm_sound (limits : Limits) (fuel : Nat) :
    Accepts size (orderTerm limits fuel) (Written.OrderTerm size) := by
  intro cs s s' term hs h
  obtain ⟨key, s₁, hkey, h⟩ := bind_eq_ok h
  rcases fieldOrCall_sound hs (require_eq_ok hkey) with
    ⟨hnone, -⟩ | ⟨e, cost, r, hsome, hpart, hmoves⟩
  · cases hnone
  · cases hsome
    have hr := hmoves.stands hs
    obtain ⟨sortType, s₂, hsort, h⟩ := bind_eq_ok h
    obtain ⟨r₁, hsort, hmoves₁⟩ := sortType_sound hr hsort
    obtain ⟨up, s₃, hup, h⟩ := bind_eq_ok h
    obtain ⟨rfl, rfl⟩ := pure_eq_ok h
    obtain ⟨rest, hup, hmoves₂⟩ := ascending_sound (hmoves₁.stands hr) hup
    exact ⟨cost, rest, .mk hpart hsort hup, (hmoves.trans hmoves₁).trans hmoves₂⟩

theorem projected_sound (limits : Limits) (clause : ProjectionClause) (fuel : Nat) :
    Accepts size (projected limits clause fuel) (Projected size) := by
  intro cs s s' e hs h
  obtain ⟨found, s₁, hbody, h⟩ := bind_eq_ok h
  rcases fieldOrCall_sound hs hbody with
    ⟨rfl, r, hno, hmoves⟩ | ⟨body, cost, rest, rfl, hpart, hmoves⟩
  · obtain ⟨v, s₂, hvalue, h⟩ := bind_eq_ok h
    obtain ⟨rfl, rfl⟩ := pure_eq_ok h
    obtain ⟨rest, hvalue, hmoves₁⟩ := requireValue_sound (hmoves.stands hs) hvalue
    exact ⟨.zero, rest, .value hno hvalue, hmoves.trans hmoves₁⟩
  · obtain ⟨rfl, rfl⟩ := pure_eq_ok h
    exact ⟨cost, rest, .named hpart, hmoves⟩

theorem projection_sound (limits : Limits) (clause : ProjectionClause) (needsAs : Bool)
    (fuel : Nat) :
    Accepts size (projection limits clause needsAs fuel) (Written.Projection size needsAs) := by
  intro cs s s' entry hs h
  obtain ⟨body, s₁, hbody, h⟩ := bind_eq_ok h
  obtain ⟨cost, r, hpart, hmoves⟩ := projected_sound limits clause fuel hs hbody
  obtain ⟨name, s₂, hname, h⟩ := bind_eq_ok h
  obtain ⟨rfl, rfl⟩ := pure_eq_ok h
  obtain ⟨rest, hname, hmoves₁⟩ := asName_sound (hmoves.stands hs) hname
  exact ⟨cost, rest, .mk hpart hname, hmoves.trans hmoves₁⟩

theorem includeEntry_sound (fuel : Nat) :
    Accepts size (includeEntry fuel) (Include size) := by
  intro cs s s' e hs h
  obtain ⟨found, s₁, hvalue, h⟩ := bind_eq_ok h
  rcases value_sound hs hvalue with ⟨rfl, hno, hmoves⟩ | ⟨v, rest, rfl, hvalue, hmoves⟩
  · obtain ⟨p, s₂, hpath, h⟩ := bind_eq_ok h
    obtain ⟨rfl, rfl⟩ := pure_eq_ok h
    obtain ⟨rest, hpath, hmoves₁⟩ := requirePath_sound (hmoves.stands hs) hpath
    exact ⟨.zero, rest, .field hno hpath, hmoves.trans hmoves₁⟩
  · obtain ⟨rfl, rfl⟩ := pure_eq_ok h
    exact ⟨.zero, rest, .value hvalue, hmoves⟩

/-! ## Clauses -/

theorem selection_sound (limits : Limits) (fuel : Nat) :
    Accepts size (selection limits fuel) (Written.Selection size) := by
  intro cs s s' selection hs h
  obtain ⟨distinct, s₁, hdistinct, h⟩ := bind_eq_ok h
  obtain ⟨r, hdistinct, hmoves⟩ : ∃ r, Distinct cs distinct r ∧ Moves s r 0 s₁ := by
    rcases keyword_eq_ok hs hdistinct with ⟨rfl, hno, rfl⟩ | ⟨token, r, rfl, htake, htook⟩
    · exact ⟨cs, .absent hno, Moves.refl hs⟩
    · exact ⟨r, .present ⟨token, htake⟩, htook.toMoves⟩
  have hr := hmoves.stands hs
  obtain ⟨star, s₂, hstar, h⟩ := bind_eq_ok h
  rcases char_eq_ok hr hstar with ⟨rfl, hno, rfl⟩ | ⟨rest, rfl, hmark, htook⟩
  · obtain ⟨found, s₃, hscript, h⟩ := bind_eq_ok h
    rcases script_sound hr hscript with ⟨rfl, hnoScript, rfl⟩ | ⟨body, rest, rfl, hscript, hmoves₁⟩
    · obtain ⟨entries, s₄, hentries, h⟩ := bind_eq_ok h
      obtain ⟨rfl, rfl⟩ := pure_eq_ok h
      obtain ⟨cost, rest, hitems, hmoves₁⟩ :=
        commaSeparated_sound (projection_sound limits .select true) fuel hr hentries
      exact ⟨cost, rest, .entries hdistinct hno hnoScript hitems, hmoves.next hmoves₁⟩
    · obtain ⟨rfl, rfl⟩ := pure_eq_ok h
      exact ⟨.zero, rest, .script hdistinct hno hscript, hmoves.trans hmoves₁⟩
  · obtain ⟨rfl, rfl⟩ := pure_eq_ok h
    exact ⟨.zero, rest, .all hdistinct hmark, hmoves.trans htook.toMoves⟩

theorem sourceFilter_sound (limits : Limits) (fuel : Nat) :
    Accepts size (sourceFilter limits fuel) (SourceFilter size) := by
  intro cs s s' filter hs h
  obtain ⟨opened, s₁, hopen, h⟩ := bind_eq_ok h
  rcases char_eq_ok hs hopen with ⟨rfl, hno, rfl⟩ | ⟨r, rfl, hmark, htook⟩
  · obtain ⟨rfl, rfl⟩ := pure_eq_ok h
    exact ⟨.zero, cs, .absent hno, Moves.refl hs⟩
  · obtain ⟨u, s₂, henter, h⟩ := bind_eq_ok h
    obtain rfl := enter_eq_ok henter
    have hr : Stands size r { s₁ with depth := s₁.depth + 1 } :=
      ⟨htook.ahead, (htook.stands hs).size_eq⟩
    obtain ⟨inner, s₃, hinner, h⟩ := bind_eq_ok h
    obtain ⟨c, r₁, hcondition, rfl, hmoves⟩ :=
      (sound limits fuel).condition hr (require_eq_ok hinner)
    obtain ⟨u, s₄, hclose, h⟩ := bind_eq_ok h
    obtain ⟨rest, hclose, htook₁⟩ := expectChar_eq_ok (hmoves.stands hr) hclose
    obtain ⟨u, s₅, hleave, h⟩ := bind_eq_ok h
    obtain ⟨depth, hdepth, rfl⟩ := leave_eq_ok hleave
    obtain ⟨rfl, rfl⟩ := pure_eq_ok h
    refine ⟨c.cost.nest, rest, .present hmark hcondition hclose, ⟨?_, htook₁.ahead⟩, ?_, ?_⟩
    · exact htook₁.text.trans (hmoves.text.trans htook.text)
    · rw [htook₁.depth, hmoves.depth, htook.depth] at hdepth
      exact (Nat.succ.inj hdepth).symm
    · have hcount := htook₁.connectives.trans hmoves.connectives
      rwa [htook.connectives] at hcount

theorem source_sound (limits : Limits) (fuel : Nat) :
    Accepts size (source limits fuel) (Written.Source size) := by
  intro cs s s' source hs h
  obtain ⟨u, s₁, hstart, h⟩ := bind_eq_ok h
  obtain ⟨token, r, hfrom, htook⟩ := expectKeyword_eq_ok hs hstart
  have hr := htook.stands hs
  obtain ⟨isIndex, s₂, hindex, h⟩ := bind_eq_ok h
  rcases keyword_eq_ok hr hindex with ⟨rfl, hno, rfl⟩ | ⟨word, r₁, rfl, hword, htook₁⟩
  · obtain ⟨⟨text, quoted⟩, s₂, hname, h⟩ := bind_eq_ok h
    rcases segment_sound hr (require_eq_ok hname) with
      ⟨hnone, -, -⟩ | ⟨text', quoted', token', r₁, hsome, hsegment, htook₁⟩
    · cases hnone
    · cases hsome
      have hr₁ := htook₁.stands hr
      obtain ⟨name, s₃, htoken, h⟩ := bind_eq_ok h
      cases htoken
      obtain ⟨filter, s₄, hfound, h⟩ := bind_eq_ok h
      obtain ⟨cost, r₂, hfilter, hmoves⟩ := sourceFilter_sound limits fuel hr₁ hfound
      obtain ⟨found, s₅, hfound, h⟩ := bind_eq_ok h
      obtain ⟨rfl, rfl⟩ := pure_eq_ok h
      obtain ⟨rest, halias, hmoves₁⟩ := asName_sound (hmoves.stands hr₁) hfound
      rw [htook₁.token]
      exact ⟨cost, rest, .collection ⟨token, hfrom⟩ hno hsegment hfilter halias,
        ((htook.toMoves.next htook₁.toMoves).next hmoves).trans hmoves₁⟩
  · have hr₁ := htook₁.stands hr
    obtain ⟨⟨text, quoted⟩, s₃, hname, h⟩ := bind_eq_ok h
    rcases segment_sound hr₁ (require_eq_ok hname) with
      ⟨hnone, -, -⟩ | ⟨text', quoted', token', r₂, hsome, hsegment, htook₂⟩
    · cases hnone
    · cases hsome
      obtain ⟨name, s₄, htoken, h⟩ := bind_eq_ok h
      cases htoken
      obtain ⟨filter, s₅, hfilter, h⟩ := bind_eq_ok h
      obtain ⟨rfl, rfl⟩ := pure_eq_ok hfilter
      obtain ⟨found, s₅, hfound, h⟩ := bind_eq_ok h
      obtain ⟨rfl, rfl⟩ := pure_eq_ok h
      obtain ⟨rest, halias, hmoves⟩ := asName_sound (htook₂.stands hr₁) hfound
      rw [htook₂.token]
      exact ⟨.zero, rest, .index ⟨token, hfrom⟩ ⟨word, hword⟩ hsegment halias,
        ((htook.toMoves.trans htook₁.toMoves).trans htook₂.toMoves).trans hmoves⟩

/-! ## Declared functions -/

theorem declaration_sound (limits : Limits) (fuel : Nat) :
    Accepts size (declaration limits fuel) (Declaration size) := by
  intro cs s s' entry hs h
  obtain ⟨u, s₁, hword, h⟩ := bind_eq_ok h
  obtain ⟨keyword, r, hkeyword, htook⟩ := expectKeyword_eq_ok hs hword
  have hr := htook.stands hs
  obtain ⟨first, s₂, hfirst, h⟩ := bind_eq_ok h
  cases hfirst
  obtain ⟨named, s₂, hfound, h⟩ := bind_eq_ok h
  rcases identifier_eq_ok hr hfound with ⟨rfl, -, -⟩ | ⟨name, r₁, rfl, hname, htook₁⟩
  · exact (refuse_ne_ok h).elim
  · have hr₁ := htook₁.stands hr
    obtain ⟨last, s₃, hlast, h⟩ := bind_eq_ok h
    cases hlast
    obtain ⟨u, s₃, hopened, h⟩ := bind_eq_ok h
    obtain ⟨r₂, hopen, htook₂⟩ := expectChar_eq_ok hr₁ hopened
    have hr₂ := htook₂.stands hr₁
    obtain ⟨found, s₄, hfound, h⟩ := bind_eq_ok h
    obtain ⟨arguments, r₃, harguments, -, hmoves⟩ := argumentList_sound hr₂ hfound
    have hr₃ := hmoves.stands hr₂
    obtain ⟨body, s₅, hbody, h⟩ := bind_eq_ok h
    rcases script_sound hr₃ (require_eq_ok hbody) with
      ⟨hnone, -, -⟩ | ⟨body', rest, hsome, hscript, hmoves₁⟩
    · cases hnone
    · cases hscript with
      | mk hblock =>
          obtain ⟨text, s₆, htext, h⟩ := bind_eq_ok h
          have hall := (((htook.toMoves.next htook₁.toMoves).next htook₂.toMoves).next
            hmoves).trans hmoves₁
          have h₁ := hname.length_lt (Rule.sized_identifier true)
          have h₂ := hopen.length_lt
          have h₃ := harguments.length_lt
          have h₄ := hblock.length_lt Rule.sized_block
          obtain ⟨read, hread, htext'⟩ :=
            textFrom_since hs hkeyword.split htook hall.toOnward (by omega)
          rw [htext'] at htext
          cases htext
          obtain ⟨rfl, rfl⟩ := pure_eq_ok h
          rw [htook₁.token]
          exact ⟨arguments.cost.nest, rest, .mk hkeyword hname hopen harguments hblock hread, hall⟩

theorem declarations_sound {limits : Limits} {fuel : Nat} {known functions : Functions}
    (hs : Stands size cs s) (h : declarations limits known fuel s = .ok functions s') :
    ∃ cost rest, Declarations size known cs functions cost rest ∧
      Moves s rest cost.connectives s' := by
  induction fuel generalizing known cs s with
  | zero => exact (throw_ne_ok h).elim
  | succ fuel ih =>
      obtain ⟨found, s₁, hword, h⟩ := bind_eq_ok h
      rcases keyword_eq_ok hs hword with ⟨rfl, hno, rfl⟩ | ⟨token, r, rfl, htake, htook⟩
      · obtain ⟨rfl, rfl⟩ := pure_eq_ok h
        exact ⟨.zero, cs, .done hno, Moves.refl hs⟩
      · have hr := htook.stands hs
        obtain ⟨⟨name, body⟩, s₂, hentry, h⟩ := bind_eq_ok h
        obtain ⟨cost, r₁, hdeclaration, hmoves⟩ := declaration_sound limits fuel hr hentry
        cases hknown : known.contains name with
        | true =>
            simp only [hknown] at h
            exact (refuse_ne_ok h).elim
        | false =>
            simp only [hknown] at h
            obtain ⟨costs, rest, hothers, hmoves₁⟩ := ih (hmoves.stands hr) h
            exact ⟨cost.join costs, rest, .more ⟨token, htake⟩ hdeclaration hknown hothers,
              (htook.toMoves.next hmoves).trans hmoves₁⟩

/-! ## The whole query -/

theorem body_sound (limits : Limits) (functions : Functions) (fuel : Nat) {query : Query}
    (hs : Stands size cs s) (h : body limits functions fuel s = .ok query s') :
    ∃ cost rest, Body size s.scanner.text functions cs query cost rest ∧
      Moves s rest cost.connectives s' := by
  obtain ⟨state, s₁, hstate, h⟩ := bind_eq_ok h
  cases hstate
  obtain ⟨source, s₁, hfound, h⟩ := bind_eq_ok h
  obtain ⟨c₁, r₁, hsource, hmoves₁⟩ := source_sound limits fuel hs hfound
  have hr₁ := hmoves₁.stands hs
  obtain ⟨groupBy, s₂, hfound, h⟩ := bind_eq_ok h
  obtain ⟨c₂, r₂, hgroup, hmoves₂⟩ :=
    optional_sound .groupBy (commaSeparated_sound groupField_sound fuel) hr₁ hfound
  have hr₂ := hmoves₂.stands hr₁
  obtain ⟨filter, s₃, hfound, h⟩ := bind_eq_ok h
  obtain ⟨c₃, r₃, hfilter, hmoves₃⟩ :=
    optional_sound .where_ (filter_sound limits .whereCondition fuel) hr₂ hfound
  have hr₃ := hmoves₃.stands hr₂
  obtain ⟨orderBy, s₄, hfound, h⟩ := bind_eq_ok h
  obtain ⟨c₄, r₄, horder, hmoves₄⟩ :=
    optional_sound .orderBy (commaSeparated_sound (orderTerm_sound limits) fuel) hr₃ hfound
  have hr₄ := hmoves₄.stands hr₃
  obtain ⟨load, s₅, hfound, h⟩ := bind_eq_ok h
  obtain ⟨c₅, rest, hload, hmoves₅⟩ :=
    optional_sound .load (commaSeparated_sound (projection_sound limits .load false) fuel)
      hr₄ hfound
  obtain ⟨rfl, rfl⟩ := pure_eq_ok h
  refine ⟨_, rest, .mk hsource hgroup hfilter horder hload, ?_⟩
  have hall := (((hmoves₁.trans hmoves₂).trans hmoves₃).trans hmoves₄).trans hmoves₅
  rwa [Nat.add_assoc, Nat.add_assoc, Nat.add_assoc] at hall

theorem ending_sound (limits : Limits) (fuel : Nat) {kind : QueryKind} (query : Query) :
    Accepts size (ending limits fuel query kind) (Ending size kind query) := by
  intro cs s s' found hs h
  cases kind with
  | select =>
      obtain ⟨selection, s₁, hselection, h⟩ := bind_eq_ok h
      obtain ⟨cost, r, hselect, hmoves⟩ :=
        optional_sound .select (selection_sound limits fuel) hs hselection
      obtain ⟨includes, s₂, hincludes, h⟩ := bind_eq_ok h
      obtain ⟨costs, rest, hinclude, hmoves₁⟩ :=
        optional_sound .include_ (commaSeparated_sound includeEntry_sound fuel)
          (hmoves.stands hs) hincludes
      obtain ⟨rfl, rfl⟩ := pure_eq_ok h
      exact ⟨cost.join costs, rest, .select hselect hinclude, hmoves.trans hmoves₁⟩
  | update =>
      obtain ⟨script, s₁, hupdate, h⟩ := bind_eq_ok h
      obtain ⟨rfl, rfl⟩ := pure_eq_ok h
      obtain ⟨u, s₂, hword, hupdate⟩ := bind_eq_ok hupdate
      obtain ⟨token, r, hword, htook⟩ := expectKeyword_eq_ok hs hword
      rcases script_sound (htook.stands hs) (require_eq_ok hupdate) with
        ⟨hnone, -, -⟩ | ⟨body, rest, hsome, hscript, hmoves⟩
      · cases hnone
      · cases hsome
        exact ⟨.zero, rest, .update ⟨token, hword⟩ hscript, htook.toMoves.trans hmoves⟩

end DocQuery.Grammar

namespace DocQuery

open Grammar Lexical

/-- Parsing is what the reader of a whole query gives at the beginning of the text. -/
theorem Query.parse_eq (kind : QueryKind) (limits : Limits) (text : String) :
    Query.parse kind limits text =
      match query limits kind (Session.fuelFor text) ⟨.ofText text, 0, 0⟩ with
      | .ok q _ => .ok q
      | .error failure _ => .error failure := by
  have hread : Query.parse kind limits text =
      (match query limits kind (Session.fuelFor text) ⟨.ofText text, 0, 0⟩ with
      | .ok q s => (.ok q, ⟨s.scanner, limits⟩)
      | .error failure s => (.error failure, ⟨s.scanner, limits⟩) : Except Failure Query × Session).1 := rfl
  rw [hread]
  split <;> rfl

/-- A text is parsed if evaluation comes to a query. -/
theorem Query.parse_of_toOption {kind : QueryKind} {limits : Limits} {text : String} {q : Query}
    (h : (Query.parse kind limits text).toOption = some q) :
    Query.parse kind limits text = .ok q := by
  cases hresult : Query.parse kind limits text with
  | error failure =>
      rw [hresult] at h
      cases h
  | ok found =>
      rw [hresult] at h
      cases h
      rfl

/-- A parsed query is written, and what is written at the end of its text is trivia. -/
theorem Query.written_of_parse {kind : QueryKind} {limits : Limits} {text : String}
    {q : Query} (h : Query.parse kind limits text = .ok q) :
    ∃ cost, Written.Query kind text q cost := by
  have hread : ∃ s', query limits kind (Session.fuelFor text) ⟨.ofText text, 0, 0⟩ = .ok q s' := by
    rw [Query.parse_eq] at h
    split at h
    · next hrun =>
        cases h
        exact ⟨_, hrun⟩
    · cases h
  obtain ⟨s', hread⟩ := hread
  have hs := stands_ofText text
  obtain ⟨functions, s₁, hfound, hread⟩ := bind_eq_ok hread
  obtain ⟨c₁, r₁, hdeclarations, hmoves₁⟩ := declarations_sound hs hfound
  have hr₁ := hmoves₁.stands hs
  obtain ⟨body, s₂, hfound, hread⟩ := bind_eq_ok hread
  obtain ⟨c₂, r₂, hbody, hmoves₂⟩ := body_sound limits functions _ hr₁ hfound
  have hr₂ := hmoves₂.stands hr₁
  rw [hmoves₁.text] at hbody
  obtain ⟨query, s₃, hfound, hread⟩ := bind_eq_ok hread
  obtain ⟨c₃, rest, hending, hmoves₃⟩ := ending_sound limits _ body hr₂ hfound
  obtain ⟨done, s₄, hend, hread⟩ := bind_eq_ok hread
  rw [atEnd_eq (hmoves₃.stands hr₂)] at hend
  cases hend
  split at hread
  · next hempty =>
      obtain ⟨rfl, rfl⟩ := pure_eq_ok hread
      exact ⟨_, .mk hdeclarations hbody hending (List.isEmpty_iff.mp hempty)⟩
  · exact (refuse_ne_ok hread).elim

end DocQuery
