import DocQuery.Proofs.Canonical.Function
import DocQuery.Proofs.Faults
import DocQuery.Proofs.Keywords
import DocQuery.Proofs.Limits

/-!
# Declared functions in any order

Each turn of the loop over declared functions goes over a block of the text, from
the trivia in front of DECLARE to the brace that closes the script.  A block reads
as the same function, at the same cost, wherever it stands, so the blocks may be
put in any order.  Two blocks of one name are refused in every order.  The main
statement is `Query.parse_blocks_in_any_order`.
-/

namespace DocQuery

open Grammar Lexical Written

/-! ## What is read is read in one way -/

namespace Grammar

/-- A reader may stand before any characters that a text of the size has room for. -/
theorem exists_stands {size : Nat} {cs : List Char} (h : Text.byteLength cs ≤ size) :
    ∃ s, Stands size cs s := by
  have hblank : ∀ n, Text.byteLength (List.replicate n ' ') = n := by
    intro n
    induction n with
    | zero => rfl
    | succ n ih =>
        rw [List.replicate_succ, Text.byteLength_cons, ih]
        exact Nat.add_comm 1 n
  obtain ⟨more, rfl⟩ := Nat.exists_eq_add_of_le h
  have hsize : Text.byteLength (List.replicate more ' ' ++ cs) = Text.byteLength cs + more := by
    rw [Text.byteLength_append, hblank, Nat.add_comm]
  refine ⟨⟨(Scanner.ofText (String.ofList (List.replicate more ' ' ++ cs))).moveTo more, 0, 0⟩,
    ?_, ?_⟩
  · have hplace := @Text.dropBytes?_append (List.replicate more ' ') cs
    rw [hblank] at hplace
    simp only [Scanner.moveTo, Scanner.ofText, Text.utf8ByteSize_eq, String.toList_ofList, hsize]
    rw [Nat.min_eq_left (Nat.le_add_left _ _), hplace]
  · rw [Scanner.text_moveTo, Scanner.ofText, String.toList_ofList, hsize]

theorem byteLength_le_of_word {keyword : Keyword} {cs rest : List Char}
    (h : Word keyword cs rest) : Text.byteLength rest ≤ Text.byteLength cs := by
  obtain ⟨token, htake⟩ := h
  obtain ⟨gap, rfl, -⟩ := htake.exists_longest
  simp only [Text.byteLength_append]
  omega

/-- A reader that finds whatever is written finds one thing only. -/
theorem Covers.unique {α : Type} {size fuel : Nat} {reader : Limits → Read α}
    {part : Written.Part α} {cs rest rest' : List Char} {a a' : α} {cost cost' : Complexity}
    (hcovers : Covers size fuel reader part) (hfuel : 4 * cs.length + 7 ≤ fuel)
    (hsize : Text.byteLength cs ≤ size) (h : part cs a cost rest) (h' : part cs a' cost' rest') :
    a = a' ∧ rest = rest' := by
  obtain ⟨s, hs⟩ := exists_stands hsize
  obtain ⟨s₁, hrun, hmoves⟩ := hcovers hfuel hs h
  obtain ⟨s₂, hrun', hmoves'⟩ := hcovers hfuel hs h'
  -- limits that both costs fit
  have hread := @hrun.fits ⟨s.depth + (cost.depth + cost'.depth),
    s.connectives + (cost.connectives + cost'.connectives)⟩
      ⟨Nat.add_le_add_left (Nat.le_add_right _ _) _, Nat.add_le_add_left (Nat.le_add_right _ _) _⟩
  have hread' := @hrun'.fits ⟨s.depth + (cost.depth + cost'.depth),
    s.connectives + (cost.connectives + cost'.connectives)⟩
      ⟨Nat.add_le_add_left (Nat.le_add_left _ _) _, Nat.add_le_add_left (Nat.le_add_left _ _) _⟩
  rw [hread] at hread'
  cases hread'
  exact ⟨rfl, Option.some.inj (hmoves.ahead.symm.trans hmoves'.ahead)⟩

end Grammar

/-! ## Sorted entries -/

namespace Functions

/-- The entries without positions. -/
def erased (functions : Functions) : List (String × Script) :=
  functions.entries.map (Prod.map id Script.erase)

theorem contains_eq_false_iff {name : String} {functions : Functions} :
    functions.contains name = false ↔ ∀ entry ∈ functions.entries, entry.1 ≠ name := by
  simp [contains]

/-- To put in an entry with a new name is to add it to the others. -/
theorem perm_insertEntry {name : String} {script : Script} {entries : List (String × Script)}
    (h : ∀ entry ∈ entries, entry.1 ≠ name) :
    (insertEntry name script entries).Perm ((name, script) :: entries) := by
  induction entries with
  | nil => exact .refl _
  | cons head entries ih =>
      obtain ⟨other, kept⟩ := head
      rw [List.forall_mem_cons] at h
      rw [insertEntry]
      split
      · exact .refl _
      · rw [if_neg (Ne.symm h.1)]
        exact ((ih h.2).cons _).trans (.swap _ _ _)

theorem contains_insert {name other : String} {script : Script} {functions : Functions}
    (h : functions.contains name = false) :
    (functions.insert name script).contains other = false ↔
      name ≠ other ∧ functions.contains other = false := by
  have hperm := @perm_insertEntry name script _ (contains_eq_false_iff.mp h)
  rw [contains, insert, hperm.any_eq, List.any_cons, Bool.or_eq_false_iff, contains]
  simp

theorem perm_erased_insert {name : String} {script : Script} {functions : Functions}
    (h : functions.contains name = false) :
    (functions.insert name script).erased.Perm ((name, script.erase) :: functions.erased) :=
  (perm_insertEntry (contains_eq_false_iff.mp h)).map _

/-- The order of the names is all the order there is. -/
theorem erase_eq_of_perm {f g : Functions} (h : f.erased.Perm g.erased) : f.erase = g.erase := by
  have hsorted : ∀ functions : Functions, functions.erased.Pairwise fun a b => a.1 < b.1 :=
    fun functions => List.pairwise_map.mpr functions.sorted
  rw [erase_eq_iff]
  exact h.eq_of_pairwise
    (fun _ _ _ _ hlt hgt => absurd (String.lt_trans hlt hgt) (String.lt_irrefl _))
    (hsorted f) (hsorted g)

end Functions

/-! ## Blocks -/

/-- A piece of a text that declares a function of this name and text. -/
structure DeclareBlock where
  chars : List Char
  name : String
  text : String

namespace Grammar

/-- One turn of the loop over declared functions, which ends where DECLARE is missing. -/
def declareTurn (limits : Limits) (fuel : Nat) : Read (Option (String × Script)) :=
  optional .declare (declaration limits fuel)

/-- The loop takes turns as long as they find functions of new names. -/
theorem declarations_succ (limits : Limits) (known : Functions) (fuel : Nat) :
    declarations limits known (fuel + 1) = (do
      match ← declareTurn limits fuel with
      | none => return known
      | some (name, body) =>
        if known.contains name then refuse (.otherFunctionName name)
        else declarations limits (known.insert name body) fuel) := by
  funext s
  rw [declarations, declareTurn, optional]
  simp only [bind, EStateM.bind]
  cases scan (Scanner.keyword .declare) s with
  | error failure s₁ => rfl
  | ok found s₁ =>
      cases found with
      | false => rfl
      | true =>
          simp only [if_true, EStateM.bind]
          cases declaration limits fuel s₁ <;> rfl

end Grammar

namespace DeclareBlock

/-- The characters of several blocks, one behind the other. -/
def charsOf (blocks : List DeclareBlock) : List Char :=
  blocks.flatMap chars

theorem charsOf_cons (block : DeclareBlock) (blocks : List DeclareBlock) (rest : List Char) :
    charsOf (block :: blocks) ++ rest = block.chars ++ (charsOf blocks ++ rest) := by
  rw [charsOf, List.flatMap_cons, List.append_assoc, charsOf]

/-- The entry that the block makes, without a position. -/
def entry (block : DeclareBlock) : String × Script :=
  (block.name, .plain block.text)

/-- In front of the rest, a turn of the loop goes over the block and reads its function. -/
def IsTaken (limits : Limits) (block : DeclareBlock) (rest : List Char) : Prop :=
  ∃ fuel s s' span, s.scanner.ahead = some (block.chars ++ rest) ∧
    declareTurn limits fuel s = .ok (some (block.name, ⟨block.text, span⟩)) s' ∧
    s'.scanner.ahead = some rest

/-- Turns of the loop go over the blocks, one after the other, up to the rest of the text. -/
inductive AreTaken (limits : Limits) (rest : List Char) : List DeclareBlock → Prop where
  | nil : AreTaken limits rest []
  | cons {block : DeclareBlock} {blocks : List DeclareBlock} :
      block.IsTaken limits (charsOf blocks ++ rest) → AreTaken limits rest blocks →
      AreTaken limits rest (block :: blocks)

/-- The block declares its function at this cost in front of any text. -/
def Declares (block : DeclareBlock) (cost : Complexity) : Prop :=
  ∀ size rest, ∃ r script, Word .declare (block.chars ++ rest) r ∧
    Declaration size r (block.name, script) cost rest ∧ script.text = block.text

theorem declares_of_written {block : DeclareBlock} {size : Nat} {r rest : List Char}
    {script : Script} {cost : Complexity} (hword : Word .declare (block.chars ++ rest) r)
    (h : Declaration size r (block.name, script) cost rest) (htext : script.text = block.text) :
    block.Declares cost := by
  intro size' rest'
  obtain ⟨body, r', script', htwin, hwritten, hsame⟩ := h.twin size' rest'
  obtain ⟨token, hword⟩ := hword
  obtain ⟨cs, htwin', hword'⟩ :=
    htwin.takes (Rule.settled_keyword rfl) (Rule.sized_phrase _) hword
  generalize hcs : block.chars ++ rest = cs₀ at htwin'
  cases htwin' with
  | @mk gap piece _ _ =>
      have hchars : block.chars = gap ++ (piece ++ '{' :: body) :=
        @List.append_cancel_right _ _ rest _ (by simpa using hcs)
      refine ⟨r', script', ⟨token, ?_⟩, hwritten, hsame.trans htext⟩
      rw [hchars]
      simpa using hword'

/-- What a turn goes over declares its function in front of any text. -/
theorem IsTaken.exists_declares {limits : Limits} {block : DeclareBlock} {rest : List Char}
    (h : block.IsTaken limits rest) : ∃ cost, block.Declares cost := by
  obtain ⟨fuel, s, s', span, hahead, hturn, hahead'⟩ := h
  obtain ⟨cost, rest', hclause, hmoves⟩ :=
    optional_sound .declare (declaration_sound limits fuel) ⟨hahead, rfl⟩ hturn
  obtain rfl : rest' = rest := Option.some.inj (hmoves.ahead.symm.trans hahead')
  cases hclause with
  | present hword hdeclaration => exact ⟨cost, declares_of_written hword hdeclaration rfl⟩

/--
The block ends with the text of its function, which goes from the keyword FUNCTION
over the name and parameters to the brace that closes the script.
-/
inductive IsWhole : DeclareBlock → Prop where
  | mk {chars declare function name parameters script r r₁ r₂ : List Char} :
      Scanner.Spelled Keyword.declare.text chars declare r →
      Scanner.Spelled Keyword.function.text r function r₁ →
      Takes (Rule.identifier true) r₁ name () r₂ → Mark '(' r₂ (parameters ++ script) →
      Lexical.Block.IsScript script →
      IsWhole ⟨chars, String.ofList name, String.ofList (function ++ r₁)⟩

theorem Declares.isWhole {block : DeclareBlock} {cost : Complexity} (h : block.Declares cost) :
    block.IsWhole := by
  -- nothing stands behind the block, so its text goes to the end
  obtain ⟨r, script, ⟨token, hword⟩, hdeclaration, htext⟩ := h 0 []
  obtain ⟨chars, name, text⟩ := block
  rw [List.append_nil] at hword
  cases hdeclaration with
  | @mk _ function r₁ name r₂ r₃ _ _ _ whole _ hfunction hname hopen hparameters hblock hwhole =>
      cases htext
      obtain rfl : function ++ r₁ = whole := by simpa using hwhole
      obtain ⟨body, rfl, htwin⟩ := hparameters.before_script hblock
      obtain ⟨_, _, _, hr₃, -⟩ := htwin 0 []
      cases hr₃ with
      | @mk gap piece _ _ =>
          have hopen : Mark '(' r₂ (gap ++ piece ++ '{' :: body) := by simpa using hopen
          exact .mk (Scanner.takes_phrase_iff.mp hword) (Scanner.takes_phrase_iff.mp hfunction)
            hname hopen (Rule.block_eq_some_iff.mp hblock.measured)

/-- All blocks declare their functions, at this cost together. -/
inductive DeclareAll : List DeclareBlock → Complexity → Prop where
  | nil : DeclareAll [] .zero
  | cons {block : DeclareBlock} {blocks : List DeclareBlock} {cost costs : Complexity} :
      block.Declares cost → DeclareAll blocks costs → DeclareAll (block :: blocks) (cost.join costs)

theorem AreTaken.declareAll {limits : Limits} {rest : List Char} {blocks : List DeclareBlock}
    (h : AreTaken limits rest blocks) : ∃ costs, DeclareAll blocks costs := by
  induction h with
  | nil => exact ⟨.zero, .nil⟩
  | cons hblock _ ih =>
      obtain ⟨costs, hblocks⟩ := ih
      obtain ⟨cost, hdeclares⟩ := hblock.exists_declares
      exact ⟨_, .cons hdeclares hblocks⟩

namespace DeclareAll

variable {blocks order : List DeclareBlock} {cost costs : Complexity}

/-- The cost does not depend on the order. -/
theorem perm (h : blocks.Perm order) :
    ∀ {costs}, DeclareAll blocks costs → DeclareAll order costs := by
  induction h with
  | nil => exact id
  | cons block _ ih =>
      intro costs h
      cases h with
      | cons hblock hblocks => exact .cons hblock (ih hblocks)
  | swap first second blocks =>
      intro costs h
      cases h with
      | @cons _ _ c₂ _ hsecond h =>
          cases h with
          | @cons _ _ c₁ c hfirst hblocks =>
              have hcost : c₂.join (c₁.join c) = c₁.join (c₂.join c) := by
                rw [← Complexity.join_assoc, Complexity.join_comm c₂, Complexity.join_assoc]
              rw [hcost]
              exact .cons hfirst (.cons hsecond hblocks)
  | trans _ _ ih₁ ih₂ => exact fun h => ih₂ (ih₁ h)

/-- The entry of a block comes in front of those of the blocks behind it. -/
theorem perm_entry {block : DeclareBlock} {script : Script} {known functions : Functions}
    (htext : script.text = block.text) (hfresh : known.contains block.name = false)
    (h : functions.erased.Perm (blocks.map entry ++ (known.insert block.name script).erased)) :
    functions.erased.Perm ((block :: blocks).map entry ++ known.erased) := by
  have hentry : (block.name, script.erase) = block.entry := by
    rw [entry, ← htext]
    rfl
  have hinsert := @Functions.perm_erased_insert _ script _ hfresh
  rw [hentry] at hinsert
  exact (h.trans (hinsert.append_left _)).trans List.perm_middle

/-- Blocks of different new names are written one behind the other. -/
theorem written (h : DeclareAll blocks costs) {known : Functions}
    (hnames : (blocks.map name).Nodup)
    (hfresh : ∀ block ∈ blocks, known.contains block.name = false) (size : Nat) {rest : List Char} (hrest : NoWord .declare rest) :
    ∃ functions, Declarations size known (charsOf blocks ++ rest) functions costs rest ∧
      functions.erased.Perm (blocks.map entry ++ known.erased) := by
  induction h generalizing known with
  | nil => exact ⟨known, .done hrest, .refl _⟩
  | @cons block blocks cost costs hblock hblocks ih =>
      rw [List.map_cons, List.nodup_cons] at hnames
      rw [List.forall_mem_cons] at hfresh
      obtain ⟨r, script, hword, hdeclaration, htext⟩ := hblock size (charsOf blocks ++ rest)
      have hothers : ∀ other ∈ blocks,
          (known.insert block.name script).contains other.name = false := fun other hmem =>
        (Functions.contains_insert hfresh.1).mpr
          ⟨fun heq => hnames.1 (heq ▸ List.mem_map_of_mem hmem), hfresh.2 other hmem⟩
      obtain ⟨functions, hwritten, hperm⟩ := ih hnames.2 hothers
      refine ⟨functions, ?_, ?_⟩
      · rw [charsOf_cons]
        exact .more hword hdeclaration hfresh.1 hwritten
      · exact perm_entry htext hfresh.1 hperm

/--
Where functions are read in front of the rest of a text, the blocks have different
new names, and only the rest decides on further functions.
-/
theorem of_written (h : DeclareAll blocks costs) {known functions : Functions} {size : Nat}
    {rest r : List Char}
    (hwritten : Declarations size known (charsOf blocks ++ rest) functions cost r)
    (hsize : Text.byteLength (charsOf blocks ++ rest) ≤ size) :
    (blocks.map name).Nodup ∧ (∀ block ∈ blocks, known.contains block.name = false) ∧
      (NoWord .declare rest →
        r = rest ∧ functions.erased.Perm (blocks.map entry ++ known.erased)) := by
  induction h generalizing known cost with
  | nil =>
      refine ⟨.nil, by simp, fun hrest => ?_⟩
      cases hwritten with
      | done _ => exact ⟨rfl, .refl _⟩
      | more hword => exact absurd hrest hword.not_noWord
  | @cons block blocks _ costs hblock hblocks ih =>
      obtain ⟨r₁, script, hword, hdeclaration, htext⟩ := hblock size (charsOf blocks ++ rest)
      rw [charsOf_cons] at hwritten hsize
      cases hwritten with
      | done hno => exact absurd hno hword.not_noWord
      | more hword' hdeclaration' hfresh hothers =>
          obtain rfl := hword.unique hword'
          obtain ⟨heq, rfl⟩ := Covers.unique (declaration_complete _) (Nat.le_refl _)
            (Nat.le_trans (byteLength_le_of_word hword) hsize) hdeclaration hdeclaration'
          cases heq
          have hothers_size : Text.byteLength (charsOf blocks ++ rest) ≤ size := by
            rw [Text.byteLength_append] at hsize
            omega
          obtain ⟨hnames, hblocks_fresh, hrest⟩ := ih hothers hothers_size
          have hsplit : ∀ other ∈ blocks,
              block.name ≠ other.name ∧ known.contains other.name = false := fun other hmem =>
            (Functions.contains_insert hfresh).mp (hblocks_fresh other hmem)
          refine ⟨?_, ?_, fun hno => ?_⟩
          · rw [List.map_cons, List.nodup_cons]
            refine ⟨fun hmem => ?_, hnames⟩
            obtain ⟨other, hother, heq⟩ := List.mem_map.mp hmem
            exact (hsplit other hother).1 heq.symm
          · exact List.forall_mem_cons.mpr ⟨hfresh, fun other hmem => (hsplit other hmem).2⟩
          · obtain ⟨rfl, hperm⟩ := hrest hno
            exact ⟨rfl, perm_entry htext hfresh hperm⟩

end DeclareAll

/-! ## Texts of blocks -/

/-- A text that has the blocks in front of the rest. -/
def textOf (blocks : List DeclareBlock) (rest : List Char) : String :=
  String.ofList (charsOf blocks ++ rest)

@[simp] theorem toList_textOf (blocks : List DeclareBlock) (rest : List Char) :
    (textOf blocks rest).toList = charsOf blocks ++ rest := String.toList_ofList

/-- Texts with the blocks in another order are as long. -/
theorem byteLength_textOf {blocks order : List DeclareBlock} (h : order.Perm blocks)
    (rest : List Char) :
    Text.byteLength (textOf order rest).toList = Text.byteLength (textOf blocks rest).toList := by
  have hchars : Text.byteLength (charsOf order) = Text.byteLength (charsOf blocks) := by
    induction h with
    | nil => rfl
    | cons block _ ih =>
        simp only [charsOf, List.flatMap_cons, Text.byteLength_append] at ih ⊢
        rw [ih]
    | swap first second blocks =>
        simp only [charsOf, List.flatMap_cons, Text.byteLength_append]
        omega
    | trans _ _ ih₁ ih₂ => exact ih₁.trans ih₂
  rw [toList_textOf, toList_textOf, Text.byteLength_append, Text.byteLength_append, hchars]

end DeclareBlock

/-! ## Clauses behind other functions -/

namespace Written

variable {size : Nat} {cs rest : List Char} {q : DocQuery.Query} {cost : Complexity}

theorem Body.behind {text : String} {functions : Functions}
    (h : Body size text functions cs q cost rest) (text' : String) (functions' : Functions) :
    Body size text' functions' cs { q with text := text', functions := functions' } cost rest := by
  cases h with
  | mk hsource hgroup hfilter horder hload => exact .mk hsource hgroup hfilter horder hload

theorem Ending.behind {kind : QueryKind} {body : DocQuery.Query}
    (h : Ending size kind body cs q cost rest) (text : String) (functions : Functions) :
    Ending size kind { body with text := text, functions := functions } cs
      { q with text := text, functions := functions } cost rest := by
  cases h with
  | select hselect hincludes => exact .select hselect hincludes
  | update hword hscript => exact .update hword hscript

end Written

namespace DeclareBlock

variable {limits : Limits} {kind : QueryKind} {rest : List Char} {blocks : List DeclareBlock}
  {q : Query} {cost costs : Complexity}

/-- Where the blocks are in front of a query, they are in any order, at one cost. -/
theorem DeclareAll.query_written (h : DeclareAll blocks costs) (hrest : NoWord .declare rest)
    (hwritten : Written.Query kind (textOf blocks rest) q cost) :
    ∃ cost', ∀ order, order.Perm blocks → ∃ functions : Functions,
      Written.Query kind (textOf order rest)
        { q with text := textOf order rest, functions := functions } cost' ∧
      functions.erased.Perm (blocks.map entry) := by
  obtain @⟨_, _, _, _, _, _, _, c₂, c₃, hdeclarations, hbody, hending, hend⟩ := hwritten
  rw [toList_textOf] at hdeclarations
  obtain ⟨hnames, -, hall⟩ := h.of_written hdeclarations (Nat.le_refl _)
  obtain ⟨rfl, -⟩ := hall hrest
  refine ⟨costs.join (c₂.join c₃), fun order horder => ?_⟩
  obtain ⟨functions, hfunctions, hperm⟩ := @(h.perm horder.symm).written _ _ .empty
    ((horder.map name).nodup_iff.mpr hnames) (fun _ _ => rfl)
    (Text.byteLength (textOf order _).toList) _ hrest
  rw [← byteLength_textOf horder] at hbody hending
  refine ⟨functions, .mk ?_ (hbody.behind _ functions) (hending.behind _ functions) hend, ?_⟩
  · rwa [toList_textOf] at hfunctions ⊢
  · exact (hperm.trans (by simp [Functions.erased, Functions.empty])).trans (horder.map entry)

/-- The loop over declared functions goes over blocks up to where DECLARE is missing. -/
theorem exists_taken {size fuel : Nat} {cs : List Char} {s s' : State} {known functions : Functions}
    (hs : Stands size cs s) (h : declarations limits known fuel s = .ok functions s') :
    ∃ blocks rest, cs = charsOf blocks ++ rest ∧ AreTaken limits rest blocks ∧
      NoWord .declare rest := by
  induction fuel generalizing known cs s with
  | zero => exact (throw_ne_ok h).elim
  | succ fuel ih =>
      rw [declarations_succ] at h
      obtain ⟨found, s₁, hturn, h⟩ := bind_eq_ok h
      obtain ⟨cost, r, hclause, hmoves⟩ :=
        optional_sound .declare (declaration_sound limits fuel) hs hturn
      cases hclause with
      | absent hno => exact ⟨[], cs, rfl, .nil, hno⟩
      | @present _ _ _ entry _ hword hdeclaration =>
          have hlength := Nat.le_trans (spends_declaration.length_le hdeclaration)
            (Nat.le_of_lt hword.length_lt)
          have hends := (hmoves.stands hs).suffix
          rw [hmoves.text] at hends
          obtain ⟨chars, rfl⟩ := List.suffix_of_suffix_length_le hends hs.suffix hlength
          cases hknown : known.contains entry.1 with
          | true =>
              simp only [hknown] at h
              exact (refuse_ne_ok h).elim
          | false =>
              simp only [hknown] at h
              obtain ⟨blocks, rest, rfl, hblocks, hno⟩ := ih (hmoves.stands hs) h
              refine ⟨⟨chars, entry.1, entry.2.text⟩ :: blocks, rest, ?_, .cons ?_ hblocks, hno⟩
              · rw [charsOf_cons]
              · exact ⟨fuel, s, s₁, entry.2.span, hs.ahead, hturn, hmoves.ahead⟩

/-- A parsed text is blocks in front of the rest of the query. -/
theorem exists_taken_of_parse {text : String} (h : Query.parse kind limits text = .ok q) :
    ∃ blocks rest, text = textOf blocks rest ∧ AreTaken limits rest blocks ∧
      NoWord .declare rest := by
  rw [Query.parse_eq] at h
  split at h
  · next hrun =>
      obtain ⟨functions, s₁, hfound, -⟩ := bind_eq_ok hrun
      obtain ⟨blocks, rest, hcs, htaken⟩ := exists_taken (stands_ofText text) hfound
      exact ⟨blocks, rest, by rw [textOf, ← hcs, String.ofList_toList], htaken⟩
  · cases h

/-- A run at the beginning of a text shows what a turn goes over. -/
theorem isTaken_of_turn {block : DeclareBlock} (fuel : Nat)
    (h : (match declareTurn limits fuel ⟨.ofText (textOf [block] rest), 0, 0⟩ with
      | .ok (some (name, script)) s =>
        name == block.name && script.text == block.text && s.scanner.ahead == some rest
      | _ => false) = true) : block.IsTaken limits rest := by
  split at h
  · next name script s hturn =>
      obtain ⟨chars, name', text⟩ := block
      simp only [Bool.and_eq_true, beq_iff_eq] at h
      obtain ⟨⟨rfl, rfl⟩, hahead⟩ := h
      refine ⟨fuel, _, s, script.span, ?_, hturn, hahead⟩
      rw [Scanner.ahead_ofText, toList_textOf, charsOf_cons]
      rfl
  · cases h

theorem AreTaken.isWhole (h : AreTaken limits rest blocks) : ∀ block ∈ blocks, block.IsWhole := by
  induction h with
  | nil => simp
  | cons hblock _ ih =>
      obtain ⟨cost, hdeclares⟩ := hblock.exists_declares
      exact List.forall_mem_cons.mpr ⟨hdeclares.isWhole, ih⟩

end DeclareBlock

namespace Query

variable {kind : QueryKind} {limits : Limits} {rest : List Char} {blocks : List DeclareBlock}

open DeclareBlock

/-- A block has its function among those with the entries of all blocks. -/
theorem exists_span_of_perm {functions : Functions}
    (h : functions.erased.Perm (blocks.map entry)) {block : DeclareBlock} (hmem : block ∈ blocks) :
    ∃ span, (block.name, ⟨block.text, span⟩) ∈ functions.entries := by
  have hentry := h.mem_iff.mpr (List.mem_map_of_mem hmem)
  obtain ⟨⟨name, script⟩, hfound, heq⟩ := List.mem_map.mp hentry
  obtain ⟨rfl, htext⟩ := Prod.mk.inj heq
  rw [show block.text = script.text from (congrArg Script.text htext).symm]
  exact ⟨script.span, hfound⟩

/-- Under the same limits the blocks of a parsed text are parsed in any order, as the same query. -/
theorem parse_of_perm {q : Query} {costs : Complexity} (h : DeclareAll blocks costs)
    (hrest : NoWord .declare rest) (hparse : parse kind limits (textOf blocks rest) = .ok q) :
    q.functions.erased.Perm (blocks.map entry) ∧
      ∀ order, order.Perm blocks →
        ∃ q', parse kind limits (textOf order rest) = .ok q' ∧ (q' == q) = true := by
  obtain ⟨_, hwritten⟩ := written_of_parse hparse
  obtain ⟨cost, hall⟩ := h.query_written hrest hwritten
  obtain ⟨known, hsame, hperm⟩ := hall blocks (.refl _)
  have hadmits := (exists_parse_iff hsame).mp ⟨q, hparse⟩
  have hq := hparse.symm.trans (parse_of_admits hsame hadmits)
  have hknown : q.functions = known := congrArg Query.functions (Except.ok.inj hq)
  rw [← hknown] at hperm
  refine ⟨hperm, fun order horder => ?_⟩
  obtain ⟨functions, hother, hperm'⟩ := hall order horder
  refine ⟨_, parse_of_admits hother hadmits, beq_iff.mpr ?_⟩
  simp only [erase, Functions.erase_eq_of_perm (hperm'.trans hperm.symm)]

/-- Blocks that are parsed have different names. -/
theorem nodup_of_parse {q : Query} {costs : Complexity} (h : DeclareAll blocks costs)
    (hparse : parse kind limits (textOf blocks rest) = .ok q) : (blocks.map name).Nodup := by
  obtain ⟨_, ⟨hdeclarations, -⟩⟩ := written_of_parse hparse
  rw [toList_textOf] at hdeclarations
  exact (h.of_written hdeclarations (Nat.le_refl _)).1

/--
A parsed text is blocks, each gone over by a turn of the loop over declared
functions, in front of a rest without DECLARE.  The query then has one function for
each block, under the name and with the text, from the keyword FUNCTION to the
closing brace, that the block declares.  In any other order the blocks are parsed
under the same limits as an equal query, which is rendered alike.  If two blocks
declare functions of one name, the text is refused in every order.
-/
theorem parse_blocks_in_any_order (kind : QueryKind) (limits : Limits) :
    (∀ text q, parse kind limits text = .ok q → ∃ blocks rest,
      text = textOf blocks rest ∧ AreTaken limits rest blocks ∧ NoWord .declare rest) ∧
    ∀ blocks rest, AreTaken limits rest blocks →
      (∀ q, NoWord .declare rest → parse kind limits (textOf blocks rest) = .ok q →
        q.functions.entries.length = blocks.length ∧
        (∀ block ∈ blocks, block.IsWhole ∧
          ∃ span, (block.name, ⟨block.text, span⟩) ∈ q.functions.entries) ∧
        ∀ order, order.Perm blocks → ∃ q', parse kind limits (textOf order rest) = .ok q' ∧
          (q' == q) = true ∧ q'.render = q.render) ∧
      (¬(blocks.map name).Nodup → ∀ order, order.Perm blocks →
        ∃ error, parse kind limits (textOf order rest) = .error (.rejected error)) := by
  refine ⟨fun text q hparse => exists_taken_of_parse hparse, fun blocks rest htaken => ?_⟩
  obtain ⟨costs, hblocks⟩ := htaken.declareAll
  refine ⟨fun q hrest hparse => ?_, fun hsame order horder => ?_⟩
  · obtain ⟨hperm, hall⟩ := parse_of_perm hblocks hrest hparse
    refine ⟨by simpa [Functions.erased] using hperm.length_eq, fun block hmem =>
      ⟨htaken.isWhole block hmem, exists_span_of_perm hperm hmem⟩, fun order horder => ?_⟩
    obtain ⟨q', hparse', hbeq⟩ := hall order horder
    exact ⟨q', hparse', hbeq, render_eq_of_beq hbeq⟩
  · rcases ((Session.placed_ofText (textOf order rest) limits).read kind).1 with ⟨q, hq⟩ | hrejected
    · have hnames := nodup_of_parse (hblocks.perm horder.symm) hq
      exact absurd ((horder.map name).nodup_iff.mp hnames) hsame
    · exact hrejected

/-- Two functions are read in either order as one query, and one function is not read twice. -/
theorem parse_blocks_in_any_order_two :
    (∃ q q', parse .select ⟨64, 64⟩
        "DECLARE FUNCTION b() \x7b'\x7d'\x7d -- a\nDECLARE FUNCTION a(x) \x7b\x7d\nFROM X" = .ok q ∧
      q.functions.entries.length = 2 ∧
      parse .select ⟨64, 64⟩
        " -- a\nDECLARE FUNCTION a(x) \x7b\x7dDECLARE FUNCTION b() \x7b'\x7d'\x7d\nFROM X" =
          .ok q' ∧
      (q' == q) = true ∧ q'.render = q.render) ∧
    ∃ error, parse .select ⟨64, 64⟩
      "DECLARE FUNCTION b() \x7b'\x7d'\x7dDECLARE FUNCTION b() \x7b'\x7d'\x7d\nFROM X" =
        .error (.rejected error) := by
  let a : DeclareBlock :=
    ⟨" -- a\nDECLARE FUNCTION a(x) \x7b\x7d".toList, "a", "FUNCTION a(x) \x7b\x7d"⟩
  let b : DeclareBlock :=
    ⟨"DECLARE FUNCTION b() \x7b'\x7d'\x7d".toList, "b", "FUNCTION b() \x7b'\x7d'\x7d"⟩
  let rest := "\nFROM X".toList
  have hrest : NoWord .declare rest := by
    unfold NoWord Passes
    decide +kernel
  have ha : a.IsTaken ⟨64, 64⟩ rest := isTaken_of_turn 100 (by decide +kernel)
  have hb : b.IsTaken ⟨64, 64⟩ rest := isTaken_of_turn 100 (by decide +kernel)
  have hba : b.IsTaken ⟨64, 64⟩ (charsOf [a] ++ rest) := isTaken_of_turn 100 (by decide +kernel)
  have hbb : b.IsTaken ⟨64, 64⟩ (charsOf [b] ++ rest) := isTaken_of_turn 100 (by decide +kernel)
  have hall := (parse_blocks_in_any_order .select ⟨64, 64⟩).2
  constructor
  · have hparsed : (parse .select ⟨64, 64⟩ (textOf [b, a] rest)).toOption.isSome = true := by
      decide +kernel
    obtain ⟨q, hq⟩ := Option.isSome_iff_exists.mp hparsed
    obtain ⟨hlength, -, horder⟩ :=
      (hall [b, a] rest (.cons hba (.cons ha .nil))).1 q hrest (parse_of_toOption hq)
    obtain ⟨q', hq', hbeq, hrender⟩ := horder [a, b] (.swap _ _ _)
    exact ⟨q, q', parse_of_toOption hq, hlength, hq', hbeq, hrender⟩
  · exact (hall [b, b] rest (.cons hbb (.cons hb .nil))).2 (by decide) [b, b] (.refl _)

end Query

end DocQuery
