import DocQuery.Proofs.Grammar.Steps

/-!
# Readers with more fuel

Every reader of the grammar is a sequence of single steps.  With more fuel it
takes the same steps and goes on where it would have stopped for want of fuel.
So what holds of single steps and is kept by sequences holds of every reader, by
induction over `Extends`.  The main statement is `extends_query`.
-/

namespace DocQuery

namespace Scanner

/-! ## Steps that keep the text -/

/-- Where the step succeeds, the scanner is still over the same text. -/
def KeepsText {α : Type} (step : Scan α) : Prop :=
  ∀ (s s' : Scanner) (a : α), step s = .ok (a, s') → s'.text = s.text

section Steps

variable {α β : Type}

/-- A sequence that comes to an end does so in both parts. -/
theorem eq_ok_of_bind {x : Except Fault α} {f : α → Except Fault β} {b : β}
    (h : (x >>= f) = .ok b) : ∃ a, x = .ok a ∧ f a = .ok b := by
  cases x with
  | error fault => cases h
  | ok a => exact ⟨a, rfl, h⟩

theorem keepsText_pure (a : α) : KeepsText (fun s => .ok (a, s)) := by
  intro s s' b h
  cases h
  rfl

/-- A step that goes by the characters ahead. -/
theorem KeepsText.read {next : List Char → Scan α} (hnext : ∀ cs, KeepsText (next cs)) :
    KeepsText (fun s => do let cs ← s.read; next cs s) := by
  intro s s' a h
  obtain ⟨cs, -, h⟩ := eq_ok_of_bind h
  exact hnext cs _ _ _ h

theorem keepsText_measure (rule : List Char → Option (Nat × α)) : KeepsText (measure rule) := by
  refine KeepsText.read fun cs s s' found h => ?_
  split at h <;> cases h <;> rfl

theorem keepsText_recognise (rule : List Char → Option Nat) : KeepsText (recognise rule) := by
  intro s s' matched h
  obtain ⟨found, hfound, h⟩ := eq_ok_of_bind h
  cases h
  exact keepsText_measure _ _ _ _ hfound

theorem keepsText_firstOf (table : List (String × α)) : KeepsText (firstOf table) := by
  induction table with
  | nil => exact keepsText_pure none
  | cons entry table ih =>
      intro s s' a h
      obtain ⟨⟨found, s₁⟩, hfound, h⟩ := eq_ok_of_bind h
      have htext := keepsText_recognise _ _ _ _ hfound
      cases found with
      | true =>
          cases h
          exact htext
      | false => exact (ih _ _ _ h).trans htext

theorem keepsText_quoted : KeepsText quoted := by
  intro s s' matched h
  obtain ⟨⟨found, s₁⟩, hfound, h⟩ := eq_ok_of_bind h
  have htext := keepsText_measure _ _ _ _ hfound
  cases found <;> cases h <;> exact htext

theorem keepsText_peek (expected : Char) : KeepsText (peek expected) :=
  KeepsText.read fun cs => keepsText_pure ((Lexical.Trivia.rest cs).head? == some expected)

theorem keepsText_atEnd : KeepsText atEnd :=
  KeepsText.read fun cs => keepsText_pure (Lexical.Trivia.rest cs).isEmpty

end Steps

end Scanner

namespace Grammar

open Scanner

/-! ## Sequences of steps -/

/-- A single step of a reader. -/
inductive Step : {α : Type} → Read α → Prop where
  | ask {α : Type} (f : State → α) : Step fun s => .ok (f s) s
  | change (f : State → State) :
      (∀ s, (f s).scanner.text = s.scanner.text) → Step (modify f)
  | scan {α : Type} {step : Scan α} : KeepsText step → Step (Grammar.scan step)
  | refuse {α : Type} (expected : Expectation) : Step (refuse expected : Read α)
  | decline {α : Type} (cause : Refusal) : Step (decline cause : Read α)
  | fault {α : Type} (fault : Fault) : Step (throw (.fault fault) : Read α)

/-- The second reader takes the steps of the first, and goes on where that has no fuel left. -/
inductive Extends : {α : Type} → Read α → Read α → Prop where
  | step {α : Type} {x : Read α} : Step x → Extends x x
  | bind {α β : Type} {x y : Read α} {f g : α → Read β} :
      Extends x y → (∀ a, Extends (f a) (g a)) → Extends (x >>= f) (y >>= g)
  | outOfFuel {α : Type} (y : Read α) : Extends (throw .outOfFuel) y

variable {α β : Type}

namespace Extends

theorem pure (a : α) : Extends (Pure.pure a : Read α) (Pure.pure a) :=
  .step (.ask fun _ => a)

theorem get : Extends (MonadState.get : Read State) MonadState.get :=
  .step (.ask id)

theorem position : Extends position position :=
  .step (.ask fun s => s.scanner.offset)

theorem token : Extends token token :=
  .step (.ask fun s => s.scanner.token)

theorem change (f : State → State) (h : ∀ s, (f s).scanner.text = s.scanner.text) :
    Extends (modify f) (modify f) :=
  .step (.change f h)

theorem refuse (e : Expectation) : Extends (refuse e : Read α) (Grammar.refuse e) :=
  .step (.refuse e)

theorem decline (cause : Refusal) : Extends (decline cause : Read α) (Grammar.decline cause) :=
  .step (.decline cause)

theorem recognise (rule : List Char → Option Nat) :
    Extends (scan (Scanner.recognise rule)) (scan (Scanner.recognise rule)) :=
  .step (.scan (keepsText_recognise rule))

theorem char (c : Char) : Extends (scan (Scanner.char c)) (scan (Scanner.char c)) :=
  recognise _

theorem keyword (keyword : Keyword) :
    Extends (scan (Scanner.keyword keyword)) (scan (Scanner.keyword keyword)) :=
  recognise _

theorem identifier (beginning : Bool) :
    Extends (scan (Scanner.identifier beginning)) (scan (Scanner.identifier beginning)) :=
  recognise _

theorem number : Extends (scan Scanner.number) (scan Scanner.number) :=
  .step (.scan (keepsText_measure _))

theorem quoted : Extends (scan Scanner.quoted) (scan Scanner.quoted) :=
  .step (.scan keepsText_quoted)

theorem firstOf (table : List (String × α)) :
    Extends (scan (Scanner.firstOf table)) (scan (Scanner.firstOf table)) :=
  .step (.scan (keepsText_firstOf table))

theorem anyKeyword (keywords : List Keyword) :
    Extends (scan (Scanner.anyKeyword keywords)) (scan (Scanner.anyKeyword keywords)) :=
  firstOf _

theorem peek (c : Char) : Extends (scan (Scanner.peek c)) (scan (Scanner.peek c)) :=
  .step (.scan (keepsText_peek c))

theorem returnTo (place : Nat) : Extends (returnTo place) (returnTo place) :=
  change _ fun _ => rfl

theorem unread : Extends unread unread :=
  change _ fun _ => rfl

/-- A part that may be absent, with what is done in either case. -/
theorem cases {x y : Read (Option α)} {f g : Option α → Read β} (h : Extends x y)
    (hnone : Extends (f none) (g none)) (hsome : ∀ a, Extends (f (some a)) (g (some a))) :
    Extends (x >>= f) (y >>= g) :=
  h.bind fun found => by
    cases found with
    | none => exact hnone
    | some a => exact hsome a

/-- A test, with what is done in either case. -/
theorem branch {x y : Read Bool} {f g : Bool → Read β} (h : Extends x y)
    (htrue : Extends (f true) (g true)) (hfalse : Extends (f false) (g false)) :
    Extends (x >>= f) (y >>= g) :=
  h.bind fun found => by
    cases found with
    | true => exact htrue
    | false => exact hfalse

theorem map {x y : Read α} (h : Extends x y) (f : α → β) :
    Extends (do return f (← x)) (do return f (← y)) :=
  h.bind fun a => pure (f a)

theorem require {x y : Read (Option α)} (e : Expectation) (h : Extends x y) :
    Extends (require e x) (require e y) :=
  h.cases (refuse e) pure

theorem expectChar (c : Char) (e : Expectation) : Extends (expectChar c e) (expectChar c e) :=
  (char c).branch (pure ()) (refuse e)

theorem expectKeyword (word : Keyword) (e : Expectation) :
    Extends (expectKeyword word e) (expectKeyword word e) :=
  (keyword word).branch (pure ()) (refuse e)

theorem enter (limits : Limits) : Extends (enter limits) (enter limits) := by
  refine (change (fun s => { s with depth := s.depth + 1 }) fun _ => rfl).bind fun _ =>
    get.bind fun s => ?_
  split
  · exact decline _
  · exact pure ()

theorem countConnective (limits : Limits) :
    Extends (countConnective limits) (countConnective limits) := by
  refine (change (fun s => { s with connectives := s.connectives + 1 }) fun _ => rfl).bind
    fun _ => get.bind fun s => ?_
  split
  · exact decline _
  · exact pure ()

theorem leave : Extends leave leave := by
  refine get.bind fun s => ?_
  split
  · exact .step (.fault _)
  · exact change _ fun _ => rfl

theorem optional (word : Keyword) {x y : Read α} (h : Extends x y) :
    Extends (optional word x) (optional word y) :=
  (keyword word).branch (h.map some) (pure none)

/-- Items with commas between them, if each of them is extended. -/
theorem commaSeparated {item : Nat → Read α}
    (hitem : ∀ {n n' : Nat}, n ≤ n' → Extends (item n) (item n')) {n n' : Nat} (hle : n ≤ n') :
    Extends (commaSeparated item n) (commaSeparated item n') := by
  induction n generalizing n' with
  | zero => exact .outOfFuel _
  | succ n ih =>
      obtain ⟨more, rfl⟩ := Nat.exists_eq_add_of_lt hle
      have hle := Nat.le_add_right n more
      refine (hitem hle).bind fun first => (char ',').branch ?_ (pure [first])
      exact (ih hle).map (first :: ·)

/-! ## Terminals -/

theorem tokenValue (kind : ValueKind) (escaped : Bool) :
    Extends (tokenValue kind escaped) (tokenValue kind escaped) :=
  token.map _

theorem parameter : Extends parameter parameter := by
  refine position.bind fun start => (identifier false).branch ?_ (refuse _)
  refine token.bind fun name => ?_
  split
  · exact tokenValue _ _
  · exact refuse _

theorem value : Extends value value := by
  refine number.cases ?_ fun kind => (tokenValue _ _).map some
  refine quoted.branch (get.bind fun s => (tokenValue _ _).map some) ?_
  refine (anyKeyword _).cases ?_ fun keyword => token.bind fun _ => pure _
  exact (char '$').branch (parameter.map some) (pure none)

theorem segment (beginning : Bool) : Extends (segment beginning) (segment beginning) := by
  refine (identifier beginning).branch (token.bind fun _ => pure _) ?_
  refine quoted.branch (get.bind fun s => ?_) (pure none)
  cases hcontent : s.scanner.content with
  | ok text =>
      simp only [hcontent]
      exact pure _
  | error fault =>
      simp only [hcontent]
      exact .step (.fault _)

theorem indexNumber : Extends indexNumber indexNumber := by
  refine number.cases (pure "") fun kind => ?_
  cases kind with
  | double => exact refuse _
  | long =>
      refine token.bind fun last => ?_
      split
      · exact refuse _
      · exact pure _

theorem index : Extends index index :=
  (char '[').branch (indexNumber.bind fun _ => (expectChar ']' _).bind fun _ => pure _) (pure "")

variable {limits : Limits} {n n' : Nat}

theorem pathTail (hle : n ≤ n') : Extends (pathTail n) (pathTail n') := by
  induction n generalizing n' with
  | zero => exact .outOfFuel _
  | succ n ih =>
      obtain ⟨more, rfl⟩ := Nat.exists_eq_add_of_lt hle
      have htail := ih (Nat.le_add_right n more)
      refine index.bind fun bracket => (char '.').branch ?_ (pure _)
      refine (segment false).cases (pure none) fun found => ?_
      exact htail.cases (pure none) fun _ => pure _

theorem path (hle : n ≤ n') : Extends (path n) (path n') := by
  refine position.bind fun origin => (segment true).cases ?_ fun found => token.bind fun first => ?_
  · exact (returnTo origin).bind fun _ => pure none
  · split
    · exact unread.bind fun _ => pure none
    · refine (pathTail hle).cases ((returnTo origin).bind fun _ => pure none) fun found => ?_
      exact position.bind fun _ => pure _

/-! ## Conditions -/

theorem bounds (subject : Path) : Extends (bounds subject) (bounds subject) := by
  refine (value.require _).bind fun low => (expectKeyword _ _).bind fun _ => ?_
  refine (value.require _).bind fun high => ?_
  split
  · exact pure _
  · exact decline _

theorem moreValues (kind : ValueKind) (hle : n ≤ n') :
    Extends (moreValues kind n) (moreValues kind n') := by
  induction n generalizing n' with
  | zero => exact .outOfFuel _
  | succ n ih =>
      obtain ⟨more, rfl⟩ := Nat.exists_eq_add_of_lt hle
      have hmore := ih (Nat.le_add_right n more)
      refine (char ')').branch (pure []) ((expectChar ',' _).bind fun _ => ?_)
      refine (value.require _).bind fun next => ?_
      split
      · exact hmore.map (next :: ·)
      · exact decline _

theorem valueList (hle : n ≤ n') : Extends (valueList n) (valueList n') := by
  refine (expectChar '(' _).bind fun _ => (char ')').branch (pure []) ?_
  exact (value.require _).bind fun first => (moreValues first.kind hle).map (first :: ·)

theorem test (subject : Path) (hle : n ≤ n') (found : Test) :
    Extends (test subject n found) (test subject n' found) := by
  cases found with
  | compare comparison => exact (value.require _).map _
  | between => exact bounds subject
  | within all => exact (valueList hle).map _

theorem trailingTest (hle : n ≤ n') : Extends (trailingTest n) (trailingTest n') :=
  position.bind fun _ => (firstOf tests).cases (pure none) fun found => (test _ hle found).map some

end Extends

/-- The readers of conditions with more fuel extend those with less. -/
structure Longer (limits : Limits) (n n' : Nat) : Prop where
  condition : Extends (condition limits n) (condition limits n')
  links : Extends (links limits n) (links limits n')
  operand : Extends (operand limits n) (operand limits n')
  predicate : Extends (predicate limits n) (predicate limits n')
  arguments : ∀ first, Extends (arguments limits first n) (arguments limits first n')
  argument : Extends (argument limits n) (argument limits n')

namespace Longer

variable {limits : Limits} {n n' : Nat}

theorem condition_succ (ih : Longer limits n n') :
    Extends (Grammar.condition limits (n + 1)) (Grammar.condition limits (n' + 1)) :=
  ih.operand.cases (.pure none) fun _ => ih.links.map _

theorem links_succ (ih : Longer limits n n') :
    Extends (Grammar.links limits (n + 1)) (Grammar.links limits (n' + 1)) := by
  refine (Extends.anyKeyword _).cases (.pure []) fun keyword => ?_
  refine (Extends.countConnective limits).bind fun _ => ?_
  refine (Extends.keyword .not).bind fun negated => (Extends.peek '(').bind fun grouped => ?_
  refine (ih.operand.require _).bind fun next => ?_
  exact ih.links.map _

theorem operand_succ (ih : Longer limits n n') :
    Extends (Grammar.operand limits (n + 1)) (Grammar.operand limits (n' + 1)) := by
  refine (Extends.char '(').branch ((Extends.enter limits).bind fun _ => ?_) ih.predicate
  refine ih.condition.cases (.pure none) fun inner => ?_
  exact (Extends.expectChar ')' _).bind fun _ => Extends.leave.bind fun _ => .pure _

theorem predicate_succ (ih : Longer limits n n') (hle : n ≤ n') :
    Extends (Grammar.predicate limits (n + 1)) (Grammar.predicate limits (n' + 1)) := by
  refine (Extends.keyword .true_).branch (.pure _) ?_
  refine (Extends.path hle).cases (.pure none) fun subject => ?_
  refine (Extends.firstOf operators).cases (.refuse _) fun found => ?_
  cases found with
  | some found => exact (Extends.test subject hle found).map some
  | none =>
      refine (Extends.enter limits).bind fun _ => (ih.arguments true).bind fun arguments => ?_
      exact (Extends.trailingTest hle).cases (.pure _) fun _ => .pure _

theorem arguments_succ (ih : Longer limits n n') (first : Bool) :
    Extends (Grammar.arguments limits first (n + 1)) (Grammar.arguments limits first (n' + 1)) := by
  have hothers : Extends
      (do
        let next ← Grammar.argument limits n
        return next :: (← Grammar.arguments limits false n))
      (do
        let next ← Grammar.argument limits n'
        return next :: (← Grammar.arguments limits false n')) :=
    ih.argument.bind fun next => (ih.arguments false).map (next :: ·)
  refine (Extends.char ')').branch (Extends.leave.bind fun _ => .pure []) ?_
  cases first with
  | true => exact hothers
  | false => exact (Extends.expectChar ',' _).bind fun _ => hothers

theorem argument_succ (ih : Longer limits n n') (hle : n ≤ n') :
    Extends (Grammar.argument limits (n + 1)) (Grammar.argument limits (n' + 1)) := by
  have hcondition := ih.condition.require .argument
  refine Extends.value.cases ?_ fun v => .pure _
  refine Extends.position.bind fun start => (Extends.path hle).cases hcondition fun field => ?_
  refine (Extends.peek ',').branch (.pure _) ((Extends.peek ')').branch (.pure _) ?_)
  exact (Extends.returnTo start).bind fun _ => hcondition

end Longer

/-- More fuel extends the readers of conditions. -/
theorem longer (limits : Limits) {n n' : Nat} (hle : n ≤ n') : Longer limits n n' := by
  induction n generalizing n' with
  | zero =>
      exact ⟨.outOfFuel _, .outOfFuel _, .outOfFuel _, .outOfFuel _, fun _ => .outOfFuel _,
        .outOfFuel _⟩
  | succ n ih =>
      obtain ⟨more, rfl⟩ := Nat.exists_eq_add_of_lt hle
      have hle := Nat.le_add_right n more
      exact ⟨(ih hle).condition_succ, (ih hle).links_succ, (ih hle).operand_succ,
        (ih hle).predicate_succ hle, (ih hle).arguments_succ, (ih hle).argument_succ hle⟩

namespace Extends

variable {limits : Limits} {n n' : Nat}

theorem argumentList (hle : n ≤ n') :
    Extends (argumentList limits n) (argumentList limits n') :=
  (enter limits).bind fun _ => (longer limits hle).arguments true

/-! ## Clauses -/

theorem script : Extends script script :=
  (Extends.step (.scan (keepsText_recognise _))).branch (token.bind fun _ => pure _) (pure none)

theorem textFrom (start : Nat) : Extends (textFrom start) (textFrom start) := by
  refine position.bind fun stop => get.bind fun s => ?_
  split
  · exact pure _
  · exact .step (.fault _)

theorem declaration (hle : n ≤ n') : Extends (declaration limits n) (declaration limits n') := by
  refine (expectKeyword _ _).bind fun _ => token.bind fun first => ?_
  refine (identifier true).branch (token.bind fun last => ?_) (refuse _)
  refine (expectChar '(' _).bind fun _ => (argumentList hle).bind fun _ => ?_
  exact (script.require _).bind fun _ => (textFrom _).map _

theorem declarations (known : Functions) (hle : n ≤ n') :
    Extends (declarations limits known n) (declarations limits known n') := by
  induction n generalizing known n' with
  | zero => exact .outOfFuel _
  | succ n ih =>
      obtain ⟨more, rfl⟩ := Nat.exists_eq_add_of_lt hle
      have hle := Nat.le_add_right n more
      refine (keyword .declare).branch ((declaration hle).bind fun entry => ?_) (pure known)
      obtain ⟨name, body⟩ := entry
      cases hknown : known.contains name with
      | true =>
          simp only [hknown]
          exact refuse _
      | false =>
          simp only [hknown]
          exact ih _ hle

theorem asName (needsAs : Bool) (hle : n ≤ n') :
    Extends (asName needsAs n) (asName needsAs n') := by
  refine (anyKeyword _).cases ?_ fun keyword => ?_
  · cases needsAs with
    | true => exact pure none
    | false => exact (path hle).map _
  · by_cases has : keyword = .as_
    · subst has
      exact ((path hle).require _).map _
    · have hback : Extends (do Grammar.unread; return none : Read (Option String))
          (do Grammar.unread; return none) :=
        unread.bind fun _ => pure none
      cases keyword <;> first | exact hback | exact absurd rfl has

theorem sourceFilter (hle : n ≤ n') :
    Extends (sourceFilter limits n) (sourceFilter limits n') := by
  refine (char '(').branch ((enter limits).bind fun _ => ?_) (pure none)
  refine ((longer limits hle).condition.require _).bind fun filter => ?_
  exact (expectChar ')' _).bind fun _ => leave.bind fun _ => pure _

theorem source (hle : n ≤ n') : Extends (source limits n) (source limits n') := by
  refine (expectKeyword _ _).bind fun _ => (keyword .index).bind fun isIndex => ?_
  refine ((segment true).require _).bind fun found => token.bind fun first => ?_
  cases isIndex with
  | true => exact (asName false hle).map _
  | false => exact (sourceFilter hle).bind fun filter => (asName false hle).map _

theorem fieldOrCall (hle : n ≤ n') : Extends (fieldOrCall limits n) (fieldOrCall limits n') := by
  refine (path hle).cases (pure none) fun name => (char '(').branch ?_ (pure _)
  exact (argumentList hle).map _

theorem groupField (hle : n ≤ n') : Extends (groupField n) (groupField n') :=
  (path hle).require _

theorem sortType : Extends sortType sortType :=
  (keyword .as_).branch ((firstOf _).require _) (pure _)

theorem ascending : Extends ascending ascending := by
  refine (anyKeyword _).cases (pure true) fun keyword => ?_
  cases keyword <;> exact pure _

theorem orderTerm (hle : n ≤ n') : Extends (orderTerm limits n) (orderTerm limits n') :=
  ((fieldOrCall hle).require _).bind fun _ => sortType.bind fun _ => ascending.map _

theorem projection (clause : ProjectionClause) (needsAs : Bool) (hle : n ≤ n') :
    Extends (projection limits clause needsAs n) (projection limits clause needsAs n') := by
  have hbody : Extends (projected limits clause n) (projected limits clause n') :=
    (fieldOrCall hle).cases ((value.require _).map _) pure
  exact hbody.bind fun _ => (asName needsAs hle).map _

theorem includeEntry (hle : n ≤ n') : Extends (includeEntry n) (includeEntry n') :=
  value.cases (((path hle).require _).map _) fun _ => pure _

theorem selection (hle : n ≤ n') : Extends (selection limits n) (selection limits n') := by
  refine (keyword .distinct).bind fun distinct => (char '*').branch (pure _) ?_
  refine script.cases ?_ fun body => pure _
  exact (commaSeparated (projection .select true) hle).map _

theorem updateScript : Extends updateScript updateScript :=
  (expectKeyword _ _).bind fun _ => script.require _

theorem body (functions : Functions) (hle : n ≤ n') :
    Extends (body limits functions n) (body limits functions n') := by
  refine get.bind fun s => (source hle).bind fun source => ?_
  refine (optional .groupBy (commaSeparated groupField hle)).bind fun groupBy => ?_
  refine (optional .where_ ((longer limits hle).condition.require _)).bind fun filter => ?_
  refine (optional .orderBy (commaSeparated orderTerm hle)).bind fun orderBy => ?_
  exact (optional .load (commaSeparated (projection .load false) hle)).map _

theorem ending (query : Query) (kind : QueryKind) (hle : n ≤ n') :
    Extends (ending limits n query kind) (ending limits n' query kind) := by
  cases kind with
  | select =>
      refine (optional .select (selection hle)).bind fun selection => ?_
      exact (optional .include_ (commaSeparated includeEntry hle)).map _
  | update => exact updateScript.map _

end Extends

/-- The reader of whole queries takes the same steps with more fuel. -/
theorem extends_query (limits : Limits) (kind : QueryKind) {n n' : Nat} (hle : n ≤ n') :
    Extends (query limits kind n) (query limits kind n') := by
  refine (Extends.declarations .empty hle).bind fun functions => ?_
  refine (Extends.body functions hle).bind fun body => ?_
  refine (Extends.ending body kind hle).bind fun q => ?_
  exact (Extends.step (.scan keepsText_atEnd)).branch (.pure q) (.refuse _)

end Grammar

end DocQuery
