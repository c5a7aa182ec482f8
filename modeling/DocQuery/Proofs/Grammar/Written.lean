import DocQuery.Grammar.Clause
import DocQuery.Proofs.Grammar.Syntax
import DocQuery.Proofs.Lexical.Rule

/-!
# The grammar of queries

A part of the grammar is a relation between a text, what its beginning is read
as, and the rest of the text.  The alternatives of a part are tried in a fixed
order, so each of them says which earlier ones do not apply.  Nothing here
depends on a limit: what the limits bound is counted as a `Complexity`.
Positions are those of a text of `size` bytes in front of its end.
-/

namespace DocQuery

open Lexical

/-- The position in a text of so many bytes at which these characters are ahead. -/
def place (size : Nat) (cs : List Char) : Nat :=
  size - Text.byteLength cs

/-- The token in front of a rest. -/
def tokenAt (size : Nat) (token rest : List Char) : Token :=
  ⟨place size (token ++ rest), token⟩

namespace Written

/-! ## Marks and words -/

/-- The next character behind the trivia is this one. -/
def Mark (c : Char) (cs rest : List Char) : Prop :=
  Takes (Rule.char c) cs [c] () rest

/-- The next character behind the trivia is another one, if there is any. -/
def NoMark (c : Char) (cs : List Char) : Prop :=
  Passes (Rule.char c) cs

/-- A keyword is next. -/
def Word (keyword : Keyword) (cs rest : List Char) : Prop :=
  ∃ token, Takes (Rule.keyword keyword) cs token () rest

/-- The keyword is not next. -/
def NoWord (keyword : Keyword) (cs : List Char) : Prop :=
  Passes (Rule.keyword keyword) cs

/-- A word that may not start a path. -/
def isReserved (token : List Char) : Bool :=
  (Keyword.ofText? token).any Keyword.reserved.contains

/-! ## Values -/

/-- A number, a quoted text, a literal keyword or a parameter. -/
inductive Value (size : Nat) : List Char → DocQuery.Value → List Char → Prop where
  | number {cs token rest : List Char} {kind : Numeral.Kind} :
      Takes Rule.number cs token kind rest →
      Value size cs ⟨(tokenAt size token rest).text, (tokenAt size token rest).span,
        Grammar.numberKind kind, false⟩ rest
  | quoted {cs token rest : List Char} {escapes : Nat} :
      Passes Rule.number cs →
      Takes Rule.quoted cs token escapes rest →
      Value size cs ⟨(tokenAt size token rest).text, (tokenAt size token rest).span,
        .string, escapes != 0⟩ rest
  | literal {cs token rest : List Char} {keyword : Keyword} :
      Passes Rule.number cs → Passes Rule.quoted cs →
      Takes (Rule.anyKeyword Keyword.literals) cs token keyword rest →
      Value size cs ⟨keyword.text, (tokenAt size token rest).span,
        Grammar.literalKind keyword, false⟩ rest
  | parameter {cs token rest : List Char} :
      Passes Rule.number cs → Passes Rule.quoted cs →
      Passes (Rule.anyKeyword Keyword.literals) cs →
      Mark '$' cs (token ++ rest) →
      Takes (Rule.identifier false) (token ++ rest) token () rest →
      Value size cs ⟨(tokenAt size token rest).text, (tokenAt size token rest).span,
        .parameter, false⟩ rest

/-- No value is next. -/
structure NoValue (cs : List Char) : Prop where
  number : Passes Rule.number cs
  quoted : Passes Rule.quoted cs
  literal : Passes (Rule.anyKeyword Keyword.literals) cs
  dollar : NoMark '$' cs

/-! ## Paths -/

/-- A name or a quoted text, with its token, its text, and whether it is the latter. -/
inductive Segment (beginning : Bool) :
    List Char → List Char → String → Bool → List Char → Prop where
  | name {cs token rest : List Char} :
      Takes (Rule.identifier beginning) cs token () rest →
      Segment beginning cs token (String.ofList token) false rest
  | quoted {cs token rest : List Char} {escapes : Nat} :
      Passes (Rule.identifier beginning) cs →
      Takes Rule.quoted cs token escapes rest →
      Segment beginning cs token (String.ofList token.tail.dropLast) true rest

/-- Neither a name nor a quoted text is next. -/
structure NoSegment (beginning : Bool) (cs : List Char) : Prop where
  name : Passes (Rule.identifier beginning) cs
  quoted : Passes Rule.quoted cs

/-- An index in brackets as canonical text writes it, or nothing. -/
inductive Index : List Char → String → List Char → Prop where
  | absent {cs : List Char} : NoMark '[' cs → Index cs "" cs
  | empty {cs r rest : List Char} :
      Mark '[' cs r → Passes Rule.number r → Mark ']' r rest → Index cs "[]" rest
  | number {cs r r₁ token rest : List Char} :
      Mark '[' cs r → Takes Rule.number r token .long r₁ → token.head? ≠ some '-' →
      Mark ']' r₁ rest → Index cs ("[" ++ String.ofList token ++ "]") rest

/-- What follows the first segment of a path. -/
inductive Tail : List Char → String → Bool → List Char → Prop where
  | last {cs rest : List Char} {bracket : String} :
      Index cs bracket rest → NoMark '.' rest → Tail cs bracket false rest
  | more {cs r r₁ r₂ token rest : List Char} {bracket text more : String} {quoted others : Bool} :
      Index cs bracket r → Mark '.' r r₁ → Segment false r₁ token text quoted r₂ →
      Tail r₂ more others rest →
      Tail cs (bracket ++ "." ++ text ++ more) (quoted || others) rest

/-- A dot behind a segment is followed by no other segment. -/
inductive NoTail : List Char → Prop where
  | open {cs r r₁ : List Char} {bracket : String} :
      Index cs bracket r → Mark '.' r r₁ → NoSegment false r₁ → NoTail cs
  | more {cs r r₁ r₂ token : List Char} {bracket text : String} {quoted : Bool} :
      Index cs bracket r → Mark '.' r r₁ → Segment false r₁ token text quoted r₂ →
      NoTail r₂ → NoTail cs

/-- A path.  Its first segment is not a reserved word without quotes. -/
inductive Path (size : Nat) : List Char → DocQuery.Path → List Char → Prop where
  | mk {cs token r rest : List Char} {text more : String} {quoted others : Bool} :
      Segment true cs token text quoted r →
      (!quoted && isReserved token) = false →
      Tail r more others rest →
      Path size cs ⟨text ++ more, Span.between (place size (token ++ r)) (place size rest),
        quoted || others⟩ rest

/-- No path is next.  A reader then stands at the rest. -/
inductive NoPath : List Char → List Char → Prop where
  | blank {cs : List Char} : NoSegment true cs → NoPath cs cs
  | reserved {cs token rest : List Char} :
      Takes (Rule.identifier true) cs token () rest → isReserved token = true →
      NoPath cs (token ++ rest)
  | broken {cs token r : List Char} {text : String} {quoted : Bool} :
      Segment true cs token text quoted r →
      (!quoted && isReserved token) = false →
      NoTail r → NoPath cs cs

/-! ## Tests -/

/-- Further values of one kind up to the closing parenthesis. -/
inductive MoreValues (size : Nat) (kind : ValueKind) :
    List Char → List DocQuery.Value → List Char → Prop where
  | last {cs rest : List Char} : Mark ')' cs rest → MoreValues size kind cs [] rest
  | more {cs r r₁ rest : List Char} {value : DocQuery.Value} {values : List DocQuery.Value} :
      NoMark ')' cs → Mark ',' cs r → Value size r value r₁ → value.kind = kind →
      MoreValues size kind r₁ values rest → MoreValues size kind cs (value :: values) rest

/-- A list of values of one kind in parentheses. -/
inductive ValueList (size : Nat) : List Char → List DocQuery.Value → List Char → Prop where
  | empty {cs r rest : List Char} : Mark '(' cs r → Mark ')' r rest → ValueList size cs [] rest
  | values {cs r r₁ rest : List Char} {value : DocQuery.Value} {values : List DocQuery.Value} :
      Mark '(' cs r → NoMark ')' r → Value size r value r₁ →
      MoreValues size value.kind r₁ values rest → ValueList size cs (value :: values) rest

/-- What follows the operator of a test on a subject, and the test that it makes. -/
inductive Test (size : Nat) (subject : DocQuery.Path) :
    Grammar.Test → List Char → Expr → List Char → Prop where
  | compare {cs rest : List Char} {comparison : Comparison} {value : DocQuery.Value} :
      Value size cs value rest →
      Test size subject (.compare comparison) cs (.compare (.field subject) comparison value) rest
  | between {cs r r₁ rest : List Char} {low high : DocQuery.Value} :
      Value size cs low r → Word .and r r₁ → Value size r₁ high rest → low.kind = high.kind →
      Test size subject .between cs (.between subject low high) rest
  | within {cs rest : List Char} {values : List DocQuery.Value} {all : Bool} :
      ValueList size cs values rest →
      Test size subject (.within all) cs (.within subject values all) rest

/-- The test behind a call on a subject that is left out, if there is one. -/
inductive Trailing (size : Nat) : List Char → Option Expr → List Char → Prop where
  | absent {cs : List Char} : Passes (Rule.firstOf Grammar.tests) cs → Trailing size cs none cs
  | present {cs token r rest : List Char} {test : Grammar.Test} {e : Expr} :
      Takes (Rule.firstOf Grammar.tests) cs token test r →
      Test size (.implicit ⟨place size cs, 0⟩) test r e rest →
      Trailing size cs (some e) rest

/-! ## Conditions -/

/-- The keyword NOT, if it is there. -/
inductive Negation : List Char → Bool → List Char → Prop where
  | absent {cs : List Char} : NoWord .not cs → Negation cs false cs
  | present {cs rest : List Char} : Word .not cs rest → Negation cs true rest

/-- A comma, except in front of the first argument. -/
inductive Separator : Bool → List Char → List Char → Prop where
  | first {cs : List Char} : Separator true cs cs
  | comma {cs rest : List Char} : Mark ',' cs rest → Separator false cs rest

/-- A field that stands alone is next, with a comma or the closing parenthesis behind it. -/
def Alone (rest : List Char) : Prop :=
  (∃ r, Mark ',' rest r) ∨ NoMark ',' rest ∧ ∃ r, Mark ')' rest r

/-- No field stands alone here.  A reader of a condition then starts at the rest. -/
inductive NotAlone (size : Nat) : List Char → List Char → Prop where
  | noPath {cs rest : List Char} : NoPath cs rest → NotAlone size cs rest
  | goesOn {cs rest : List Char} {field : DocQuery.Path} :
      Path size cs field rest → NoMark ',' rest → NoMark ')' rest → NotAlone size cs cs

mutual

/-- A chain of operands. -/
inductive Condition (size : Nat) : List Char → Syntax.Condition → List Char → Prop where
  | chain {cs r rest : List Char} {first : Syntax.Operand} {links : Syntax.Links} :
      Operand size cs first r → Links size r links rest →
      Condition size cs (.chain first links) rest

/-- The operands behind the first one. -/
inductive Links (size : Nat) : List Char → Syntax.Links → List Char → Prop where
  | nil {cs : List Char} :
      Passes (Rule.anyKeyword Keyword.connectives) cs → Links size cs .nil cs
  | cons {cs token r r₁ r₂ rest : List Char} {keyword : Keyword} {negated : Bool}
      {operand : Syntax.Operand} {links : Syntax.Links} :
      Takes (Rule.anyKeyword Keyword.connectives) cs token keyword r →
      Negation r negated r₁ → Operand size r₁ operand r₂ → Links size r₂ links rest →
      Links size cs (.cons (Grammar.connectiveOf keyword negated) operand links) rest

/-- A group, `true`, a test on a field, or a call. -/
inductive Operand (size : Nat) : List Char → Syntax.Operand → List Char → Prop where
  | group {cs r r₁ rest : List Char} {inner : Syntax.Condition} :
      Mark '(' cs r → Condition size r inner r₁ → Mark ')' r₁ rest →
      Operand size cs (.group inner) rest
  | truth {cs rest : List Char} :
      NoMark '(' cs → Word .true_ cs rest → Operand size cs (.test .truth) rest
  | test {cs r token r₁ rest : List Char} {subject : DocQuery.Path} {test : Grammar.Test}
      {e : Expr} :
      NoMark '(' cs → NoWord .true_ cs → Path size cs subject r →
      Takes (Rule.firstOf Grammar.operators) r token (some test) r₁ →
      Test size subject test r₁ e rest → Operand size cs (.test e) rest
  | call {cs r token r₁ r₂ rest : List Char} {name : DocQuery.Path}
      {arguments : Syntax.Arguments} {trailing : Option Expr} :
      NoMark '(' cs → NoWord .true_ cs → Path size cs name r →
      Takes (Rule.firstOf Grammar.operators) r token none r₁ →
      Arguments size true r₁ arguments r₂ → Trailing size r₂ trailing rest →
      Operand size cs (.call name arguments trailing) rest

/-- The arguments of a call up to its closing parenthesis. -/
inductive Arguments (size : Nat) : Bool → List Char → Syntax.Arguments → List Char → Prop where
  | nil {first : Bool} {cs rest : List Char} :
      Mark ')' cs rest → Arguments size first cs .nil rest
  | cons {first : Bool} {cs r r₁ rest : List Char} {argument : Syntax.Argument}
      {others : Syntax.Arguments} :
      NoMark ')' cs → Separator first cs r → Argument size r argument r₁ →
      Arguments size false r₁ others rest → Arguments size first cs (.cons argument others) rest

/-- A value, a field that stands alone, or a condition. -/
inductive Argument (size : Nat) : List Char → Syntax.Argument → List Char → Prop where
  | value {cs rest : List Char} {value : DocQuery.Value} :
      Value size cs value rest → Argument size cs (.leaf (.value value)) rest
  | field {cs rest : List Char} {field : DocQuery.Path} :
      NoValue cs → Path size cs field rest → Alone rest →
      Argument size cs (.leaf (.field field)) rest
  | condition {cs r rest : List Char} {inner : Syntax.Condition} :
      NoValue cs → NotAlone size cs r → Condition size r inner rest →
      Argument size cs (.condition inner) rest

end

/-! ## Shapes of clauses -/

/-- A part of the grammar that may be complex. -/
abbrev Part (α : Type) : Type :=
  List Char → α → Complexity → List Char → Prop

/-- Items with commas between them. -/
inductive Items {α : Type} (item : Part α) : Part (List α) where
  | last {cs rest : List Char} {a : α} {cost : Complexity} :
      item cs a cost rest → NoMark ',' rest → Items item cs [a] cost rest
  | more {cs r r₁ rest : List Char} {a : α} {as : List α} {cost costs : Complexity} :
      item cs a cost r → Mark ',' r r₁ → Items item r₁ as costs rest →
      Items item cs (a :: as) (cost.join costs) rest

/-- A clause that its keyword opens, if the keyword is there. -/
inductive Clause {α : Type} (keyword : Keyword) (body : Part α) : Part (Option α) where
  | absent {cs : List Char} : NoWord keyword cs → Clause keyword body cs none .zero cs
  | present {cs r rest : List Char} {a : α} {cost : Complexity} :
      Word keyword cs r → body r a cost rest → Clause keyword body cs (some a) cost rest

/-! ## Clauses -/

/-- A script block. -/
inductive Script (size : Nat) : List Char → DocQuery.Script → List Char → Prop where
  | mk {cs token rest : List Char} :
      Takes Rule.block cs token () rest →
      Script size cs ⟨(tokenAt size token rest).text, (tokenAt size token rest).span⟩ rest

/-- A condition, as the tree that it is read as. -/
inductive Filter (size : Nat) : Part Expr where
  | mk {cs rest : List Char} {c : Syntax.Condition} :
      Condition size cs c rest → Filter size cs c.tree c.cost rest

/-- An alias, of which AS may have to be there. -/
inductive AsName (size : Nat) (needsAs : Bool) : List Char → Option String → List Char → Prop where
  | named {cs token r rest : List Char} {path : DocQuery.Path} :
      Takes (Rule.anyKeyword Keyword.reserved) cs token .as_ r → Path size r path rest →
      AsName size needsAs cs (some path.text) rest
  | clause {cs token rest : List Char} {keyword : Keyword} :
      Takes (Rule.anyKeyword Keyword.reserved) cs token keyword rest → keyword ≠ .as_ →
      AsName size needsAs cs none (token ++ rest)
  | needed {cs : List Char} :
      Passes (Rule.anyKeyword Keyword.reserved) cs → needsAs = true →
      AsName size needsAs cs none cs
  | bare {cs rest : List Char} {path : DocQuery.Path} :
      Passes (Rule.anyKeyword Keyword.reserved) cs → needsAs = false → Path size cs path rest →
      AsName size needsAs cs (some path.text) rest
  | absent {cs rest : List Char} :
      Passes (Rule.anyKeyword Keyword.reserved) cs → needsAs = false → NoPath cs rest →
      AsName size needsAs cs none rest

/-- A field or a call of it. -/
inductive FieldOrCall (size : Nat) : Part Expr where
  | field {cs rest : List Char} {path : DocQuery.Path} :
      Path size cs path rest → NoMark '(' rest → FieldOrCall size cs (.field path) .zero rest
  | call {cs r r₁ rest : List Char} {name : DocQuery.Path} {arguments : Syntax.Arguments} :
      Path size cs name r → Mark '(' r r₁ → Arguments size true r₁ arguments rest →
      FieldOrCall size cs (.call name arguments.trees) arguments.cost.nest rest

/-- A field of GROUP BY. -/
inductive GroupField (size : Nat) : Part DocQuery.Path where
  | mk {cs rest : List Char} {path : DocQuery.Path} :
      Path size cs path rest → GroupField size cs path .zero rest

/-- The sort type of a term. -/
inductive SortType : List Char → DocQuery.SortType → List Char → Prop where
  | implicit {cs : List Char} : NoWord .as_ cs → SortType cs .implicit cs
  | explicit {cs r token rest : List Char} {sortType : DocQuery.SortType} :
      Word .as_ cs r → Takes (Rule.firstOf DocQuery.SortType.table) r token sortType rest →
      SortType cs sortType rest

/-- The direction of a term is up. -/
inductive Ascending : List Char → Bool → List Char → Prop where
  | implicit {cs : List Char} :
      Passes (Rule.anyKeyword Keyword.directions) cs → Ascending cs true cs
  | explicit {cs token rest : List Char} {keyword : Keyword} :
      Takes (Rule.anyKeyword Keyword.directions) cs token keyword rest →
      Ascending cs (keyword != .desc && keyword != .descending) rest

/-- A term of ORDER BY. -/
inductive OrderTerm (size : Nat) : Part DocQuery.OrderTerm where
  | mk {cs r r₁ rest : List Char} {key : Expr} {sortType : DocQuery.SortType}
      {ascending : Bool} {cost : Complexity} :
      FieldOrCall size cs key cost r → SortType r sortType r₁ → Ascending r₁ ascending rest →
      OrderTerm size cs ⟨key, sortType, ascending⟩ cost rest

/-- The body of an entry of SELECT or LOAD. -/
inductive Projected (size : Nat) : Part Expr where
  | named {cs rest : List Char} {e : Expr} {cost : Complexity} :
      FieldOrCall size cs e cost rest → Projected size cs e cost rest
  | value {cs r rest : List Char} {value : DocQuery.Value} :
      NoPath cs r → Value size r value rest → Projected size cs (.value value) .zero rest

/-- An entry of SELECT or LOAD. -/
inductive Projection (size : Nat) (needsAs : Bool) : Part DocQuery.Projection where
  | mk {cs r rest : List Char} {body : Expr} {asName : Option String} {cost : Complexity} :
      Projected size cs body cost r → AsName size needsAs r asName rest →
      Projection size needsAs cs ⟨body, asName.or (Grammar.inferredAlias body)⟩ cost rest

/-- An entry of INCLUDE. -/
inductive Include (size : Nat) : Part Expr where
  | value {cs rest : List Char} {value : DocQuery.Value} :
      Value size cs value rest → Include size cs (.value value) .zero rest
  | field {cs rest : List Char} {path : DocQuery.Path} :
      NoValue cs → Path size cs path rest → Include size cs (.field path) .zero rest

/-- The keyword DISTINCT, if it is there. -/
inductive Distinct : List Char → Bool → List Char → Prop where
  | absent {cs : List Char} : NoWord .distinct cs → Distinct cs false cs
  | present {cs rest : List Char} : Word .distinct cs rest → Distinct cs true rest

/-- What follows SELECT. -/
inductive Selection (size : Nat) : Part Grammar.Selection where
  | all {cs r rest : List Char} {distinct : Bool} :
      Distinct cs distinct r → Mark '*' r rest →
      Selection size cs ⟨none, none, distinct⟩ .zero rest
  | script {cs r rest : List Char} {distinct : Bool} {script : DocQuery.Script} :
      Distinct cs distinct r → NoMark '*' r → Script size r script rest →
      Selection size cs ⟨some [], some script, distinct⟩ .zero rest
  | entries {cs r rest : List Char} {distinct : Bool} {entries : List DocQuery.Projection}
      {cost : Complexity} :
      Distinct cs distinct r → NoMark '*' r → Passes Rule.block r →
      Items (Projection size true) r entries cost rest →
      Selection size cs ⟨some entries, none, distinct⟩ cost rest

/-- The filter of a collection, in parentheses. -/
inductive SourceFilter (size : Nat) : Part (Option Expr) where
  | absent {cs : List Char} : NoMark '(' cs → SourceFilter size cs none .zero cs
  | present {cs r r₁ rest : List Char} {c : Syntax.Condition} :
      Mark '(' cs r → Condition size r c r₁ → Mark ')' r₁ rest →
      SourceFilter size cs (some c.tree) c.cost.nest rest

/-- The FROM clause. -/
inductive Source (size : Nat) : Part DocQuery.Source where
  | collection {cs r token r₁ r₂ rest : List Char} {text : String} {quoted : Bool}
      {filter : Option Expr} {asName : Option String} {cost : Complexity} :
      Word .from_ cs r → NoWord .index r → Segment true r token text quoted r₁ →
      SourceFilter size r₁ filter cost r₂ → AsName size false r₂ asName rest →
      Source size cs ⟨⟨text, (tokenAt size token r₁).span, quoted⟩, asName, filter, false⟩ cost rest
  | index {cs r r₁ token r₂ rest : List Char} {text : String} {quoted : Bool}
      {asName : Option String} :
      Word .from_ cs r → Word .index r r₁ → Segment true r₁ token text quoted r₂ →
      AsName size false r₂ asName rest →
      Source size cs ⟨⟨text, (tokenAt size token r₂).span, quoted⟩, asName, none, true⟩ .zero rest

/-- A function behind DECLARE. -/
inductive Declaration (size : Nat) : Part (String × DocQuery.Script) where
  | mk {cs keyword r name r₁ r₂ r₃ block rest text : List Char} {arguments : Syntax.Arguments} :
      Takes (Rule.keyword .function) cs keyword () r →
      Takes (Rule.identifier true) r name () r₁ → Mark '(' r₁ r₂ →
      Arguments size true r₂ arguments r₃ → Takes Rule.block r₃ block () rest →
      keyword ++ r = text ++ rest →
      Declaration size cs
        (String.ofList name,
          ⟨String.ofList text, Span.between (place size (keyword ++ r)) (place size rest)⟩)
        arguments.cost.nest rest

/-- Declared functions, added to those known. -/
inductive Declarations (size : Nat) :
    Functions → List Char → Functions → Complexity → List Char → Prop where
  | done {known : Functions} {cs : List Char} :
      NoWord .declare cs → Declarations size known cs known .zero cs
  | more {known functions : Functions} {cs r r₁ rest : List Char} {name : String}
      {script : DocQuery.Script} {cost costs : Complexity} :
      Word .declare cs r → Declaration size r (name, script) cost r₁ →
      known.contains name = false →
      Declarations size (known.insert name script) r₁ functions costs rest →
      Declarations size known cs functions (cost.join costs) rest

/-- What a query of a kind ends with. -/
inductive Ending (size : Nat) : QueryKind → DocQuery.Query → Part DocQuery.Query where
  | select {query : DocQuery.Query} {cs r rest : List Char}
      {selection : Option Grammar.Selection} {includes : Option (List Expr)}
      {cost costs : Complexity} :
      Clause .select (Selection size) cs selection cost r →
      Clause .include_ (Items (Include size)) r includes costs rest →
      Ending size .select query cs { query with
        select := (selection.getD .none).entries,
        selectScript := (selection.getD .none).script,
        distinct := (selection.getD .none).distinct, includes := includes }
        (cost.join costs) rest
  | update {query : DocQuery.Query} {cs r rest : List Char} {script : DocQuery.Script} :
      Word .update cs r → Script size r script rest →
      Ending size .update query cs { query with updateScript := some script } .zero rest

/-- The clauses behind the declared functions up to LOAD. -/
inductive Body (size : Nat) (text : String) (functions : Functions) : Part DocQuery.Query where
  | mk {cs r r₁ r₂ r₃ rest : List Char} {source : DocQuery.Source}
      {groupBy : Option (List DocQuery.Path)} {filter : Option Expr}
      {orderBy : Option (List DocQuery.OrderTerm)} {load : Option (List DocQuery.Projection)}
      {c₁ c₂ c₃ c₄ c₅ : Complexity} :
      Source size cs source c₁ r →
      Clause .groupBy (Items (GroupField size)) r groupBy c₂ r₁ →
      Clause .where_ (Filter size) r₁ filter c₃ r₂ →
      Clause .orderBy (Items (OrderTerm size)) r₂ orderBy c₄ r₃ →
      Clause .load (Items (Projection size false)) r₃ load c₅ rest →
      Body size text functions cs { Query.ofSource source with
        text := text, functions := functions, groupBy := groupBy, filter := filter,
        orderBy := orderBy, load := load }
        (c₁.join (c₂.join (c₃.join (c₄.join c₅)))) rest

/-- A whole text as a query of a kind. -/
inductive Query (kind : QueryKind) (text : String) : DocQuery.Query → Complexity → Prop where
  | mk {r r₁ rest : List Char} {functions : Functions} {body query : DocQuery.Query}
      {c₁ c₂ c₃ : Complexity} :
      Declarations (Text.byteLength text.toList) .empty text.toList functions c₁ r →
      Body (Text.byteLength text.toList) text functions r body c₂ r₁ →
      Ending (Text.byteLength text.toList) kind body r₁ query c₃ rest →
      Trivia.rest rest = [] →
      Query kind text query (c₁.join (c₂.join c₃))

end Written

end DocQuery
