import DocQuery.Expr.Basic
import DocQuery.Functions
import DocQuery.Text.Caseless

/-!
# Queries

A query reads from a source and may group, filter, sort, load, select and
include.  An update query ends with a script instead of a selection.  Two
queries are the same if their clauses are, whatever their texts and positions.
-/

namespace DocQuery

/-- What a query is for. -/
inductive QueryKind where
  /-- Reads documents. -/
  | select
  /-- Changes documents with a script. -/
  | update
  deriving DecidableEq, Inhabited, Repr

namespace QueryKind

/-- The name of the kind. -/
def name : QueryKind → String
  | select => "select"
  | update => "update"

/-- The kind with a name, in any case. -/
def ofName? (name : String) : Option QueryKind :=
  [select, update].find? fun kind => Text.sameWord kind.name.toList name.toList

end QueryKind

/-- How the values of a sorted field are compared. -/
inductive SortType where
  | implicit | string | long | double | alphaNumeric
  deriving DecidableEq, Inhabited, Repr

namespace SortType

/-- Every sort type that can be asked for. -/
def explicit : List SortType := [string, long, double, alphaNumeric]

/-- The sort type as canonical text writes it, if it is written at all. -/
def text? : SortType → Option String
  | implicit => none
  | string => some "string"
  | long => some "long"
  | double => some "double"
  | alphaNumeric => some "alphaNumeric"

/-- The name of the sort type. -/
def name : SortType → String
  | implicit => "Implicit"
  | string => "String"
  | long => "Long"
  | double => "Double"
  | alphaNumeric => "AlphaNumeric"

/-- The sort type with a name. -/
def ofName? (name : String) : Option SortType :=
  (implicit :: explicit).find? fun sortType => sortType.name == name

/-- The texts of the sort types that can be asked for. -/
def table : List (String × SortType) :=
  explicit.filterMap fun sortType => sortType.text?.map (·, sortType)

/-- The sort type that a text asks for, in any case. -/
def ofText? (text : String) : Option SortType :=
  (table.find? fun entry => Text.sameWord entry.1.toList text.toList).map Prod.snd

end SortType

/-- The FROM clause. -/
structure Source where
  /-- The name of the collection or index. -/
  name : Path
  /-- The alias. -/
  asName : Option String
  /-- A condition in parentheses behind the name of a collection. -/
  filter : Option Expr
  isIndex : Bool
  deriving BEq, Inhabited

namespace Source

/-- A collection. -/
def collection (name : String) : Source := ⟨.plain name, none, none, false⟩

/-- An index. -/
def index (name : String) : Source := ⟨.plain name, none, none, true⟩

end Source

/-- A term of ORDER BY. -/
structure OrderTerm where
  /-- The field or call to sort by. -/
  key : Expr
  sortType : SortType
  ascending : Bool
  deriving BEq, Inhabited

/-- An entry of SELECT or LOAD. -/
structure Projection where
  /-- The field, value or call to take. -/
  body : Expr
  /-- The alias. -/
  asName : Option String
  deriving BEq, Inhabited

namespace Projection

/-- The alias is the text of a projected value, which need not be written. -/
def hasInferredAlias (projection : Projection) : Bool :=
  match projection.body, projection.asName with
  | .value v, some asName => v.text == asName
  | _, _ => false

end Projection

/-- A query. -/
structure Query where
  /-- The text that the query was read from. -/
  text : String
  functions : Functions
  source : Source
  groupBy : Option (List Path)
  filter : Option Expr
  orderBy : Option (List OrderTerm)
  load : Option (List Projection)
  /-- The entries of SELECT, none without the clause and for `SELECT *`. -/
  select : Option (List Projection)
  /-- The script of SELECT. -/
  selectScript : Option Script
  /-- The script of UPDATE. -/
  updateScript : Option Script
  includes : Option (List Expr)
  distinct : Bool
  deriving Inhabited

namespace Query

/-- A query that reads all of a source. -/
def ofSource (source : Source) : Query :=
  ⟨"", .empty, source, none, none, none, none, none, none, none, none, false⟩

/-- The queries are the same up to text and positions. -/
def same (q r : Query) : Bool :=
  q.functions == r.functions && q.source == r.source && q.groupBy == r.groupBy &&
    q.filter == r.filter && q.orderBy == r.orderBy && q.load == r.load &&
    q.select == r.select && q.selectScript == r.selectScript &&
    q.updateScript == r.updateScript && q.includes == r.includes &&
    q.distinct == r.distinct

instance : BEq Query := ⟨same⟩

/-- The kind that the query has to be read as. -/
def kind (query : Query) : QueryKind :=
  if query.updateScript.isSome then .update else .select

end Query

end DocQuery
