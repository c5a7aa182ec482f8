import DocQuery.Text.Blank
import DocQuery.Text.Caseless

/-!
# Keywords

The words of the query language.  Three of them are pairs of words, which any
white space may separate.  A keyword is recognised whatever the case of its
letters and is written in one way, which `Keyword.text` gives.
-/

namespace DocQuery

/-- A word, or a pair of words, with a meaning of its own in a query. -/
inductive Keyword where
  | declare | function
  | from_ | index | group | groupBy | where_ | order | orderBy | load
  | select | distinct | include_ | update | as_
  | and | or | not
  | between | in_ | allIn
  | true_ | false_ | null
  | asc | desc | ascending | descending
  deriving DecidableEq, Repr

namespace Keyword

/-- Every keyword once. -/
def all : List Keyword :=
  [declare, function, from_, index, group, groupBy, where_, order, orderBy, load,
   select, distinct, include_, update, as_, and, or, not, between, in_, allIn,
   true_, false_, null, asc, desc, ascending, descending]

/-- The keyword as canonical text writes it. -/
def text : Keyword → String
  | declare => "DECLARE"
  | function => "function"
  | from_ => "FROM"
  | index => "INDEX"
  | group => "GROUP"
  | groupBy => "GROUP BY"
  | where_ => "WHERE"
  | order => "ORDER"
  | orderBy => "ORDER BY"
  | load => "LOAD"
  | select => "SELECT"
  | distinct => "DISTINCT"
  | include_ => "INCLUDE"
  | update => "UPDATE"
  | as_ => "AS"
  | and => "AND"
  | or => "OR"
  | not => "NOT"
  | between => "BETWEEN"
  | in_ => "IN"
  | allIn => "ALL IN"
  | true_ => "true"
  | false_ => "false"
  | null => "null"
  | asc => "ASC"
  | desc => "DESC"
  | ascending => "ASCENDING"
  | descending => "DESCENDING"

/-- The words of the keyword. -/
def words (keyword : Keyword) : List (List Char) :=
  Text.words keyword.text.toList

/-- Two lists of words are equal up to the case of ASCII letters. -/
def sameWords : List (List Char) → List (List Char) → Bool
  | [], [] => true
  | w :: ws, v :: vs => Text.sameWord w v && sameWords ws vs
  | _, _ => false

/-- The keyword with the same words, whatever their case and separation. -/
def ofWords? (words : List (List Char)) : Option Keyword :=
  all.find? fun keyword => sameWords keyword.words words

/-- The keyword that a text consists of. -/
def ofText? (cs : List Char) : Option Keyword :=
  ofWords? (Text.words cs)

/-- Keywords that start the next clause or an alias, and so never start a path. -/
def reserved : List Keyword :=
  [as_, select, where_, load, group, order, include_, update]

/-- Keywords between two conditions. -/
def connectives : List Keyword := [or, and]

/-- Keywords that are values. -/
def literals : List Keyword := [true_, false_, null]

/-- Keywords behind a term of ORDER BY. -/
def directions : List Keyword := [asc, desc, ascending, descending]

/-- The keyword never starts a path. -/
def isReserved (keyword : Keyword) : Bool :=
  reserved.contains keyword

end Keyword

end DocQuery
