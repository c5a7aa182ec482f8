import DocQuery.Grammar.Clause
import DocQuery.Query.Render

/-!
# Reading queries

A session holds a text and reads queries from it under fixed limits.  A query is
read to the end of the text; where it is refused, the session stays behind the
token that was refused and a further reading goes on from there.  The fuel of a
reading is linear in the length of the text.
-/

namespace DocQuery

open Grammar

/-- A reader of queries: its cursor in a text and its limits. -/
structure Session where
  scanner : Scanner
  limits : Limits

namespace Session

/-- A session at the beginning of a text. -/
def ofText (text : String) (limits : Limits) : Session :=
  ⟨.ofText text, limits⟩

/-- The same limits at the beginning of another text. -/
def restart (text : String) (session : Session) : Session :=
  { session with scanner := .ofText text }

/-- The fuel for a text: more than the nested steps that its bytes allow. -/
def fuelFor (text : String) : Nat :=
  4 * text.utf8ByteSize + 16

/-- Read a query of a kind from the cursor to the end of the text. -/
def read (kind : QueryKind) (session : Session) : Except Failure Query × Session :=
  let fuel := fuelFor session.scanner.text
  match query session.limits kind fuel ⟨session.scanner, 0, 0⟩ with
  | .ok query state => (.ok query, { session with scanner := state.scanner })
  | .error failure state => (.error failure, { session with scanner := state.scanner })

end Session

namespace Query

/-- Read a text as a query of a kind. -/
def parse (kind : QueryKind) (limits : Limits) (text : String) : Except Failure Query :=
  ((Session.ofText text limits).read kind).1

/-- Read the canonical text of the query as a query of its kind. -/
def reread (query : Query) : Except Failure Query :=
  parse query.kind {} query.render

end Query

end DocQuery
