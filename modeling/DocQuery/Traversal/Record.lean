import DocQuery.Traversal.Pass

/-!
# The nodes that a pass comes to

A recording pass changes nothing and keeps a list of the nodes that it comes to.
It goes below a node only where it is told to.
-/

namespace DocQuery

/-- Note a node and go below it, or settle it as it is. -/
def Node.note {α β : Type} (into : Node → Bool) (label : α) (whole : β) (place : Node) :
    StateM (List Node) (Turn α β) := do
  modify (· ++ [place])
  return if into place then .enter label else .settle whole

/-- Note a node without parts. -/
def Node.noteEnd {α : Type} (place : Node) (a : α) : StateM (List Node) α := do
  modify (· ++ [place])
  return a

namespace Pass

/--
The pass that records where it comes.  It leaves LOAD, INCLUDE and the two kinds
of filters unrecorded, and so always goes below them.
-/
def recording (into : Node → Bool) : Pass (StateM (List Node)) :=
  { idle with
    query := fun q => Node.note into q q (.query q)
    functions := fun fs => Node.note into fs fs (.functions fs)
    function := fun name script => Node.noteEnd (.function name script) script
    source := fun s distinct => Node.note into s s (.source s distinct)
    groupBy := fun fields => Node.note into fields fields (.groupBy fields)
    filter := fun operator left right =>
      Node.note into operator (.binary operator left right) (.filter operator left right)
    orderBy := fun terms => Node.note into terms terms (.orderBy terms)
    select := fun entries => Node.note into entries entries (.select entries)
    selectScript := fun script => Node.noteEnd (.selectScript script) script
    updateScript := fun script => Node.noteEnd (.updateScript script) script
    expr := fun e => do
      modify (· ++ [Node.expr e])
      return if into (.expr e) then none else some e
    field := fun path => Node.noteEnd (.field path) path
    value := fun v => Node.noteEnd (.value v) v
    binary := fun operator left right =>
      Node.note into operator (.binary operator left right) (.binary operator left right)
    between := fun subject low high =>
      Node.note into () (.between subject low high) (.between subject low high)
    within := fun subject values all =>
      Node.note into all (.within subject values all) (.within subject values all)
    call := fun name arguments =>
      Node.note into name (.call name arguments) (.call name arguments)
    truth := Node.noteEnd .truth () }

/-- The pass that records the fields and values that it comes to. -/
def recordingLeaves : Pass (StateM (List Leaf)) :=
  onLeaves
    (fun path => do
      modify (· ++ [Leaf.field path])
      return path)
    (fun v => do
      modify (· ++ [Leaf.value v])
      return v)

end Pass

namespace Query

/-- The nodes that a pass comes to when it goes below some of them. -/
def reached (into : Node → Bool) (query : Query) : List Node :=
  ((query.transform (Pass.recording into)).run []).2

/-- The fields and values that a pass comes to. -/
def reachedLeaves (query : Query) : List Leaf :=
  ((query.transform Pass.recordingLeaves).run []).2

end Query

end DocQuery
