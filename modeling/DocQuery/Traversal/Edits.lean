import DocQuery.Traversal.Pass

/-!
# Edits of a query

Common passes: put a value in place of a parameter, qualify fields, rename
calls, turn operators into their opposites, drop conditions on a field, replace
scripts, and reverse the order of lists.
-/

namespace DocQuery.Pass

/-- Put a value in place of every parameter of a name. -/
def substitute (name : String) (replacement : Value) : Pass Id :=
  { idle with
    value := fun v =>
      if v.kind = .parameter ∧ v.token = name then replacement else v }

/-- Put a text in front of every path that is not left out. -/
def qualify (qualifier : String) : Pass Id :=
  { idle with
    field := fun path =>
      if path.isImplicit then path else { path with text := qualifier ++ path.text } }

/-- Give the calls of one name another name. -/
def renameCalls (old new : String) : Pass Id :=
  { idle with
    call := fun name _ =>
      .enter (if name.text = old then { name with text := new } else name) }

/-- Turn every operator but that of a filter itself into its opposite. -/
def negate : Pass Id :=
  { idle with binary := fun operator _ _ => .enter operator.opposite }

/-- The expression is a comparison or connective with a field of that name on its left. -/
def isOnField (name : String) : Expr → Bool
  | .binary _ (.field path) _ => path.text == name
  | _ => false

/-- Put `true` in place of every comparison on a field. -/
def drop (name : String) : Pass Id :=
  { idle with expr := fun e => if isOnField name e then some .truth else none }

/-- Give every script another text; a declared function keeps its name. -/
def replaceScripts (text : String) : Pass Id :=
  { idle with
    function := fun name script =>
      { script with text := "function " ++ name ++ "() " ++ text }
    selectScript := fun script => { script with text := text }
    updateScript := fun script => { script with text := text } }

/-- Reverse the lists of a query but that of LOAD, and every direction of sorting. -/
def reverse : Pass Id :=
  { idle with
    groupBy := fun fields => .settle fields.reverse
    orderBy := fun terms =>
      .settle (terms.reverse.map fun term => { term with ascending := !term.ascending })
    select := fun entries => .settle entries.reverse
    includes := fun entries => .settle entries.reverse }

end DocQuery.Pass
