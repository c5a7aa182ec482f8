import DocQuery.Proofs.Erase

/-!
# Sameness of queries

Two queries are the same exactly if they are equal without positions and text, so
sameness is an equivalence.  Whatever stands at one address in two queries that are
the same is written in one way, from the clauses down to the paths and values in
them.  The main statement is `Query.same_up_to_positions`.
-/

namespace DocQuery

/-! ## Fragments -/

/-- Anything in a query that has a canonical text of its own. -/
inductive Fragment where
  | script (script : Script)
  | source (source : Source)
  | term (term : OrderTerm)
  | entry (entry : Projection)
  | path (path : Path)
  | value (value : Value)
  | expr (expr : Expr)

namespace Fragment

/-- The canonical text. -/
def render : Fragment → String
  | script s => s.text
  | source s => s.render
  | term t => t.render
  | entry e => e.render
  | path p => p.render
  | value v => v.render
  | expr e => e.render

/-- The fragment without positions. -/
def erase : Fragment → Fragment
  | script s => script s.erase
  | source s => source s.erase
  | term t => term t.erase
  | entry e => entry e.erase
  | path p => path p.erase
  | value v => value v.erase
  | expr e => expr e.erase

/-- The fragments that a fragment is made of, from left to right. -/
def inner : Fragment → List Fragment
  | script _ => []
  | source s => path s.name :: s.filter.toList.map expr
  | term t => [expr t.key]
  | entry e => [expr e.body]
  | path _ => []
  | value _ => []
  | expr (.field p) => [path p]
  | expr (.value v) => [value v]
  | expr (.binary _ left right) => [expr left, expr right]
  | expr (.between subject low high) => [path subject, value low, value high]
  | expr (.within subject values _) => path subject :: values.map value
  | expr (.call name arguments) => path name :: arguments.map expr
  | expr .truth => []

/-- The fragment that is reached by going inward to the one of each number in turn. -/
def at? : List Nat → Fragment → Option Fragment
  | [], fragment => some fragment
  | index :: way, fragment => fragment.inner[index]?.bind (at? way)

/-- Canonical text has no positions. -/
@[simp]
theorem render_erase (fragment : Fragment) : fragment.erase.render = fragment.render := by
  cases fragment with
  | script s => rfl
  | source s => exact s.render_erase
  | term t => exact t.render_erase
  | entry e => exact e.render_erase
  | path p => exact p.render_erase
  | value v => exact v.render_erase
  | expr e => exact e.render_erase

theorem inner_erase (fragment : Fragment) : fragment.erase.inner = fragment.inner.map erase := by
  cases fragment with
  | script s => rfl
  | source s =>
      obtain ⟨name, asName, filter, isIndex⟩ := s
      cases filter <;> rfl
  | term t => rfl
  | entry e => rfl
  | path p => rfl
  | value v => rfl
  | expr e =>
      cases e with
      | within subject values all =>
          simp [erase, Expr.erase, inner]
      | call name arguments =>
          simp [erase, Expr.erase, inner, Expr.eraseAll_eq_map]
      | _ => rfl

/-- The same way inward leads to the same fragment. -/
theorem at?_erase (way : List Nat) (fragment : Fragment) :
    fragment.erase.at? way = (fragment.at? way).map erase := by
  induction way generalizing fragment with
  | nil => rfl
  | cons index way ih =>
      rw [at?, at?, inner_erase, List.getElem?_map]
      cases fragment.inner[index]? with
      | none => rfl
      | some next => exact ih next

end Fragment

/-! ## Clauses -/

/-- The clauses of a query. -/
inductive ClauseName where
  | functions | source | groupBy | filter | orderBy | load | select | selectScript
  | updateScript | includes
  deriving DecidableEq

/-- A place in a query: a clause, a number in it, and the way inward from there. -/
structure Address where
  clause : ClauseName
  index : Nat
  way : List Nat

namespace Query

/-- The fragments of a clause, if the query has it. -/
def fragments (query : Query) : ClauseName → Option (List Fragment)
  | .functions => some (query.functions.entries.map fun entry => .script entry.2)
  | .source => some [.source query.source]
  | .groupBy => query.groupBy.map (List.map .path)
  | .filter => query.filter.map fun filter => [.expr filter]
  | .orderBy => query.orderBy.map (List.map .term)
  | .load => query.load.map (List.map .entry)
  | .select => query.select.map (List.map .entry)
  | .selectScript => query.selectScript.map fun script => [.script script]
  | .updateScript => query.updateScript.map fun script => [.script script]
  | .includes => query.includes.map (List.map .expr)

/-- What stands at an address. -/
def fragment? (address : Address) (query : Query) : Option Fragment :=
  (query.fragments address.clause).bind fun fragments =>
    fragments[address.index]?.bind (Fragment.at? address.way)

theorem fragments_erase (query : Query) (clause : ClauseName) :
    query.erase.fragments clause = (query.fragments clause).map (List.map Fragment.erase) := by
  have hitems : ∀ {α : Type} (wrap : α → Fragment) (f : α → α),
      (∀ a, (wrap a).erase = wrap (f a)) → ∀ items : Option (List α),
        (items.map (List.map f)).map (List.map wrap) =
          (items.map (List.map wrap)).map (List.map Fragment.erase) := by
    intro α wrap f hwrap items
    cases items with
    | none => rfl
    | some items => simp [hwrap]
  cases clause with
  | functions => simp [fragments, erase, Functions.erase, Functions.map, Fragment.erase]
  | source => rfl
  | groupBy => exact hitems .path Path.erase (fun _ => rfl) query.groupBy
  | filter => simp [fragments, erase, Fragment.erase, Function.comp_def]
  | orderBy => exact hitems .term OrderTerm.erase (fun _ => rfl) query.orderBy
  | load => exact hitems .entry Projection.erase (fun _ => rfl) query.load
  | select => exact hitems .entry Projection.erase (fun _ => rfl) query.select
  | selectScript => simp [fragments, erase, Fragment.erase, Function.comp_def]
  | updateScript => simp [fragments, erase, Fragment.erase, Function.comp_def]
  | includes => exact hitems .expr Expr.erase (fun _ => rfl) query.includes

theorem fragment?_erase (address : Address) (query : Query) :
    query.erase.fragment? address = (query.fragment? address).map Fragment.erase := by
  rw [fragment?, fragment?, fragments_erase]
  cases query.fragments address.clause with
  | none => rfl
  | some fragments =>
      simp only [Option.map_some, Option.bind_some, List.getElem?_map]
      cases fragments[address.index]? with
      | none => rfl
      | some fragment => exact Fragment.at?_erase address.way fragment

theorem render_fragments_erase (query : Query) (clause : ClauseName) :
    (query.erase.fragments clause).map (List.map Fragment.render) =
      (query.fragments clause).map (List.map Fragment.render) := by
  rw [fragments_erase, Option.map_map]
  congr 1
  funext fragments
  simp

theorem render_fragment?_erase (query : Query) (address : Address) :
    (query.erase.fragment? address).map Fragment.render =
      (query.fragment? address).map Fragment.render := by
  rw [fragment?_erase, Option.map_map]
  congr 1
  funext fragment
  exact fragment.render_erase

/--
Queries are the same exactly if nothing is left to tell them apart without
positions and text.  This is an equivalence.  Queries that are the same are
written in the same way, and so is whatever stands at one address in both.
-/
theorem same_up_to_positions :
    (∀ q r : Query, (q == r) = true ↔ q.erase = r.erase) ∧
    (Equivalence fun q r : Query => (q == r) = true) ∧
    ∀ q r : Query, (q == r) = true →
      q.render = r.render ∧
      (∀ clause, (q.fragments clause).map (List.map Fragment.render) =
        (r.fragments clause).map (List.map Fragment.render)) ∧
      ∀ address, (q.fragment? address).map Fragment.render =
        (r.fragment? address).map Fragment.render := by
  refine ⟨fun q r => beq_iff, ⟨?_, ?_, ?_⟩, fun q r hsame => ⟨render_eq_of_beq hsame, ?_, ?_⟩⟩
  · exact fun q => beq_iff.mpr rfl
  · exact fun hsame => beq_iff.mpr (beq_iff.mp hsame).symm
  · exact fun hsame hsame' => beq_iff.mpr ((beq_iff.mp hsame).trans (beq_iff.mp hsame'))
  · intro clause
    rw [← render_fragments_erase q, beq_iff.mp hsame, render_fragments_erase r]
  · intro address
    rw [← render_fragment?_erase q, beq_iff.mp hsame, render_fragment?_erase r]

/-- A condition as it was read and as it is built are the same, down to its field. -/
theorem same_up_to_positions_filter :
    ∃ read built : Query, read.text ≠ built.text ∧ (read == built) = true ∧
      read.render = built.render ∧
      (read.fragment? ⟨.filter, 0, [0, 0]⟩).map Fragment.render = some "Age" ∧
      (built.fragment? ⟨.filter, 0, [0, 0]⟩).map Fragment.render = some "Age" := by
  let users := Query.ofSource (.collection "Users")
  let read : Query :=
    { users with
      text := "from Users where Age>1"
      filter := some (.compare (.field ⟨"Age", ⟨17, 3⟩, false⟩) .greater
        ⟨"1", ⟨21, 1⟩, .long, false⟩) }
  let built : Query :=
    { users with filter := some (.compare (.field (.plain "Age")) .greater (.long 1)) }
  have hsame : (read == built) = true := by decide
  obtain ⟨hrender, -, hfragment⟩ := same_up_to_positions.2.2 read built hsame
  have hfield : (built.fragment? ⟨.filter, 0, [0, 0]⟩).map Fragment.render = some "Age" := by
    decide +kernel
  exact ⟨read, built, by decide, hsame, hrender, (hfragment _).trans hfield, hfield⟩

end Query

end DocQuery
