import DocQuery.Json.Decode

/-!
# Queries as JSON and back

What the encoder writes of a query is read as that query, with its text and all
positions.  Each record is restored from the members of an object, each
alternative from its name, and an expression from within the height of its JSON
value.  Positions are numbers of 64 bits.  The main statement is
`Query.ofJson?_toJson`.
-/

namespace DocQuery

namespace Json

/-! ## Parts -/

/-- The part is read back from what is written of it, which is not null. -/
structure Restores {α : Type} (encode : α → Json) (decode : Json → Option α) (a : α) : Prop where
  decoded : decode (encode a) = some a
  ne_null : encode a ≠ .null

variable {α β : Type} {encode : α → Json} {decode : Json → Option α}

theorem mapM_eq_some {f : α → Option β} {g : α → β} {items : List α}
    (h : ∀ a ∈ items, f a = some (g a)) : items.mapM f = some (items.map g) := by
  induction items with
  | nil => rfl
  | cons a items ih =>
      obtain ⟨hhead, hitems⟩ := List.forall_mem_cons.mp h
      rw [List.mapM_cons, hhead, ih hitems]
      rfl

theorem restores_list {items : List α} (h : ∀ a ∈ items, decode (encode a) = some a) :
    Restores (ofList encode) (list? decode) items := by
  refine ⟨?_, Json.noConfusion⟩
  have hitems : items.mapM (decode ∘ encode) = some (items.map id) := mapM_eq_some h
  rw [ofList, list?, List.mapM_map, hitems, List.map_id]

theorem restores_option {part : Option α} (h : ∀ a ∈ part, Restores encode decode a) :
    optional decode (some (ofOption encode part)) = some part := by
  cases part with
  | none => rfl
  | some a =>
      obtain ⟨hdecoded, hne⟩ := h a rfl
      rw [ofOption, optional, hdecoded]
      · rfl
      · exact hne

theorem restores_string (s : String) : Restores .string string? s :=
  ⟨rfl, Json.noConfusion⟩

theorem nat?_ofNat {n : Nat} (h : n < UInt64.size) : nat? (ofNat n) = some n :=
  if_pos h

/-! ## Heights -/

theorem height_pos (json : Json) : 0 < json.height := by
  cases json <;> simp [height]

/-- An item is lower than its array. -/
theorem height_item_lt {items : List Json} {item : Json} {height : Nat}
    (hle : (array items).height ≤ height) (hmem : item ∈ items) : item.height < height := by
  rw [Json.height] at hle
  induction items with
  | nil => cases hmem
  | cons other items ih =>
      rw [heightItems] at hle
      rcases List.mem_cons.mp hmem with rfl | hmem
      · omega
      · exact ih (by omega) hmem

/-- A member is lower than its object. -/
theorem height_member_lt {members : List (String × Json)} {member : String × Json} {height : Nat}
    (hle : (object members).height ≤ height) (hmem : member ∈ members) :
    member.2.height < height := by
  rw [Json.height] at hle
  induction members with
  | nil => cases hmem
  | cons other members ih =>
      rw [heightMembers] at hle
      rcases List.mem_cons.mp hmem with rfl | hmem
      · omega
      · exact ih (by omega) hmem

/-! ## Objects -/

theorem member?_of_mem {members : List (String × Json)} {member : String × Json}
    (hnames : (members.map Prod.fst).Nodup) (hmem : member ∈ members) :
    member? members member.1 = some (some member.2) := by
  have hfilter : members.filter (fun other => other.1 == member.1) = [member] := by
    induction members with
    | nil => cases hmem
    | cons other members ih =>
        obtain ⟨hfresh, hnames⟩ := List.nodup_cons.mp hnames
        rcases List.mem_cons.mp hmem with rfl | hmem
        · have hothers : members.filter (fun other => other.1 == member.1) = [] := by
            refine List.filter_eq_nil_iff.mpr fun other hother hsame => hfresh ?_
            rw [← eq_of_beq hsame]
            exact List.mem_map_of_mem hother
          rw [List.filter_cons, if_pos BEq.rfl, hothers]
        · have hne : ¬ (other.1 == member.1) = true := fun hsame =>
            hfresh (eq_of_beq hsame ▸ List.mem_map_of_mem hmem)
          rw [List.filter_cons, if_neg hne, ih hnames hmem]
  rw [member?, hfilter]

/-- An object whose members have different names has these parts. -/
theorem parts?_object (members : List (String × Json)) (hnames : (members.map Prod.fst).Nodup) :
    parts? (members.map Prod.fst) (.object members) =
      some (members.map fun member => some member.2) := by
  rw [parts?, List.mapM_map]
  exact mapM_eq_some fun member hmem => member?_of_mem hnames hmem

end Json

open Json

/-! ## Positions -/

/-- The start and the length are numbers of 64 bits. -/
structure Span.IsBounded (span : Span) : Prop where
  start : span.start < UInt64.size
  length : span.length < UInt64.size

theorem Span.restores {span : Span} (h : span.IsBounded) : Restores toJson ofJson? span := by
  refine ⟨?_, Json.noConfusion⟩
  have hparts : parts? ["start", "length"] span.toJson =
      some [some (.ofNat span.start), some (.ofNat span.length)] := parts?_object _ (by simp)
  simp only [ofJson?, hparts, Option.bind_eq_bind, Option.bind_some, required, nat?_ofNat h.start,
    nat?_ofNat h.length, Option.pure_def]

/-! ## Leaves -/

theorem Path.restores {path : Path} (h : path.span.IsBounded) : Restores toJson ofJson? path := by
  refine ⟨?_, Json.noConfusion⟩
  have hparts : parts? ["path", "span", "escaped"] path.toJson =
      some [some (.string path.text), some path.span.toJson, some (.bool path.quoted)] :=
    parts?_object _ (by simp)
  simp only [ofJson?, hparts, Option.bind_eq_bind, Option.bind_some, required, string?, bool?,
    (Span.restores h).decoded, Option.pure_def]

theorem ValueKind.ofJson?_name (kind : ValueKind) : ofJson? (.string kind.name) = some kind := by
  cases kind <;> rfl

theorem Value.restores {v : Value} (h : v.span.IsBounded) : Restores toJson ofJson? v := by
  refine ⟨?_, Json.noConfusion⟩
  have hparts : parts? ["token", "span", "kind", "escaped"] v.toJson =
      some [some (.string v.token), some v.span.toJson, some (.string v.kind.name),
        some (.bool v.escaped)] := parts?_object _ (by simp)
  simp only [ofJson?, hparts, Option.bind_eq_bind, Option.bind_some, required, string?, bool?,
    ValueKind.ofJson?_name, (Span.restores h).decoded, Option.pure_def]

theorem Operator.ofJson?_name (operator : Operator) :
    ofJson? (.string operator.name) = some operator := by
  cases operator with
  | compare comparison => cases comparison <;> rfl
  | connect connective => cases connective <;> rfl

/-! ## Expressions -/

namespace Expr

mutual

/-- All positions and lengths in the expression are numbers of 64 bits. -/
def IsBounded : Expr → Prop
  | .field path => path.span.IsBounded
  | .value v => v.span.IsBounded
  | .binary _ left right => left.IsBounded ∧ right.IsBounded
  | .between subject low high => subject.span.IsBounded ∧ low.span.IsBounded ∧ high.span.IsBounded
  | .within subject values _ => subject.span.IsBounded ∧ ∀ v ∈ values, v.span.IsBounded
  | .call name arguments => name.span.IsBounded ∧ AllBounded arguments
  | .truth => True

/-- All positions and lengths in the expressions are numbers of 64 bits. -/
def AllBounded : List Expr → Prop
  | [] => True
  | e :: es => e.IsBounded ∧ AllBounded es

end

theorem toJsonAll_eq_map (es : List Expr) : toJsonAll es = es.map toJson := by
  induction es with
  | nil => rfl
  | cons e es ih => rw [toJsonAll, ih, List.map_cons]

/-- An alternative is read within one more than the height of its content. -/
theorem ofJsonWithin?_alternative (height : Nat) (name : String) (content : Json) :
    ofJsonWithin? (height + 1) (.object [(name, content)]) =
      ofAlternative? (ofJsonWithin? height) name content := rfl

theorem exists_height {name : String} {content : Json} {height : Nat}
    (hle : (Json.object [(name, content)]).height ≤ height) :
    ∃ n, height = n + 1 ∧ content.height ≤ n := by
  have hlt : content.height < height :=
    height_member_lt hle (List.mem_singleton.mpr (Eq.refl (name, content)))
  exact ⟨height - 1, by omega, by omega⟩

mutual

/-- An expression is read from within any height that its JSON value has. -/
theorem ofJsonWithin?_toJson : (e : Expr) → e.IsBounded → ∀ {height : Nat},
    e.toJson.height ≤ height → ofJsonWithin? height e.toJson = some e
  | .field path, hbounded, height, hle => by
      obtain ⟨n, rfl, -⟩ := exists_height hle
      rw [toJson, ofJsonWithin?_alternative]
      simp only [ofAlternative?, (Path.restores hbounded).decoded, Option.map_some]
  | .value v, hbounded, height, hle => by
      obtain ⟨n, rfl, -⟩ := exists_height hle
      rw [toJson, ofJsonWithin?_alternative]
      simp only [ofAlternative?, (Value.restores hbounded).decoded, Option.map_some]
  | .binary operator left right, hbounded, height, hle => by
      obtain ⟨n, rfl, hn⟩ := exists_height hle
      have hle : ∀ member ∈ [("left", left.toJson), ("operator", .string operator.name),
          ("right", right.toJson)], member.2.height ≤ n :=
        fun _ hmem => Nat.le_of_lt (height_member_lt hn hmem)
      have hleft := ofJsonWithin?_toJson left hbounded.1 (hle ("left", left.toJson) (by simp))
      have hright := ofJsonWithin?_toJson right hbounded.2 (hle ("right", right.toJson) (by simp))
      have hparts : parts? ["left", "operator", "right"] (.object
          [("left", left.toJson), ("operator", .string operator.name), ("right", right.toJson)]) =
          some [some left.toJson, some (.string operator.name), some right.toJson] :=
        parts?_object _ (by simp)
      rw [toJson, ofJsonWithin?_alternative]
      simp only [ofAlternative?, hparts, Option.bind_eq_bind, Option.bind_some, required, hleft,
        hright, Operator.ofJson?_name, Option.pure_def]
  | .between subject low high, hbounded, height, hle => by
      obtain ⟨n, rfl, -⟩ := exists_height hle
      obtain ⟨hsubject, hlow, hhigh⟩ := hbounded
      have hparts : parts? ["source", "min", "max"] (.object
          [("source", subject.toJson), ("min", low.toJson), ("max", high.toJson)]) =
          some [some subject.toJson, some low.toJson, some high.toJson] :=
        parts?_object _ (by simp)
      rw [toJson, ofJsonWithin?_alternative]
      simp only [ofAlternative?, hparts, Option.bind_eq_bind, Option.bind_some, required,
        (Path.restores hsubject).decoded, (Value.restores hlow).decoded,
        (Value.restores hhigh).decoded, Option.pure_def]
  | .within subject values all, hbounded, height, hle => by
      obtain ⟨n, rfl, -⟩ := exists_height hle
      obtain ⟨hsubject, hvalues⟩ := hbounded
      have hlist := restores_list fun v hv => (Value.restores (hvalues v hv)).decoded
      have hparts : parts? ["source", "values", "all"] (.object
          [("source", subject.toJson), ("values", .ofList Value.toJson values),
           ("all", .bool all)]) =
          some [some subject.toJson, some (.ofList Value.toJson values), some (.bool all)] :=
        parts?_object _ (by simp)
      rw [toJson, ofJsonWithin?_alternative]
      simp only [ofAlternative?, hparts, Option.bind_eq_bind, Option.bind_some, required, bool?,
        (Path.restores hsubject).decoded, hlist.decoded, Option.pure_def]
  | .call name arguments, hbounded, height, hle => by
      obtain ⟨n, rfl, hn⟩ := exists_height hle
      obtain ⟨hname, harguments⟩ := hbounded
      have harray : (Json.array (toJsonAll arguments)).height < n :=
        @height_member_lt _ ("arguments", .array (toJsonAll arguments)) _ hn (by simp)
      have hle : ∀ e ∈ arguments, e.toJson.height ≤ n := by
        intro e he
        refine Nat.le_of_lt (height_item_lt (Nat.le_of_lt harray) ?_)
        rw [toJsonAll_eq_map]
        exact List.mem_map_of_mem he
      have hlist := restores_list (ofJsonWithin?_toJsonAll arguments harguments hle)
      have hparts : parts? ["name", "span", "escaped", "arguments"]
          (callToJson name (toJsonAll arguments)) =
          some [some (.string name.text), some name.span.toJson, some (.bool name.quoted),
            some (.ofList toJson arguments)] := by
        rw [toJsonAll_eq_map]
        exact parts?_object _ (by simp)
      rw [toJson, ofJsonWithin?_alternative]
      simp only [ofAlternative?, hparts, Option.bind_eq_bind, Option.bind_some, required, string?,
        bool?, (Span.restores hname).decoded, hlist.decoded, Option.pure_def]
  | .truth, _, height, hle => by
      obtain ⟨n, rfl⟩ := Nat.exists_eq_add_one_of_ne_zero (Nat.ne_of_gt
        (Nat.lt_of_lt_of_le (height_pos _) hle))
      rfl

theorem ofJsonWithin?_toJsonAll : (es : List Expr) → AllBounded es → ∀ {height : Nat},
    (∀ e ∈ es, e.toJson.height ≤ height) →
    ∀ e ∈ es, ofJsonWithin? height e.toJson = some e
  | [], _, _, _ => fun _ hmem => by cases hmem
  | e :: es, hbounded, _, hle => by
      obtain ⟨hhead, hle⟩ := List.forall_mem_cons.mp hle
      exact List.forall_mem_cons.mpr
        ⟨ofJsonWithin?_toJson e hbounded.1 hhead, ofJsonWithin?_toJsonAll es hbounded.2 hle⟩

end

theorem restores {e : Expr} (h : e.IsBounded) : Restores toJson ofJson? e := by
  refine ⟨ofJsonWithin?_toJson e h (Nat.le_refl _), ?_⟩
  cases e <;> exact Json.noConfusion

end Expr

/-! ## Clauses -/

theorem Script.restores {script : Script} (h : script.span.IsBounded) :
    Restores toJson ofJson? script := by
  refine ⟨?_, Json.noConfusion⟩
  have hparts : parts? ["text", "span"] script.toJson =
      some [some (.string script.text), some script.span.toJson] := parts?_object _ (by simp)
  simp only [ofJson?, hparts, Option.bind_eq_bind, Option.bind_some, required, string?,
    (Span.restores h).decoded, Option.pure_def]

theorem Functions.restores {functions : Functions}
    (h : ∀ entry ∈ functions.entries, entry.2.span.IsBounded) :
    Restores toJson ofJson? functions := by
  refine ⟨?_, Json.noConfusion⟩
  have hentries : (functions.entries.map fun entry => (entry.1, entry.2.toJson)).mapM
      (fun member => do return (member.1, ← Script.ofJson? member.2)) =
      some (functions.entries.map id) := by
    rw [List.mapM_map]
    refine mapM_eq_some fun entry hentry => ?_
    simp only [Function.comp_apply, (Script.restores (h entry hentry)).decoded]
    rfl
  rw [toJson, ofJson?, hentries, List.map_id]
  exact congrArg some functions.ofList_entries

/-- All positions and lengths in the source are numbers of 64 bits. -/
structure Source.IsBounded (source : Source) : Prop where
  name : source.name.span.IsBounded
  filter : ∀ e ∈ source.filter, e.IsBounded

theorem Source.restores {source : Source} (h : source.IsBounded) :
    Restores toJson ofJson? source := by
  refine ⟨?_, Json.noConfusion⟩
  have hparts : parts? ["source", "alias", "filter", "is_index"] source.toJson =
      some [some source.name.toJson, some (.ofOption .string source.asName),
        some (.ofOption Expr.toJson source.filter), some (.bool source.isIndex)] :=
    parts?_object _ (by simp)
  have hname : optional string? (some (.ofOption .string source.asName)) = some source.asName :=
    restores_option fun s _ => restores_string s
  have hfilter := restores_option fun e he => Expr.restores (h.filter e he)
  simp only [ofJson?, hparts, Option.bind_eq_bind, Option.bind_some, required, bool?,
    (Path.restores h.name).decoded, hname, hfilter, Option.pure_def]

theorem SortType.ofJson?_name (sortType : SortType) :
    ofJson? (.string sortType.name) = some sortType := by
  cases sortType <;> rfl

theorem OrderTerm.restores {term : OrderTerm} (h : term.key.IsBounded) :
    Restores toJson ofJson? term := by
  refine ⟨?_, Json.noConfusion⟩
  have hparts : parts? ["expression", "ordering", "ascending"] term.toJson =
      some [some term.key.toJson, some (.string term.sortType.name), some (.bool term.ascending)] :=
    parts?_object _ (by simp)
  simp only [ofJson?, hparts, Option.bind_eq_bind, Option.bind_some, required, bool?,
    (Expr.restores h).decoded, SortType.ofJson?_name, Option.pure_def]

theorem Projection.restores {entry : Projection} (h : entry.body.IsBounded) :
    Restores toJson ofJson? entry := by
  refine ⟨?_, Json.noConfusion⟩
  have hparts : parts? ["expression", "alias"] entry.toJson =
      some [some entry.body.toJson, some (.ofOption .string entry.asName)] :=
    parts?_object _ (by simp)
  have hname : optional string? (some (.ofOption .string entry.asName)) = some entry.asName :=
    restores_option fun s _ => restores_string s
  simp only [ofJson?, hparts, Option.bind_eq_bind, Option.bind_some, required,
    (Expr.restores h).decoded, hname, Option.pure_def]

/-! ## Queries -/

namespace Query

/-- All positions and lengths in the query are numbers of 64 bits. -/
structure IsBounded (query : Query) : Prop where
  functions : ∀ entry ∈ query.functions.entries, entry.2.span.IsBounded
  source : query.source.IsBounded
  groupBy : ∀ paths ∈ query.groupBy, ∀ path ∈ paths, path.span.IsBounded
  filter : ∀ e ∈ query.filter, e.IsBounded
  orderBy : ∀ terms ∈ query.orderBy, ∀ term ∈ terms, term.key.IsBounded
  load : ∀ entries ∈ query.load, ∀ entry ∈ entries, entry.body.IsBounded
  select : ∀ entries ∈ query.select, ∀ entry ∈ entries, entry.body.IsBounded
  selectScript : ∀ script ∈ query.selectScript, script.span.IsBounded
  updateScript : ∀ script ∈ query.updateScript, script.span.IsBounded
  includes : ∀ es ∈ query.includes, ∀ e ∈ es, e.IsBounded

end Query

end DocQuery
