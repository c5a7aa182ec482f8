import DocQuery.Span

/-!
# Declared functions

A script is kept word for word.  The functions that a query declares are kept
in the order of their names, each name once, so that the order in which they
were declared can not be told from the result.
-/

namespace DocQuery

/-- The text of a script and its position. -/
structure Script where
  text : String
  span : Span
  deriving DecidableEq, Inhabited, Repr

namespace Script

/-- A script without a position. -/
def plain (text : String) : Script := ⟨text, .zero⟩

/-- The scripts have the same text. -/
def same (s t : Script) : Bool := s.text == t.text

instance : BEq Script := ⟨same⟩

end Script

/-- Scripts by name, in the order of the names. -/
structure Functions where
  entries : List (String × Script)
  sorted : entries.Pairwise fun a b => a.1 < b.1

namespace Functions

/-- No function at all. -/
def empty : Functions := ⟨[], .nil⟩

instance : Inhabited Functions := ⟨empty⟩

/-- Put an entry in its place in a list, where it replaces one of the same name. -/
def insertEntry (name : String) (script : Script) :
    List (String × Script) → List (String × Script)
  | [] => [(name, script)]
  | (other, kept) :: entries =>
      if name < other then (name, script) :: (other, kept) :: entries
      else if name = other then (name, script) :: entries
      else (other, kept) :: insertEntry name script entries

/-- The names after an insertion are the name put in and those from before. -/
theorem name_of_mem_insertEntry {name : String} {script : Script}
    {entries : List (String × Script)} {entry : String × Script}
    (hmem : entry ∈ insertEntry name script entries) :
    entry.1 = name ∨ entry ∈ entries := by
  induction entries with
  | nil => simp_all [insertEntry]
  | cons head entries ih =>
      obtain ⟨other, kept⟩ := head
      simp only [insertEntry] at hmem
      split at hmem
      · rcases List.mem_cons.mp hmem with rfl | hmem
        · exact .inl rfl
        · exact .inr hmem
      · split at hmem
        · rcases List.mem_cons.mp hmem with rfl | hmem
          · exact .inl rfl
          · exact .inr (List.mem_cons_of_mem _ hmem)
        · rcases List.mem_cons.mp hmem with rfl | hmem
          · exact .inr List.mem_cons_self
          · exact (ih hmem).imp id (List.mem_cons_of_mem _)

/-- An insertion keeps the order of the names. -/
theorem sorted_insertEntry (name : String) (script : Script)
    {entries : List (String × Script)} (hsorted : entries.Pairwise fun a b => a.1 < b.1) :
    (insertEntry name script entries).Pairwise fun a b => a.1 < b.1 := by
  induction entries with
  | nil => simp [insertEntry]
  | cons head entries ih =>
      obtain ⟨other, kept⟩ := head
      obtain ⟨hhead, htail⟩ := List.pairwise_cons.mp hsorted
      simp only [insertEntry]
      split
      · next hlt =>
          refine List.pairwise_cons.mpr ⟨?_, hsorted⟩
          intro entry hmem
          rcases List.mem_cons.mp hmem with rfl | hmem
          · exact hlt
          · exact String.lt_trans hlt (hhead entry hmem)
      · next hle =>
          split
          · next heq =>
              subst heq
              exact List.pairwise_cons.mpr ⟨hhead, htail⟩
          · next hne =>
              refine List.pairwise_cons.mpr ⟨?_, ih htail⟩
              intro entry hmem
              rcases name_of_mem_insertEntry hmem with heq | hmem
              · rw [heq]
                exact Std.lt_of_le_of_ne (String.not_lt.mp hle) (Ne.symm hne)
              · exact hhead entry hmem

/-- Declare a function, in place of one with the same name. -/
def insert (name : String) (script : Script) (functions : Functions) : Functions :=
  ⟨insertEntry name script functions.entries, sorted_insertEntry name script functions.sorted⟩

/-- The functions of a list, where a later entry replaces an earlier one of the same name. -/
def ofList (entries : List (String × Script)) : Functions :=
  entries.foldl (fun functions entry => functions.insert entry.1 entry.2) empty

/-- A name after all the others is put at the end. -/
theorem insertEntry_of_forall_lt (name : String) (script : Script)
    {entries : List (String × Script)} (hlt : ∀ entry ∈ entries, entry.1 < name) :
    insertEntry name script entries = entries ++ [(name, script)] := by
  induction entries with
  | nil => rfl
  | cons head entries ih =>
      obtain ⟨other, kept⟩ := head
      obtain ⟨hhead, hrest⟩ := List.forall_mem_cons.mp hlt
      have hnot : ¬ name < other := fun h => Std.lt_irrefl (String.lt_trans h hhead)
      have hne : name ≠ other := fun h => Std.lt_irrefl (h ▸ hhead)
      rw [insertEntry, if_neg hnot, if_neg hne, ih hrest, List.cons_append]

/-- Functions are those of their entries. -/
theorem ofList_entries (functions : Functions) : ofList functions.entries = functions := by
  have hfold : ∀ (entries : List (String × Script)) (kept : Functions),
      ((kept.entries ++ entries).Pairwise fun a b => a.1 < b.1) →
      (entries.foldl (fun functions entry => functions.insert entry.1 entry.2) kept).entries =
        kept.entries ++ entries := by
    intro entries
    induction entries with
    | nil => intro kept _; rw [List.foldl_nil, List.append_nil]
    | cons entry entries ih =>
        intro kept hsorted
        have hinsert : (kept.insert entry.1 entry.2).entries = kept.entries ++ [entry] :=
          insertEntry_of_forall_lt entry.1 entry.2 fun other hmem =>
            (List.pairwise_append.mp hsorted).2.2 other hmem entry List.mem_cons_self
        rw [List.foldl_cons, ih, hinsert, List.append_assoc, List.singleton_append]
        rwa [hinsert, List.append_assoc, List.singleton_append]
  have hentries := hfold functions.entries empty functions.sorted
  obtain ⟨entries, hsorted⟩ := functions
  exact Functions.mk.injEq .. ▸ hentries

/-- A function of that name is declared. -/
def contains (name : String) (functions : Functions) : Bool :=
  functions.entries.any fun entry => entry.1 == name

/-- The same functions with their scripts changed, name by name. -/
def map (f : String → Script → Script) (functions : Functions) : Functions :=
  ⟨functions.entries.map fun entry => (entry.1, f entry.1 entry.2),
   List.pairwise_map.mpr functions.sorted⟩

instance : BEq Functions := ⟨fun f g => f.entries == g.entries⟩

end Functions

end DocQuery
