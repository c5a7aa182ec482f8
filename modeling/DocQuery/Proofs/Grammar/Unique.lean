import DocQuery.Proofs.Grammar.Written

/-!
# Names and values are read in one way

The alternatives of the grammar exclude each other.  So a path or a value at the
head of a text is the only one there, and it leaves one rest.
-/

namespace DocQuery

open Lexical

namespace Lexical

variable {α : Type} {rule : Rule α} {cs token token' rest rest' : List Char} {a a' : α}

theorem Takes.not_passes (h : Takes rule cs token a rest) : ¬Passes rule cs := by
  intro hpass
  have hsome := h.measured
  rw [← h.split, hpass] at hsome
  cases hsome

theorem Takes.unique (h : Takes rule cs token a rest) (h' : Takes rule cs token' a' rest') :
    token = token' ∧ a = a' ∧ rest = rest' := by
  have hsame := h.measured
  rw [← h.split, h'.split, h'.measured] at hsame
  simp only [Option.some.injEq, Prod.mk.injEq] at hsame
  have hsplit := h.split
  rw [h'.split] at hsplit
  obtain ⟨rfl, rfl⟩ := List.append_inj hsplit hsame.1
  exact ⟨rfl, hsame.2.symm, rfl⟩

end Lexical

namespace Written

variable {size : Nat} {cs rest rest' : List Char}

theorem Mark.unique {c : Char} (h : Mark c cs rest) (h' : Mark c cs rest') : rest = rest' :=
  (Takes.unique h h').2.2

theorem Word.unique {keyword : Keyword} (h : Word keyword cs rest) (h' : Word keyword cs rest') :
    rest = rest' := by
  obtain ⟨token, h⟩ := h
  obtain ⟨token', h'⟩ := h'
  exact (h.unique h').2.2

theorem Word.not_noWord {keyword : Keyword} (h : Word keyword cs rest) : ¬NoWord keyword cs := by
  obtain ⟨token, h⟩ := h
  exact h.not_passes

theorem Value.unique {v v' : DocQuery.Value} (h : Value size cs v rest)
    (h' : Value size cs v' rest') : v = v' ∧ rest = rest' := by
  cases h with
  | number h =>
      cases h' with
      | number h' =>
          obtain ⟨rfl, rfl, rfl⟩ := h.unique h'
          exact ⟨rfl, rfl⟩
      | quoted hno _ => exact absurd hno h.not_passes
      | literal hno _ _ => exact absurd hno h.not_passes
      | parameter hno _ _ _ _ => exact absurd hno h.not_passes
  | quoted hno h =>
      cases h' with
      | number h' => exact absurd hno h'.not_passes
      | quoted _ h' =>
          obtain ⟨rfl, rfl, rfl⟩ := h.unique h'
          exact ⟨rfl, rfl⟩
      | literal _ hno _ => exact absurd hno h.not_passes
      | parameter _ hno _ _ _ => exact absurd hno h.not_passes
  | literal hno hno' h =>
      cases h' with
      | number h' => exact absurd hno h'.not_passes
      | quoted _ h' => exact absurd hno' h'.not_passes
      | literal _ _ h' =>
          obtain ⟨rfl, rfl, rfl⟩ := h.unique h'
          exact ⟨rfl, rfl⟩
      | parameter _ _ hno _ _ => exact absurd hno h.not_passes
  | parameter hno hno' hno'' hmark h =>
      cases h' with
      | number h' => exact absurd hno h'.not_passes
      | quoted _ h' => exact absurd hno' h'.not_passes
      | literal _ _ h' => exact absurd hno'' h'.not_passes
      | parameter _ _ _ hmark' h' =>
          have hsame := hmark.unique hmark'
          rw [← hsame] at h'
          obtain ⟨rfl, -, rfl⟩ := h.unique h'
          exact ⟨rfl, rfl⟩

theorem NoValue.not_value {v : DocQuery.Value} (h : NoValue cs) : ¬Value size cs v rest := by
  intro hvalue
  cases hvalue with
  | number htake => exact htake.not_passes h.number
  | quoted _ htake => exact htake.not_passes h.quoted
  | literal _ _ htake => exact htake.not_passes h.literal
  | parameter _ _ _ hmark _ => exact Takes.not_passes hmark h.dollar

theorem Segment.unique {beginning quoted quoted' : Bool} {token token' : List Char}
    {text text' : String} (h : Segment beginning cs token text quoted rest)
    (h' : Segment beginning cs token' text' quoted' rest') :
    token = token' ∧ text = text' ∧ quoted = quoted' ∧ rest = rest' := by
  cases h with
  | name h =>
      cases h' with
      | name h' =>
          obtain ⟨rfl, -, rfl⟩ := h.unique h'
          exact ⟨rfl, rfl, rfl, rfl⟩
      | quoted hno _ => exact absurd hno h.not_passes
  | quoted hno h =>
      cases h' with
      | name h' => exact absurd hno h'.not_passes
      | quoted _ h' =>
          obtain ⟨rfl, -, rfl⟩ := h.unique h'
          exact ⟨rfl, rfl, rfl, rfl⟩

theorem Segment.not_noSegment {beginning quoted : Bool} {token : List Char} {text : String}
    (h : Segment beginning cs token text quoted rest) : ¬NoSegment beginning cs := by
  intro hno
  cases h with
  | name htake => exact htake.not_passes hno.name
  | quoted _ htake => exact htake.not_passes hno.quoted

theorem Index.unique {text text' : String} (h : Index cs text rest) (h' : Index cs text' rest') :
    text = text' ∧ rest = rest' := by
  cases h with
  | absent hno =>
      cases h' with
      | absent _ => exact ⟨rfl, rfl⟩
      | empty h' _ _ => exact absurd hno (Takes.not_passes h')
      | number h' _ _ _ => exact absurd hno (Takes.not_passes h')
  | empty hopen hno hclose =>
      cases h' with
      | absent hno => exact absurd hno (Takes.not_passes hopen)
      | empty hopen' _ hclose' =>
          cases hopen.unique hopen'
          exact ⟨rfl, hclose.unique hclose'⟩
      | number hopen' htake' _ _ =>
          cases hopen.unique hopen'
          exact absurd hno htake'.not_passes
  | number hopen htake _ hclose =>
      cases h' with
      | absent hno => exact absurd hno (Takes.not_passes hopen)
      | empty hopen' hno _ =>
          cases hopen.unique hopen'
          exact absurd hno htake.not_passes
      | number hopen' htake' _ hclose' =>
          cases hopen.unique hopen'
          obtain ⟨rfl, -, rfl⟩ := htake.unique htake'
          exact ⟨rfl, hclose.unique hclose'⟩

theorem Tail.unique {text text' : String} {quoted quoted' : Bool} {rest' : List Char}
    (h : Tail cs text quoted rest) (h' : Tail cs text' quoted' rest') :
    text = text' ∧ quoted = quoted' ∧ rest = rest' := by
  induction h generalizing text' quoted' with
  | last hindex hno =>
      cases h' with
      | last hindex' _ =>
          obtain ⟨rfl, rfl⟩ := hindex.unique hindex'
          exact ⟨rfl, rfl, rfl⟩
      | more hindex' hdot _ _ =>
          obtain ⟨rfl, rfl⟩ := hindex.unique hindex'
          exact absurd hno (Takes.not_passes hdot)
  | more hindex hdot hsegment _ ih =>
      cases h' with
      | last hindex' hno =>
          obtain ⟨rfl, rfl⟩ := hindex.unique hindex'
          exact absurd hno (Takes.not_passes hdot)
      | more hindex' hdot' hsegment' htail' =>
          obtain ⟨rfl, rfl⟩ := hindex.unique hindex'
          cases hdot.unique hdot'
          obtain ⟨rfl, rfl, rfl, rfl⟩ := hsegment.unique hsegment'
          obtain ⟨rfl, rfl, rfl⟩ := ih htail'
          exact ⟨rfl, rfl, rfl⟩

theorem Tail.not_noTail {text : String} {quoted : Bool} (h : Tail cs text quoted rest) :
    ¬NoTail cs := by
  induction h with
  | last hindex hno =>
      intro hbroken
      cases hbroken with
      | «open» hindex' hdot _ =>
          obtain ⟨rfl, rfl⟩ := hindex.unique hindex'
          exact Takes.not_passes hdot hno
      | more hindex' hdot _ _ =>
          obtain ⟨rfl, rfl⟩ := hindex.unique hindex'
          exact Takes.not_passes hdot hno
  | more hindex hdot hsegment _ ih =>
      intro hbroken
      cases hbroken with
      | «open» hindex' hdot' hno =>
          obtain ⟨rfl, rfl⟩ := hindex.unique hindex'
          cases hdot.unique hdot'
          exact hsegment.not_noSegment hno
      | more hindex' hdot' hsegment' hbroken =>
          obtain ⟨rfl, rfl⟩ := hindex.unique hindex'
          cases hdot.unique hdot'
          obtain ⟨rfl, rfl, rfl, rfl⟩ := hsegment.unique hsegment'
          exact ih hbroken

theorem Path.unique {p p' : DocQuery.Path} (h : Path size cs p rest) (h' : Path size cs p' rest') :
    p = p' ∧ rest = rest' := by
  cases h with
  | mk hsegment _ htail =>
      cases h' with
      | mk hsegment' _ htail' =>
          obtain ⟨rfl, rfl, rfl, rfl⟩ := hsegment.unique hsegment'
          obtain ⟨rfl, rfl, rfl⟩ := htail.unique htail'
          exact ⟨rfl, rfl⟩

theorem NoPath.not_path {p : DocQuery.Path} (h : NoPath cs rest) : ¬Path size cs p rest' := by
  intro hpath
  cases hpath with
  | mk hsegment hallowed htail =>
      cases h with
      | blank hno => exact hsegment.not_noSegment hno
      | reserved htake hreserved =>
          obtain ⟨rfl, rfl, rfl, -⟩ := hsegment.unique (.name htake)
          simp [hreserved] at hallowed
      | broken hsegment' _ hbroken =>
          obtain ⟨rfl, rfl, rfl, rfl⟩ := hsegment.unique hsegment'
          exact htail.not_noTail hbroken

end Written

end DocQuery
