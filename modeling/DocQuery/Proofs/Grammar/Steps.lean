import DocQuery.Proofs.Grammar.Written
import DocQuery.Proofs.Lexical.Phrase
import DocQuery.Proofs.Lexical.Quoted

/-!
# Single steps of a reader

A reader that stands before some characters takes its next step by what they
are.  Each step of the scanner is described twice: what it does where a rule
takes a token or passes, and what can be concluded from what it did.
-/

namespace DocQuery

open Lexical

theorem Text.utf8ByteSize_eq (text : String) : text.utf8ByteSize = byteLength text.toList := by
  have hlist : ∀ cs : List Char, (String.ofList cs).utf8ByteSize = byteLength cs := by
    intro cs
    induction cs with
    | nil => rfl
    | cons c cs ih =>
        rw [String.ofList_cons, String.utf8ByteSize_append, ih, String.utf8ByteSize_singleton,
          byteLength_cons]
  simpa using hlist text.toList

theorem Text.length_le_byteLength (cs : List Char) : cs.length ≤ byteLength cs := by
  induction cs with
  | nil => exact Nat.le_refl _
  | cons c cs ih =>
      have hpos := Char.utf8Size_pos c
      rw [List.length_cons, byteLength_cons]
      omega

@[simp]
theorem Text.takeBytes?_append (cs ds : List Char) :
    takeBytes? (byteLength cs) (cs ++ ds) = some cs := by
  induction cs with
  | nil => simp [takeBytes?]
  | cons c cs ih =>
      have hpos := Char.utf8Size_pos c
      obtain ⟨n, hn⟩ : ∃ n, c.utf8Size + byteLength cs = n + 1 :=
        ⟨c.utf8Size + byteLength cs - 1, by omega⟩
      have hrest : n + 1 - c.utf8Size = byteLength cs := by omega
      rw [byteLength_cons, hn, List.cons_append, takeBytes?, if_pos (by omega), hrest, ih]
      rfl

namespace Grammar

/-! ## Where a reader stands -/

/-- The reader stands in a text of so many bytes before these characters. -/
structure Stands (size : Nat) (cs : List Char) (s : State) : Prop where
  ahead : s.scanner.ahead = some cs
  size_eq : Text.byteLength s.scanner.text.toList = size

/-- The reader went on in the same text to where the rest is ahead. -/
structure Onward (s : State) (rest : List Char) (s' : State) : Prop where
  text : s'.scanner.text = s.scanner.text
  ahead : s'.scanner.ahead = some rest

/-- The reader went on, is as deep as before, and met some connectives. -/
structure Moves (s : State) (rest : List Char) (links : Nat) (s' : State) : Prop
    extends Onward s rest s' where
  depth : s'.depth = s.depth
  connectives : s'.connectives = s.connectives + links

/-- The reader went over the trivia and one token. -/
structure Took (size : Nat) (s : State) (token rest : List Char) (s' : State) : Prop
    extends Moves s rest 0 s' where
  token : s'.scanner.token = tokenAt size token rest

theorem Stands.offset {size : Nat} {cs : List Char} {s : State} (h : Stands size cs s) :
    s.scanner.offset = place size cs := by
  have hcut := s.scanner.ahead_eq
  rw [h.ahead] at hcut
  obtain ⟨before, htext, hlen⟩ := Text.dropBytes?_eq_some_iff.mp hcut.symm
  have hsize := h.size_eq
  rw [htext, Text.byteLength_append] at hsize
  rw [place]
  omega

theorem Stands.byteLength_le {size : Nat} {cs : List Char} {s : State} (h : Stands size cs s) :
    Text.byteLength cs ≤ size := by
  have hcut := s.scanner.ahead_eq
  rw [h.ahead] at hcut
  obtain ⟨before, htext, hlen⟩ := Text.dropBytes?_eq_some_iff.mp hcut.symm
  have hsize := h.size_eq
  rw [htext, Text.byteLength_append] at hsize
  omega

/-- A reader at the beginning of a text. -/
theorem stands_ofText (text : String) :
    Stands (Text.byteLength text.toList) text.toList ⟨.ofText text, 0, 0⟩ :=
  ⟨rfl, rfl⟩

theorem Onward.stands {size : Nat} {cs rest : List Char} {s s' : State} (h : Onward s rest s')
    (hs : Stands size cs s) : Stands size rest s' :=
  ⟨h.ahead, by rw [h.text, hs.size_eq]⟩

theorem Onward.trans {r rest : List Char} {s s₁ s₂ : State}
    (h₁ : Onward s r s₁) (h₂ : Onward s₁ rest s₂) : Onward s rest s₂ :=
  ⟨h₂.text.trans h₁.text, h₂.ahead⟩

theorem Moves.refl {size : Nat} {cs : List Char} {s : State} (hs : Stands size cs s) :
    Moves s cs 0 s :=
  ⟨⟨rfl, hs.ahead⟩, rfl, rfl⟩

theorem Moves.trans {r rest : List Char} {m n : Nat} {s s₁ s₂ : State}
    (h₁ : Moves s r m s₁) (h₂ : Moves s₁ rest n s₂) : Moves s rest (m + n) s₂ :=
  ⟨h₁.toOnward.trans h₂.toOnward, h₂.depth.trans h₁.depth, by
    rw [h₂.connectives, h₁.connectives, Nat.add_assoc]⟩

/-- Steps behind some without a connective. -/
theorem Moves.next {r rest : List Char} {n : Nat} {s s₁ s₂ : State}
    (h₁ : Moves s r 0 s₁) (h₂ : Moves s₁ rest n s₂) : Moves s rest n s₂ := by
  have hall := h₁.trans h₂
  rwa [Nat.zero_add] at hall

/-! ## Sequences of readers -/

section Sequences

variable {α β : Type} {s s' s₁ : State}

theorem bind_eq_ok {x : Read α} {f : α → Read β} {b : β} (h : (x >>= f) s = .ok b s') :
    ∃ a s₁, x s = .ok a s₁ ∧ f a s₁ = .ok b s' := by
  simp only [bind, EStateM.bind] at h
  split at h
  · exact ⟨_, _, ‹_›, h⟩
  · cases h

theorem bind_of_ok {x : Read α} {a : α} (f : α → Read β) (h : x s = .ok a s₁) :
    (x >>= f) s = f a s₁ := by
  simp only [bind, EStateM.bind, h]

theorem bind_of_error {x : Read α} {e : Failure} (f : α → Read β) (h : x s = .error e s₁) :
    (x >>= f) s = .error e s₁ := by
  simp only [bind, EStateM.bind, h]

theorem pure_eq_ok {a b : α} (h : (pure a : Read α) s = .ok b s') : a = b ∧ s = s' := by
  simp only [pure, EStateM.pure] at h
  cases h
  exact ⟨rfl, rfl⟩

theorem throw_ne_ok {e : Failure} {a : α} (h : (throw e : Read α) s = .ok a s') : False := by
  have hresult : EStateM.Result.error e s = EStateM.Result.ok a s' := h
  cases hresult

@[simp]
theorem position_eq (s : State) : position s = .ok s.scanner.offset s := rfl

@[simp]
theorem token_eq (s : State) : token s = .ok s.scanner.token s := rfl

@[simp]
theorem get_eq (s : State) : (get : Read State) s = .ok s s := rfl

end Sequences

/-! ## Refusals -/

section Refusals

variable {α : Type} {s s' : State}

theorem refuse_ne_ok {e : Expectation} {a : α} (h : refuse e s = .ok a s') : False := by
  obtain ⟨cursor, s₀, -, h⟩ := bind_eq_ok h
  obtain ⟨found, s₁, -, h⟩ := bind_eq_ok h
  obtain ⟨state, s₂, -, h⟩ := bind_eq_ok h
  exact throw_ne_ok h

theorem decline_ne_ok {cause : Refusal} {a : α} (h : decline cause s = .ok a s') : False := by
  obtain ⟨state, s₁, -, h⟩ := bind_eq_ok h
  exact throw_ne_ok h

theorem require_eq_ok {e : Expectation} {part : Read (Option α)} {a : α}
    (h : require e part s = .ok a s') : part s = .ok (some a) s' := by
  obtain ⟨found, s₁, hpart, h⟩ := bind_eq_ok h
  cases found with
  | none => exact (refuse_ne_ok h).elim
  | some a' =>
      obtain ⟨rfl, rfl⟩ := pure_eq_ok h
      exact hpart

theorem require_of_ok {e : Expectation} {part : Read (Option α)} {a : α}
    (h : part s = .ok (some a) s') : require e part s = .ok a s' :=
  bind_of_ok _ h

end Refusals

/-! ## Limits -/

section Limits

variable {s s' : State} (limits : Limits)

theorem enter_eq (s : State) : enter limits s =
    if limits.maxDepth < s.depth + 1 then
      .error (.rejected (.refused (.tooDeep limits.maxDepth) s.scanner.location))
        { s with depth := s.depth + 1 }
    else .ok () { s with depth := s.depth + 1 } := by
  have hstep : enter limits s =
      (if limits.maxDepth < s.depth + 1 then decline (.tooDeep limits.maxDepth) else pure ())
        { s with depth := s.depth + 1 } := rfl
  rw [hstep]
  split <;> rfl

theorem countConnective_eq (s : State) : countConnective limits s =
    if limits.maxConnectives < s.connectives + 1 then
      .error (.rejected
          (.refused (.tooManyConnectives limits.maxConnectives) s.scanner.location))
        { s with connectives := s.connectives + 1 }
    else .ok () { s with connectives := s.connectives + 1 } := by
  have hstep : countConnective limits s =
      (if limits.maxConnectives < s.connectives + 1 then
        decline (.tooManyConnectives limits.maxConnectives) else pure ())
        { s with connectives := s.connectives + 1 } := rfl
  rw [hstep]
  split <;> rfl

theorem leave_of_depth {depth : Nat} (h : s.depth = depth + 1) :
    leave s = .ok () { s with depth := depth } := by
  unfold leave
  rw [bind_of_ok _ (get_eq s), h]
  rfl

variable {limits}

theorem enter_eq_ok {u : Unit} (h : enter limits s = .ok u s') :
    { s with depth := s.depth + 1 } = s' := by
  rw [enter_eq] at h
  split at h
  · cases h
  · cases h
    rfl

theorem countConnective_eq_ok {u : Unit} (h : countConnective limits s = .ok u s') :
    { s with connectives := s.connectives + 1 } = s' := by
  rw [countConnective_eq] at h
  split at h
  · cases h
  · cases h
    rfl

theorem leave_eq_ok {u : Unit} (h : leave s = .ok u s') :
    ∃ depth, s.depth = depth + 1 ∧ { s with depth := depth } = s' := by
  cases hdepth : s.depth with
  | zero =>
      simp only [leave] at h
      obtain ⟨state, s₁, hstate, hthrow⟩ := bind_eq_ok h
      cases hstate
      rw [hdepth] at hthrow
      exact (throw_ne_ok hthrow).elim
  | succ depth =>
      rw [leave_of_depth hdepth] at h
      cases h
      exact ⟨depth, rfl, rfl⟩

end Limits

/-! ## Steps of the scanner -/

section Scans

variable {α : Type} {size : Nat} {cs : List Char} {s s' : State}

theorem scan_of_ok {step : Scan α} {a : α} {scanner : Scanner}
    (h : step s.scanner = .ok (a, scanner)) : scan step s = .ok a { s with scanner := scanner } := by
  simp only [scan, h]

theorem measure_eq (rule : Rule α) (hs : Stands size cs s) :
    Scanner.measure rule s.scanner = .ok (match rule (Trivia.rest cs) with
      | none => (none, s.scanner)
      | some (n, a) => (some a, s.scanner.accept (Trivia.length cs) n)) :=
  Scanner.measure_of_ahead rule hs.ahead

/-- The state behind a token that a rule took. -/
theorem took_accept {rule : Rule α} {token rest : List Char} {a : α} (hs : Stands size cs s)
    (h : Takes rule cs token a rest) :
    Took size s token rest
      { s with scanner := s.scanner.accept (Trivia.length cs) token.length } := by
  have hgap : Trivia.length cs = (Trivia.skipped cs).length := (Trivia.length_skipped cs).symm
  have hahead : s.scanner.ahead = some (Trivia.skipped cs ++ token ++ rest) := by
    rw [hs.ahead, List.append_assoc, ← h.split, Trivia.skipped_append_rest]
  have hlength : Text.byteLength cs =
      Text.byteLength (Trivia.skipped cs) + Text.byteLength (token ++ rest) := by
    rw [← Text.byteLength_append, ← h.split, Trivia.skipped_append_rest]
  have hle := hs.byteLength_le
  refine ⟨⟨⟨rfl, ?_⟩, rfl, rfl⟩, ?_⟩
  · rw [hgap]
    exact Scanner.ahead_accept hahead
  · simp only [hgap]
    rw [Scanner.token_accept hahead, hs.offset, tokenAt, place, place]
    congr 1
    omega

theorem scan_takes {rule : Rule α} {token rest : List Char} {a : α} (hs : Stands size cs s)
    (h : Takes rule cs token a rest) :
    ∃ s', scan (Scanner.measure rule) s = .ok (some a) s' ∧ Took size s token rest s' := by
  refine ⟨_, scan_of_ok ?_, took_accept hs h⟩
  rw [measure_eq rule hs, h.split, h.measured]

theorem scan_passes {rule : Rule α} (hs : Stands size cs s) (h : Passes rule cs) :
    scan (Scanner.measure rule) s = .ok none s := by
  refine scan_of_ok ?_
  rw [measure_eq rule hs, h]

/-- What a measuring step tells about the text: the rule took a token, or it passed. -/
theorem scan_measure_eq_ok {rule : Rule α} (hrule : rule.Sized) {found : Option α}
    (hs : Stands size cs s) (h : scan (Scanner.measure rule) s = .ok found s') :
    (found = none ∧ Passes rule cs ∧ s = s') ∨
      ∃ a token rest, found = some a ∧ Takes rule cs token a rest ∧ Took size s token rest s' := by
  cases hmeasured : rule (Trivia.rest cs) with
  | none =>
      rw [scan_passes hs hmeasured] at h
      cases h
      exact Or.inl ⟨rfl, hmeasured, rfl⟩
  | some measured =>
      obtain ⟨n, a⟩ := measured
      have hlength : ((Trivia.rest cs).take n).length = n :=
        List.length_take_of_le (hrule.le hmeasured)
      have htakes : Takes rule cs ((Trivia.rest cs).take n) a ((Trivia.rest cs).drop n) :=
        ⟨(List.take_append_drop _ _).symm, by rw [List.take_append_drop, hmeasured, hlength]⟩
      obtain ⟨s₁, hscan, htook⟩ := scan_takes hs htakes
      rw [hscan] at h
      cases h
      exact Or.inr ⟨a, _, _, rfl, htakes, htook⟩

/-! ## Steps that only recognise -/

theorem recognise_eq (measure : List Char → Option Nat) (s : State) :
    scan (Scanner.recognise measure) s =
      (do return (← scan (Scanner.measure (Rule.ofLength measure))).isSome) s := by
  have hstep : Scanner.recognise measure s.scanner =
      (Scanner.measure (Rule.ofLength measure) s.scanner).map
        fun result => (result.1.isSome, result.2) := by
    unfold Scanner.recognise Rule.ofLength
    cases Scanner.measure (fun cs => (measure cs).map (·, ())) s.scanner <;> rfl
  simp only [bind, EStateM.bind, scan, hstep]
  cases Scanner.measure (Rule.ofLength measure) s.scanner <;> rfl

theorem recognise_takes {measure : List Char → Option Nat} {token rest : List Char}
    (hs : Stands size cs s) (h : Takes (Rule.ofLength measure) cs token () rest) :
    ∃ s', scan (Scanner.recognise measure) s = .ok true s' ∧ Took size s token rest s' := by
  obtain ⟨s₁, hscan, htook⟩ := scan_takes hs h
  exact ⟨s₁, by rw [recognise_eq, bind_of_ok _ hscan]; rfl, htook⟩

theorem recognise_passes {measure : List Char → Option Nat} (hs : Stands size cs s)
    (h : Passes (Rule.ofLength measure) cs) :
    scan (Scanner.recognise measure) s = .ok false s := by
  rw [recognise_eq, bind_of_ok _ (scan_passes hs h)]
  rfl

theorem recognise_eq_ok {measure : List Char → Option Nat}
    (hrule : (Rule.ofLength measure).Sized) {found : Bool} (hs : Stands size cs s)
    (h : scan (Scanner.recognise measure) s = .ok found s') :
    (found = false ∧ Passes (Rule.ofLength measure) cs ∧ s = s') ∨
      ∃ token rest, found = true ∧ Takes (Rule.ofLength measure) cs token () rest ∧
        Took size s token rest s' := by
  rw [recognise_eq] at h
  obtain ⟨inner, s₁, hscan, h⟩ := bind_eq_ok h
  obtain ⟨rfl, rfl⟩ := pure_eq_ok h
  rcases scan_measure_eq_ok hrule hs hscan with ⟨rfl, hpass, rfl⟩ | ⟨a, token, rest, rfl, htake, htook⟩
  · exact Or.inl ⟨rfl, hpass, rfl⟩
  · exact Or.inr ⟨token, rest, rfl, htake, htook⟩

end Scans

end Grammar

end DocQuery
