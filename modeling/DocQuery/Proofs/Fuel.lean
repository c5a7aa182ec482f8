import DocQuery.Proofs.Faults
import DocQuery.Proofs.Grammar.Extends

/-!
# How much fuel a text takes

One unit of fuel is spent on every nested reader and on every further item of a
list, so the fuel of a run bounds both along any path.  With four units for each
byte of the text and six more a run never stops for want of fuel, whatever the
limits are, and any further fuel is left over.  Every part that a reader finds
takes at least one byte, also where a reader puts its cursor back.  The main
statement is `Query.parse_terminates`.
-/

namespace DocQuery

open Lexical Written

namespace Grammar

/-! ## Fuel that is left over -/

/-- More fuel changes a run only where it stopped for want of fuel. -/
theorem Extends.eq_of_fuel {α : Type} {x y : Read α} (h : Extends x y) (s : State)
    (hfuel : ∀ s', x s ≠ .error .outOfFuel s') : x s = y s := by
  induction h generalizing s with
  | step _ => rfl
  | @bind α β x y f g _ _ ihx ihf =>
      have hfirst : x s = y s := by
        refine ihx s fun s₁ hstopped => hfuel s₁ ?_
        exact bind_of_error f hstopped
      cases hresult : x s with
      | error failure s₁ =>
          rw [bind_of_error f hresult, bind_of_error g (hfirst ▸ hresult)]
      | ok a s₁ =>
          rw [bind_of_ok f hresult] at hfuel ⊢
          rw [bind_of_ok g (hfirst ▸ hresult)]
          exact ihf a s₁ hfuel
  | outOfFuel _ => exact absurd rfl (hfuel s)

theorem Orderly.ne_outOfFuel {α : Type} {size : Nat} {result : EStateM.Result Failure State α}
    (h : Orderly size result) (s : State) : result ≠ .error .outOfFuel s := by
  rintro rfl
  cases h

/-- Two runs with enough fuel are the same run. -/
theorem query_eq_of_le (limits : Limits) (kind : QueryKind) {s : State} {cs : List Char}
    (hahead : s.scanner.ahead = some cs) {n n' : Nat} (hfuel : 4 * cs.length + 6 ≤ n)
    (hle : n ≤ n') : query limits kind n s = query limits kind n' s := by
  have hs : Stands (Text.byteLength s.scanner.text.toList) cs s := ⟨hahead, rfl⟩
  exact (extends_query limits kind hle).eq_of_fuel s
    ((suffices_query limits kind).orderly hs hfuel).ne_outOfFuel

/-! ## Cursors that go on -/

variable {size : Nat} {cs rest : List Char} {s s' : State}

/-- With fewer characters ahead in the same text, a reader stands behind where it stood. -/
theorem Onward.offset_lt (h : Onward s rest s') (hs : Stands size cs s)
    (hlt : rest.length < cs.length) : s.scanner.offset < s'.scanner.offset := by
  have hs' := h.stands hs
  obtain ⟨before, hbefore, hoffset⟩ := Text.dropBytes?_eq_some_iff.mp
    (s.scanner.ahead_eq.symm.trans hs.ahead)
  obtain ⟨before', hbefore', hoffset'⟩ := Text.dropBytes?_eq_some_iff.mp
    (s'.scanner.ahead_eq.symm.trans hs'.ahead)
  rw [h.text, hbefore] at hbefore'
  rcases List.append_eq_append_iff.mp hbefore' with ⟨taken, rfl, rfl⟩ | ⟨taken, -, rfl⟩
  · have hne : taken ≠ [] := by
      rintro rfl
      exact Nat.lt_irrefl _ hlt
    have hpos := Nat.pos_of_ne_zero fun hzero => hne (Text.byteLength_eq_zero_iff.mp hzero)
    rw [Text.byteLength_append] at hoffset'
    omega
  · rw [List.length_append] at hlt
    omega

/-- Whatever part a reader finds, it ends up behind where it started. -/
structure Advances (limits : Limits) (fuel : Nat) (s : State) : Prop where
  value : ∀ {v : DocQuery.Value} {s' : State}, value s = .ok (some v) s' →
    s.scanner.offset < s'.scanner.offset
  path : ∀ {p : DocQuery.Path} {s' : State}, path fuel s = .ok (some p) s' →
    s.scanner.offset < s'.scanner.offset
  condition : ∀ {e : Expr} {s' : State}, condition limits fuel s = .ok (some e) s' →
    s.scanner.offset < s'.scanner.offset
  arguments : ∀ {arguments : List Expr} {s' : State},
    argumentList limits fuel s = .ok arguments s' → s.scanner.offset < s'.scanner.offset
  declaration : ∀ {entry : String × DocQuery.Script} {s' : State},
    declaration limits fuel s = .ok entry s' → s.scanner.offset < s'.scanner.offset

/-- The parts of the grammar take characters, so their readers go on. -/
theorem advances (limits : Limits) (fuel : Nat) (hahead : s.scanner.ahead = some cs) :
    Advances limits fuel s := by
  have hs : Stands (Text.byteLength s.scanner.text.toList) cs s := ⟨hahead, rfl⟩
  refine ⟨fun {v s'} h => ?_, fun {p s'} h => ?_, fun {e s'} h => ?_, fun {arguments s'} h => ?_,
    fun {entry s'} h => ?_⟩
  · rcases value_sound hs h with ⟨hnone, -⟩ | ⟨v, rest, -, hvalue, hmoves⟩
    · cases hnone
    · exact hmoves.offset_lt hs hvalue.length_lt
  · rcases path_sound hs h with ⟨hnone, -⟩ | ⟨p, rest, -, hpath, hmoves⟩
    · cases hnone
    · exact hmoves.offset_lt hs hpath.length_lt
  · obtain ⟨c, rest, hcondition, -, hmoves⟩ := (sound limits fuel).condition hs h
    exact hmoves.offset_lt hs (Nat.lt_of_le_of_lt (Nat.le_add_left _ _) hcondition.cost_lt)
  · obtain ⟨arguments, rest, harguments, -, hmoves⟩ := argumentList_sound hs h
    exact hmoves.offset_lt hs harguments.length_lt
  · obtain ⟨cost, rest, hdeclaration, hmoves⟩ := declaration_sound limits fuel hs h
    exact hmoves.offset_lt hs (Nat.lt_of_le_of_lt (Nat.le_add_left _ _) hdeclaration.cost_lt)

end Grammar

open Grammar

/--
With so much fuel, linear in the bytes of the text, a query of any kind is read
or the text is refused under any limits, and further fuel changes nothing.  So
parsing comes to an end, and every value, path, condition, list of arguments or
declared function that a reader finds anywhere in a text takes its cursor on.
-/
theorem Query.parse_terminates (kind : QueryKind) (limits : Limits) (text : String) {fuel : Nat}
    (hfuel : 4 * text.utf8ByteSize + 6 ≤ fuel) :
    ((∃ q s, query limits kind fuel ⟨.ofText text, 0, 0⟩ = .ok q s) ∨
      ∃ error s, query limits kind fuel ⟨.ofText text, 0, 0⟩ = .error (.rejected error) s) ∧
    query limits kind fuel ⟨.ofText text, 0, 0⟩ =
      query limits kind (4 * text.utf8ByteSize + 6) ⟨.ofText text, 0, 0⟩ ∧
    ((∃ q, parse kind limits text = .ok q) ∨
      ∃ error, parse kind limits text = .error (.rejected error)) ∧
    ∀ (n : Nat) (s : State), s.scanner.ahead.isSome = true → Advances limits n s := by
  have henough : 4 * text.toList.length + 6 ≤ 4 * text.utf8ByteSize + 6 := by
    have hbytes := Text.length_le_byteLength text.toList
    rw [← Text.utf8ByteSize_eq] at hbytes
    omega
  refine ⟨?_, ?_, ?_, fun n s hs => ?_⟩
  · have hend := (suffices_query limits kind).orderly (stands_ofText text)
      (Nat.le_trans henough hfuel)
    cases hresult : query limits kind fuel ⟨.ofText text, 0, 0⟩ with
    | ok q s => exact .inl ⟨q, s, rfl⟩
    | error failure s =>
        rw [hresult] at hend
        cases hend with
        | refused error _ => exact .inr ⟨error, s, rfl⟩
  · exact (query_eq_of_le limits kind (Scanner.ahead_ofText text) henough hfuel).symm
  · exact ((Session.placed_ofText text limits).read kind).1
  · obtain ⟨cs, hahead⟩ := Option.isSome_iff_exists.mp hs
    exact advances limits n hahead

/-- Limits that the text never reaches ask for no more fuel, and what is more is left over. -/
theorem Query.parse_terminates_group : 4 * "FROM X WHERE ((a = 1))".utf8ByteSize + 6 ≤ 1000 ∧
    query ⟨1000000, 1000000⟩ .select 1000 ⟨.ofText "FROM X WHERE ((a = 1))", 0, 0⟩ =
      query ⟨1000000, 1000000⟩ .select (4 * "FROM X WHERE ((a = 1))".utf8ByteSize + 6)
        ⟨.ofText "FROM X WHERE ((a = 1))", 0, 0⟩ ∧
    ((∃ q, parse .select ⟨1000000, 1000000⟩ "FROM X WHERE ((a = 1))" = .ok q) ∨
      ∃ error, parse .select ⟨1000000, 1000000⟩ "FROM X WHERE ((a = 1))" =
        .error (.rejected error)) :=
  have hfuel : 4 * "FROM X WHERE ((a = 1))".utf8ByteSize + 6 ≤ 1000 := by decide
  have hends := parse_terminates .select ⟨1000000, 1000000⟩ "FROM X WHERE ((a = 1))" hfuel
  ⟨hfuel, hends.2.1, hends.2.2.1⟩

end DocQuery
