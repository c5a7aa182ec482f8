import DocQuery.Proofs.Grammar.Steps
import DocQuery.Proofs.Grammar.Syntax

/-!
# Runs of a reader under all limits

The same reader is run under all limits at once.  Where the cost of what it
reads fits the limits, it comes to one and the same end; where the cost does not
fit, it is refused because of a limit, and for no other reason.
-/

namespace DocQuery.Grammar

/-- The cost fits the limits for a reader in this state. -/
def Fits (limits : Limits) (s : State) (cost : Complexity) : Prop :=
  s.depth + cost.depth ≤ limits.maxDepth ∧
    s.connectives + cost.connectives ≤ limits.maxConnectives

/-- The text was refused because of one of the limits. -/
def Refused {α : Type} (limits : Limits) (result : EStateM.Result Failure State α) : Prop :=
  ∃ cause location s,
    (cause = .tooDeep limits.maxDepth ∨ cause = .tooManyConnectives limits.maxConnectives) ∧
      result = .error (.rejected (.refused cause location)) s

/-- Under all limits that the cost fits the reader comes to this end, and to no end under others. -/
structure Runs {α : Type} (reader : Limits → Read α) (s : State) (a : α) (s' : State)
    (cost : Complexity) : Prop where
  fits : ∀ {limits : Limits}, Fits limits s cost → reader limits s = .ok a s'
  exceeds : ∀ {limits : Limits}, Fits limits s .zero → ¬Fits limits s cost →
    Refused limits (reader limits s)

variable {α β : Type} {limits : Limits} {s s₁ s' : State} {cost c₁ c₂ : Complexity}

/-! ## When a cost fits -/

theorem Fits.zero (h : Fits limits s cost) : Fits limits s .zero := by
  obtain ⟨hdepth, hconnectives⟩ := h
  simp only [Fits, Complexity.zero]
  omega

/-- Two pieces fit exactly if the first one does and the second one behind it. -/
theorem fits_join {rest : List Char} (hmoves : Moves s rest c₁.connectives s₁) :
    Fits limits s (c₁.join c₂) ↔ Fits limits s c₁ ∧ Fits limits s₁ c₂ := by
  simp only [Fits, Complexity.join, hmoves.depth, hmoves.connectives]
  omega

theorem fits_nest : Fits limits s cost.nest ↔
    Fits limits { s with depth := s.depth + 1 } cost := by
  simp only [Fits, Complexity.nest]
  omega

theorem fits_link : Fits limits s (Complexity.link.join cost) ↔
    Fits limits { s with connectives := s.connectives + 1 } cost := by
  simp only [Fits, Complexity.link, Complexity.join]
  omega

theorem Refused.bind {x : Read α} {f : α → Read β} (h : Refused limits (x s)) :
    Refused limits ((x >>= f) s) := by
  obtain ⟨cause, location, s₁, hcause, herror⟩ := h
  exact ⟨cause, location, s₁, hcause, bind_of_error f herror⟩

/-! ## Sequences of runs -/

namespace Runs

theorem of_ok {x : Limits → Read α} {a : α} (h : ∀ limits, x limits s = .ok a s') :
    Runs x s a s' .zero :=
  ⟨fun _ => h _, fun hfits hnot => absurd hfits hnot⟩

theorem bind {x : Limits → Read α} {f : Limits → α → Read β} {a : α} {b : β} {rest : List Char}
    (hx : Runs x s a s₁ c₁) (hmoves : Moves s rest c₁.connectives s₁)
    (hf : Runs (fun limits => f limits a) s₁ b s' c₂) :
    Runs (fun limits => x limits >>= f limits) s b s' (c₁.join c₂) := by
  constructor
  · intro limits hfits
    obtain ⟨h₁, h₂⟩ := (fits_join hmoves).mp hfits
    rw [bind_of_ok _ (hx.fits h₁)]
    exact hf.fits h₂
  · intro limits hzero hnot
    by_cases h₁ : Fits limits s c₁
    · rw [bind_of_ok _ (hx.fits h₁)]
      have hthere : Fits limits s₁ .zero := by
        rw [← Complexity.join_zero c₁] at h₁
        exact ((fits_join hmoves).mp h₁).2
      exact hf.exceeds hthere (fun h₂ => hnot ((fits_join hmoves).mpr ⟨h₁, h₂⟩))
    · exact (hx.exceeds hzero h₁).bind

/-- A run behind steps that no limit bounds. -/
theorem after {x : Read α} {f : Limits → α → Read β} {a : α} {b : β} {rest : List Char}
    (hx : x s = .ok a s₁) (hmoves : Moves s rest 0 s₁)
    (hf : Runs (fun limits => f limits a) s₁ b s' cost) :
    Runs (fun limits => x >>= f limits) s b s' cost := by
  have hrun : Runs (fun limits => x >>= f limits) s b s' (Complexity.zero.join cost) :=
    (of_ok fun _ => hx).bind hmoves hf
  rwa [Complexity.zero_join] at hrun

/-- A run in front of steps that no limit bounds. -/
theorem before {x : Limits → Read α} {f : Limits → α → Read β} {a : α} {b : β}
    (hx : Runs x s a s₁ cost) (hf : ∀ limits, f limits a s₁ = .ok b s') :
    Runs (fun limits => x limits >>= f limits) s b s' cost := by
  constructor
  · intro limits hfits
    rw [bind_of_ok _ (hx.fits hfits), hf limits]
  · intro limits hzero hnot
    exact (hx.exceeds hzero hnot).bind

theorem require {x : Limits → Read (Option α)} {a : α} (e : Expectation)
    (hx : Runs x s (some a) s' cost) :
    Runs (fun limits => Grammar.require e (x limits)) s a s' cost :=
  hx.before fun _ => rfl

/-- What is read inside a group or a call is nested. -/
theorem enter {f : Limits → Unit → Read β} {b : β}
    (hf : Runs (fun limits => f limits ()) { s with depth := s.depth + 1 } b s' cost) :
    Runs (fun limits => Grammar.enter limits >>= f limits) s b s' cost.nest := by
  constructor
  · intro limits hfits
    have hinside := fits_nest.mp hfits
    have henter : Grammar.enter limits s = .ok () { s with depth := s.depth + 1 } := by
      rw [enter_eq, if_neg]
      have hdepth := hinside.zero.1
      simpa [Complexity.zero] using hdepth
    rw [bind_of_ok _ henter]
    exact hf.fits hinside
  · intro limits hzero hnot
    by_cases hdepth : limits.maxDepth < s.depth + 1
    · have herror := enter_eq limits s
      rw [if_pos hdepth] at herror
      exact Refused.bind ⟨_, _, _, Or.inl rfl, herror⟩
    · have henter : Grammar.enter limits s = .ok () { s with depth := s.depth + 1 } := by
        rw [enter_eq, if_neg hdepth]
      rw [bind_of_ok _ henter]
      refine hf.exceeds ?_ (fun hinside => hnot (fits_nest.mpr hinside))
      obtain ⟨-, hconnectives⟩ := hzero
      exact ⟨by simpa [Complexity.zero] using hdepth, hconnectives⟩

/-- A connective is counted in front of what it links. -/
theorem link {f : Limits → Unit → Read β} {b : β}
    (hf : Runs (fun limits => f limits ()) { s with connectives := s.connectives + 1 } b s'
      cost) :
    Runs (fun limits => countConnective limits >>= f limits) s b s'
      (Complexity.link.join cost) := by
  constructor
  · intro limits hfits
    have hcounted := fits_link.mp hfits
    have hcount : countConnective limits s =
        .ok () { s with connectives := s.connectives + 1 } := by
      rw [countConnective_eq, if_neg]
      have hconnectives := hcounted.zero.2
      simpa [Complexity.zero] using hconnectives
    rw [bind_of_ok _ hcount]
    exact hf.fits hcounted
  · intro limits hzero hnot
    by_cases hconnectives : limits.maxConnectives < s.connectives + 1
    · have herror := countConnective_eq limits s
      rw [if_pos hconnectives] at herror
      exact Refused.bind ⟨_, _, _, Or.inr rfl, herror⟩
    · have hcount : countConnective limits s =
          .ok () { s with connectives := s.connectives + 1 } := by
        rw [countConnective_eq, if_neg hconnectives]
      rw [bind_of_ok _ hcount]
      refine hf.exceeds ?_ (fun hcounted => hnot (fits_link.mpr hcounted))
      obtain ⟨hdepth, -⟩ := hzero
      exact ⟨hdepth, by simpa [Complexity.zero] using hconnectives⟩

end Runs

end DocQuery.Grammar
