import DocQuery.Proofs.Canonical.Clause
import DocQuery.Proofs.Grammar.Twin

/-!
# Declared functions that are read back

Canonical text has each declared function word for word behind DECLARE, in the
order of the names.  A function is read from its own text alone, in front of
anything, because its last token is the brace that closes its body.  Reading them
in the order of their names gives the same functions at the same cost.
-/

namespace DocQuery

open Lexical Written

/-- Some text declares a function of this name with this text, at this cost. -/
def IsDeclared (name text : String) (cost : Complexity) : Prop :=
  ∃ size cs script rest, Declaration size cs (name, script) cost rest ∧ script.text = text

/-- Parameters in front of a script are read with it in front of any text, at the same cost. -/
theorem Written.Arguments.before_script {size : Nat} {cs r block rest : List Char}
    {parameters : Syntax.Arguments} (h : Arguments size true cs parameters r)
    (hblock : Takes Rule.block r block () rest) :
    ∃ body, block = '{' :: body ∧ ∀ size' rest', ∃ cs' parameters' r',
      Twin (body ++ rest) (body ++ rest') cs cs' ∧ Arguments size' true cs' parameters' r' ∧
        Takes Rule.block r' block () rest' ∧ parameters'.cost = parameters.cost := by
  -- the texts behind the brace of the body
  obtain ⟨⟨body, rfl⟩, hagain⟩ := Block.length?_append (Rule.ofLength_eq_some.mp hblock.measured)
  obtain ⟨gap, rfl, hgap⟩ := Trivia.exists_gap hblock.split (by simp)
  refine ⟨body, rfl, fun size' rest' => ?_⟩
  have hsolid : ∀ more, Trivia.rest ('{' :: body ++ more) = '{' :: body ++ more :=
    fun more => Trivia.rest_solid _ (by decide)
  have htwin : Twin (body ++ rest) (body ++ rest') (gap ++ ('{' :: body ++ rest))
      (gap ++ ('{' :: body ++ rest')) :=
    @Twin.mk _ _ gap [] (hgap (hsolid rest)) (hgap (hsolid rest'))
  obtain ⟨cs', parameters', hcs, hparameters, hcost⟩ := h.twin size' htwin
  exact ⟨cs', parameters', _, hcs, hparameters,
    ⟨hgap (hsolid rest'), Rule.ofLength_eq_some.mpr (hagain rest')⟩, hcost⟩

/--
A function is declared in front of anything else as well, because its last token is
the brace that closes its script.
-/
theorem Written.Declaration.twin {size : Nat} {cs rest : List Char} {name : String}
    {script : DocQuery.Script} {cost : Complexity} (h : Declaration size cs (name, script) cost rest)
    (size' : Nat) (rest' : List Char) :
    ∃ body cs' script', Twin (body ++ rest) (body ++ rest') cs cs' ∧
      Declaration size' cs' (name, script') cost rest' ∧ script'.text = script.text := by
  cases h with
  | @mk _ keyword r name r₁ r₂ r₃ block _ text as hkeyword hname hopen harguments hblock htext =>
  obtain ⟨body, rfl, hagain⟩ := harguments.before_script hblock
  obtain ⟨r₂', as', r₃', hr₂, harguments, hblock, hcost⟩ := hagain size' rest'
  obtain ⟨r₁', hr₁, hopen⟩ := hopen.twin hr₂
  obtain ⟨r', hr, hname⟩ :=
    hr₁.takes (Rule.settled_identifier true) (Rule.sized_identifier true) hname
  obtain ⟨cs', hcs, hkeyword⟩ :=
    hr.takes (Rule.settled_keyword rfl) (Rule.sized_phrase _) hkeyword
  have hsame : keyword ++ r' = text ++ rest' := by
    cases hr with
    | @mk gap piece _ _ =>
        have hcut : keyword ++ (gap ++ (piece ++ '{' :: body)) = text :=
          @List.append_cancel_right _ _ rest _ (by simpa using htext)
        rw [← hcut]
        simp
  rw [← hcost]
  exact ⟨body, cs',
    ⟨String.ofList text, Span.between (place size' (keyword ++ r')) (place size' rest')⟩,
    hcs, .mk hkeyword hname hopen harguments hblock hsame, rfl⟩

/-- The text of a function is what stands behind the trivia. -/
theorem Written.Declaration.split {size : Nat} {cs rest : List Char} {name : String}
    {script : DocQuery.Script} {cost : Complexity} (h : Declaration size cs (name, script) cost rest) :
    Trivia.rest cs = script.text.toList ++ rest := by
  cases h with
  | mk hkeyword _ _ _ _ htext => rw [hkeyword.split, htext, String.toList_ofList]

theorem Written.Declaration.alike {size : Nat} {cs ds rest : List Char}
    {entry : String × DocQuery.Script} {cost : Complexity} (h : Declaration size cs entry cost rest)
    (hds : Alike ds cs) : Declaration size ds entry cost rest := by
  cases h with
  | mk hkeyword hname hopen harguments hblock htext =>
      exact .mk (hkeyword.alike hds) hname hopen harguments hblock htext

/-- A function that was declared is declared by its text alone, whatever follows. -/
theorem IsDeclared.written {name text : String} {cost : Complexity} (h : IsDeclared name text cost)
    (size : Nat) {cs ds : List Char} (hds : Alike ds (text.toList ++ cs)) :
    ∃ script, Declaration size ds (name, script) cost cs ∧ script.text = text := by
  obtain ⟨_, _, _, _, hdeclaration, rfl⟩ := h
  obtain ⟨_, cs', script, -, hwritten, hsame⟩ := hdeclaration.twin size cs
  rw [← hsame, ← hwritten.split] at hds
  exact ⟨script, hwritten.alike (hds.trans (Trivia.rest_rest cs')), hsame⟩

/-! ## The cost of several functions -/

theorem Complexity.join_comm (a b : Complexity) : a.join b = b.join a := by
  simp only [join, Complexity.mk.injEq]
  omega

/-- All of the functions are declared by their texts, at this cost together. -/
inductive AllDeclared : List (String × Script) → Complexity → Prop where
  | nil : AllDeclared [] .zero
  | cons {name : String} {script : Script} {entries : List (String × Script)}
      {cost costs : Complexity} :
      IsDeclared name script.text cost → AllDeclared entries costs →
      AllDeclared ((name, script) :: entries) (cost.join costs)

namespace AllDeclared

variable {entries : List (String × Script)} {cost costs : Complexity}

theorem insertEntry (h : AllDeclared entries costs) {name : String} {script : Script}
    (hscript : IsDeclared name script.text cost) (hfresh : ∀ entry ∈ entries, entry.1 ≠ name) :
    AllDeclared (Functions.insertEntry name script entries) (costs.join cost) := by
  induction h with
  | nil =>
      rw [Complexity.join_comm]
      exact .cons hscript .nil
  | @cons other kept entries cost' costs hother hothers ih =>
      have hne : name ≠ other := fun heq => hfresh _ List.mem_cons_self heq.symm
      rw [Functions.insertEntry]
      split
      · rw [Complexity.join_comm]
        exact .cons hscript (.cons hother hothers)
      · rw [Complexity.join_assoc]
        exact .cons hother (ih fun entry hmem => hfresh entry (List.mem_cons_of_mem _ hmem))

/-- Functions that are read are declared by their texts. -/
theorem of_written {size : Nat} {known functions : Functions} {cs rest : List Char}
    (h : Declarations size known cs functions cost rest)
    (hknown : AllDeclared known.entries costs) :
    AllDeclared functions.entries (costs.join cost) := by
  induction h generalizing costs with
  | done _ => rwa [Complexity.join_zero]
  | @more known _ _ _ _ _ name script _ _ _ hdeclaration hfresh _ ih =>
      have hnames : ∀ entry ∈ known.entries, entry.1 ≠ name := by
        intro entry hmem heq
        rw [Functions.contains, List.any_eq_false] at hfresh
        exact hfresh entry hmem (beq_iff_eq.mpr heq)
      have hmore := ih (hknown.insertEntry ⟨_, _, script, _, hdeclaration, rfl⟩ hnames)
      rwa [Complexity.join_assoc] at hmore

end AllDeclared

/-! ## Functions in the order of their names -/

namespace Functions

/-- The text of several declared functions, each on a line of its own. -/
def renderEntries (entries : List (String × Script)) : List Char :=
  entries.flatMap fun entry => "DECLARE ".toList ++ (entry.2.text.toList ++ ['\n'])

/-- An entry with a later name goes to the end. -/
theorem insertEntry_last {name : String} {script : Script} {entries : List (String × Script)}
    (h : ∀ entry ∈ entries, entry.1 < name) :
    insertEntry name script entries = entries ++ [(name, script)] := by
  induction entries with
  | nil => rfl
  | cons head entries ih =>
      obtain ⟨other, kept⟩ := head
      have hlt : other < name := h _ List.mem_cons_self
      rw [insertEntry, if_neg fun hgt => String.lt_irrefl name (String.lt_trans hgt hlt),
        if_neg fun heq : name = other => String.lt_irrefl name (heq ▸ hlt),
        ih fun entry hmem => h entry (List.mem_cons_of_mem _ hmem), List.cons_append]

end Functions

/-- Functions in the order of their names are read behind those with earlier names. -/
theorem AllDeclared.written {entries : List (String × Script)} {costs : Complexity}
    (h : AllDeclared entries costs) (hsorted : entries.Pairwise fun a b => a.1 < b.1)
    {known : Functions} (hknown : ∀ a ∈ known.entries, ∀ b ∈ entries, a.1 < b.1) (size : Nat)
    {cs ds : List Char} (hcs : NoWord .declare cs)
    (hds : Alike ds (Functions.renderEntries entries ++ cs)) :
    ∃ functions rest, Declarations size known ds functions costs rest ∧
      functions.entries.map (Prod.map id Script.erase) =
        (known.entries ++ entries).map (Prod.map id Script.erase) ∧ Alike rest cs := by
  induction h generalizing known ds with
  | nil => exact ⟨known, ds, .done (hcs.alike hds), by rw [List.append_nil], hds⟩
  | @cons name script entries cost costs hdeclared hothers ih =>
      obtain ⟨hfirst, hsorted⟩ := List.pairwise_cons.mp hsorted
      have hword : Word .declare ("DECLARE".toList ++ ' ' :: (script.text.toList ++
          '\n' :: (Functions.renderEntries entries ++ cs))) (' ' :: (script.text.toList ++
          '\n' :: (Functions.renderEntries entries ++ cs))) := ⟨"DECLARE".toList, rfl, rfl⟩
      have htext : Functions.renderEntries ((name, script) :: entries) ++ cs =
          "DECLARE".toList ++ ' ' :: (script.text.toList ++
            '\n' :: (Functions.renderEntries entries ++ cs)) := by
        simp [Functions.renderEntries]
      rw [htext] at hds
      obtain ⟨found, hfound, hsame⟩ := hdeclared.written size (alike_blank _)
      have hlast : (known.insert name found).entries = known.entries ++ [(name, found)] :=
        Functions.insertEntry_last fun entry hmem => hknown entry hmem _ List.mem_cons_self
      have hfresh : known.contains name = false := by
        rw [Functions.contains, List.any_eq_false]
        intro entry hmem heq
        have hlt := hknown entry hmem _ List.mem_cons_self
        exact String.lt_irrefl name (beq_iff_eq.mp heq ▸ hlt)
      obtain ⟨functions, rest, hmore, hentries, hrest⟩ := @ih hsorted (known.insert name found) (by
        rw [hlast]
        intro a ha b hb
        rcases List.mem_append.mp ha with hmem | hmem
        · exact hknown a hmem b (List.mem_cons_of_mem _ hb)
        · rw [List.mem_singleton.mp hmem]
          exact hfirst b hb) _ (@Trivia.rest_blank '\n' _ (by decide))
      refine ⟨functions, rest, .more (hword.alike hds) hfound hfresh hmore, ?_, hrest⟩
      rw [hentries, hlast]
      simp [Script.erase, hsame]

end DocQuery
