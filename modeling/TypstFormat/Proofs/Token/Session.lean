import TypstFormat.Proofs.Token.Moves

/-!
# Ways back

A parser tries something out: it sets a mark, moves on, and goes back to the mark if that leads
nowhere. A `Session` is a stream with the marks that are set on it. Attempts lie in one another, so
that going back to a mark gives up those that were set since.

A mark knows how long the lists of trivia and diagnostics were, but not what was in them. So it
leads back to what was there only if nothing of it was taken away since. A change of the mode takes
away the trivia and the diagnostics that belong to the current token, and as long as the token at a
mark is not consumed, these are the ones that were there when the mark was set. A session that
changes the mode behind the tokens of its marks only is `Careful`, and all its ways back are exact.

## Key results

- `Stream.Retains.move`: what was there at a stream is still there behind a careful move
- `Stands.step`, `Stands.run`: in a careful session, what was there at each mark is still there
- `attempt_of_keeps`: an attempt that is given up leaves nothing behind in a careful session
- `attempt_loses_look`: in any other session it may take something away
-/

namespace TypstFormat

/-- A stream with marks on it. -/
structure Session where
  stream : Stream
  /-- The marks that can be gone back to, the latest first. -/
  marks : List Stream.Mark := []
  deriving Repr

/-- What is done in a session. -/
inductive Operation where
  | move (move : Move)
  /-- Set a mark. -/
  | mark
  /-- Go back to a mark, and give up those that were set later, of which there are so many. -/
  | rewind (later : Nat)
  deriving DecidableEq, Repr

namespace Session

/-- Carries out one operation. There is no way back to a mark that is not there. -/
def step (σ : Session) : Operation → Session
  | .move move => { σ with stream := σ.stream.move move }
  | .mark => { σ with marks := σ.stream.mark :: σ.marks }
  | .rewind later =>
    match σ.marks.drop later with
    | [] => σ
    | mark :: marks => { stream := σ.stream.rewind mark, marks := mark :: marks }

/-- Carries out all operations, the first one first. -/
def run (σ : Session) (operations : List Operation) : Session :=
  operations.foldl step σ

/-- Sets a mark, carries out operations, and goes back to the mark. -/
def attempt (σ : Session) (operations : List Operation) : Session :=
  let tried := (σ.step .mark).run operations
  tried.step (.rewind (tried.marks.length - (σ.marks.length + 1)))

/-- At least the first `count` marks are kept all along: none in front of them is gone back to. -/
def Keeps (count : Nat) (σ : Session) : List Operation → Prop
  | [] => count ≤ σ.marks.length
  | operation :: operations => count ≤ σ.marks.length ∧ Keeps count (σ.step operation) operations

/-- The operation does not change the mode in front of a token at which a mark stands. -/
def Minds (σ : Session) : Operation → Prop
  | .move (.relex mode) =>
    ∀ mark ∈ σ.marks, mark.consumed = σ.stream.consumed → mark.scanner.mode = mode
  | _ => True

/-- When a mark has been set, the mode is not changed before the token at the mark is consumed. -/
def Careful (σ : Session) : List Operation → Prop
  | [] => True
  | operation :: operations => σ.Minds operation ∧ Careful (σ.step operation) operations

instance decidableKeeps (count : Nat) :
    (σ : Session) → (operations : List Operation) → Decidable (σ.Keeps count operations)
  | _, [] => inferInstanceAs (Decidable (_ ≤ _))
  | σ, operation :: operations =>
    have := decidableKeeps count (σ.step operation) operations
    inferInstanceAs (Decidable (_ ∧ _))

instance (σ : Session) : (operation : Operation) → Decidable (σ.Minds operation)
  | .move (.relex _) => inferInstanceAs (Decidable (∀ mark ∈ σ.marks, _))
  | .move .bump | .move (.lookahead _) | .mark | .rewind _ => inferInstanceAs (Decidable True)

instance decidableCareful :
    (σ : Session) → (operations : List Operation) → Decidable (σ.Careful operations)
  | _, [] => inferInstanceAs (Decidable True)
  | σ, operation :: operations =>
    have := decidableCareful (σ.step operation) operations
    inferInstanceAs (Decidable (_ ∧ _))

end Session

namespace Stream

/-! ## What is still there -/

/-- A steady stream is known from the source and the mode, how much of it was consumed, and what was
found in front of that. -/
theorem Steady.eq_of {s t : Stream} (hs : s.Steady) (ht : t.Steady)
    (hsource : t.source = s.source) (hmode : t.mode = s.mode) (hconsumed : t.consumed = s.consumed)
    (hsettled : t.settled = s.settled) (hfound : t.found = s.found) : t = s := by
  have hlook := look_congr hsource hmode hconsumed
  have hposition : t.scanner.position = s.scanner.position := by
    rw [ht.position, hs.position, hlook]
  have hfindings : t.scanner.findings = s.scanner.findings := by
    rw [ht.findings, hs.findings, hlook, hfound]
  have hrecorded : t.recorded = s.recorded := by
    rw [ht.recorded, hs.recorded, hlook, hsettled]
  have hcurrent : t.current = s.current := by
    rw [ht.current, hs.current, hlook]
  have htrivia : t.afterTrivia = s.afterTrivia := by
    rw [ht.afterTrivia, hs.afterTrivia, hlook]
  have hbreak : t.afterLineBreak = s.afterLineBreak := by
    rw [ht.afterLineBreak, hs.afterLineBreak, hlook]
  obtain ⟨⟨_, _, _, _⟩, _, _, _, _, _⟩ := s
  obtain ⟨⟨_, _, _, _⟩, _, _, _, _, _⟩ := t
  cases hsource
  cases hmode
  cases hconsumed
  cases hposition
  cases hfindings
  cases hrecorded
  cases hcurrent
  cases htrivia
  cases hbreak
  rfl

/-- A steady stream that is scanned again in its own mode stays as it is. -/
theorem Steady.relex_self {s : Stream} (h : s.Steady) : s.relex s.mode = s := by
  obtain ⟨hsteady, hsource, hmode, hconsumed, hsettled, hfound⟩ := h.relex s.mode
  exact h.eq_of hsteady hsource hmode hconsumed hsettled hfound

/-- What was recorded and found at a stream is still there at a later one: either it is the same
stream, or more has been consumed, and then all of that is settled. -/
structure Retains (s t : Stream) : Prop where
  source_eq : t.source = s.source
  cases : t = s ∨ (s.consumed < t.consumed ∧ s.recorded <:+ t.settled ∧
    s.scanner.findings <:+ t.found)

namespace Retains

variable {s t : Stream}

theorem refl (s : Stream) : Retains s s :=
  ⟨rfl, .inl rfl⟩

/-- A mark leads back to what is still there. -/
theorem rewind (h : Retains s t) (ht : t.Steady) : t.rewind s.mark = s := by
  obtain ⟨hsource, rfl | ⟨_, hrecorded, hfindings⟩⟩ := h
  · exact rewind_mark rfl (List.suffix_refl _) (List.suffix_refl _)
  · -- What is settled is only part of what is recorded.
    refine rewind_mark hsource (hrecorded.trans ?_) (hfindings.trans ?_)
    · rw [ht.recorded]
      exact List.suffix_append _ _
    · rw [ht.findings]
      exact List.suffix_append _ _

/-- What is there stays there, if the mode is not changed where it was found. -/
theorem move (h : Retains s t) (ht : t.Steady) (move : Move)
    (hminds : ∀ mode, move = .relex mode → s.consumed = t.consumed → s.mode = mode) :
    Retains s (t.move move) := by
  cases move with
  | bump =>
    show Retains s t.bump
    by_cases hkind : t.kind = .eof
    · rw [bump_of_eof hkind]
      exact h
    · obtain ⟨_, hsource, _, hconsumed, hsettled, hfound⟩ := ht.bump hkind
      rw [ht.kind_eq] at hkind
      have hless : t.consumed < t.look.token.range.stop :=
        Nat.lt_of_le_of_lt ht.covers.le_start (ht.covers.start_lt_stop hkind)
      -- All that was recorded in front of the token is settled with it.
      rw [← ht.recorded] at hsettled
      rw [← ht.findings] at hfound
      refine ⟨hsource.trans h.source_eq, .inr ?_⟩
      rw [hconsumed, hsettled, hfound]
      obtain ⟨_, rfl | ⟨hlt, hrecorded, hfindings⟩⟩ := h
      · exact ⟨hless, List.suffix_refl _, List.suffix_refl _⟩
      · refine ⟨Nat.lt_trans hlt hless, hrecorded.trans ?_, hfindings.trans ?_⟩
        · rw [ht.recorded]
          exact List.suffix_append _ _
        · rw [ht.findings]
          exact List.suffix_append _ _
  | relex mode =>
    show Retains s (t.relex mode)
    obtain ⟨_, hsource, _, hconsumed, hsettled, hfound⟩ := ht.relex mode
    obtain ⟨hsame, rfl | ⟨hlt, hrecorded, hfindings⟩⟩ := h
    · -- Nothing has been consumed, so the mode is not a new one.
      obtain rfl := hminds mode rfl rfl
      rw [ht.relex_self]
      exact .refl t
    · refine ⟨hsource.trans hsame, .inr ?_⟩
      rw [hconsumed, hsettled, hfound]
      exact ⟨hlt, hrecorded, hfindings⟩
  | lookahead n =>
    rw [move_lookahead]
    exact h

end Retains

end Stream

namespace Session

/-! ## Careful sessions -/

/-- The marks of a session were set on `bases`, and what was there at each of them is still there at
the later ones and at the stream. -/
structure Stands (σ : Session) (bases : List Stream) : Prop where
  marks_eq : σ.marks = bases.map Stream.mark
  steady : ∀ s ∈ σ.stream :: bases, s.Steady
  retained : (σ.stream :: bases).Pairwise fun t s => s.Retains t

theorem step_rewind {σ : Session} {later : Nat} {mark : Stream.Mark} {marks : List Stream.Mark}
    (h : σ.marks.drop later = mark :: marks) :
    σ.step (.rewind later) = { stream := σ.stream.rewind mark, marks := mark :: marks } := by
  unfold step
  simp only [h]

theorem step_rewind_of_nil {σ : Session} {later : Nat} (h : σ.marks.drop later = []) :
    σ.step (.rewind later) = σ := by
  unfold step
  simp only [h]

theorem Keeps.le_length {count : Nat} {σ : Session} {operations : List Operation}
    (h : σ.Keeps count operations) : count ≤ σ.marks.length := by
  cases operations with
  | nil => exact h
  | cons operation operations => exact h.1

theorem keeps_zero (σ : Session) (operations : List Operation) : σ.Keeps 0 operations := by
  induction operations generalizing σ with
  | nil => exact Nat.zero_le _
  | cons operation operations ih => exact ⟨Nat.zero_le _, ih _⟩

theorem careful_append {σ : Session} {operations more : List Operation} :
    σ.Careful (operations ++ more) ↔ σ.Careful operations ∧ (σ.run operations).Careful more := by
  induction operations generalizing σ with
  | nil => exact ⟨fun h => ⟨trivial, h⟩, And.right⟩
  | cons operation operations ih =>
    show σ.Minds operation ∧ (σ.step operation).Careful (operations ++ more) ↔ _
    rw [ih, ← and_assoc]
    rfl

/-- Marks that are kept stay where they are, whether one is set or the latest ones are given up. -/
private theorem suffix_of_kept {a : α} {l l' older : List α} (h : l' = a :: l ∨ l' <:+ l)
    (hsuffix : older <:+ l) (hlength : older.length ≤ l'.length) : older <:+ l' := by
  rcases h with rfl | h
  · exact hsuffix.trans (List.suffix_cons a l)
  · exact List.suffix_of_suffix_length_le hsuffix h hlength

namespace Stands

variable {σ : Session} {bases older : List Stream}

/-- A mark is set on the stream as it is. -/
theorem mark (h : Stands σ bases) : Stands (σ.step .mark) (σ.stream :: bases) := by
  obtain ⟨hmarks, hsteady, hretained⟩ := h
  obtain ⟨hstream, -⟩ := List.forall_mem_cons.1 hsteady
  obtain ⟨hnow, -⟩ := List.pairwise_cons.1 hretained
  refine ⟨?_, List.forall_mem_cons.2 ⟨hstream, hsteady⟩, ?_⟩
  · rw [List.map_cons, ← hmarks]
    rfl
  · exact List.pairwise_cons.2 ⟨List.forall_mem_cons.2 ⟨.refl _, hnow⟩, hretained⟩

/-- A careful operation leaves what the marks lead back to in its place. -/
theorem step (h : Stands σ bases) {operation : Operation} (hminds : σ.Minds operation) :
    ∃ bases', Stands (σ.step operation) bases' ∧
      (bases' = σ.stream :: bases ∨ bases' <:+ bases) := by
  obtain ⟨hmarks, hsteady, hretained⟩ := h
  obtain ⟨hstream, hbases⟩ := List.forall_mem_cons.1 hsteady
  obtain ⟨hnow, hbefore⟩ := List.pairwise_cons.1 hretained
  cases operation with
  | move move =>
    refine ⟨bases, ⟨hmarks, List.forall_mem_cons.2 ⟨hstream.move move, hbases⟩, ?_⟩,
      .inr (List.suffix_refl bases)⟩
    refine List.pairwise_cons.2 ⟨fun s hs => ?_, hbefore⟩
    apply (hnow s hs).move hstream move
    rintro mode rfl hconsumed
    -- The mark that was set on a base has its mode.
    have hmark : s.mark ∈ σ.marks := by
      rw [hmarks]
      exact List.mem_map_of_mem hs
    exact hminds s.mark hmark hconsumed
  | mark => exact ⟨σ.stream :: bases, Stands.mark ⟨hmarks, hsteady, hretained⟩, .inl rfl⟩
  | rewind later =>
    have hdrops : σ.marks.drop later = (bases.drop later).map Stream.mark := by
      rw [hmarks, List.map_drop]
    cases hdrop : bases.drop later with
    | nil =>
      rw [hdrop] at hdrops
      rw [step_rewind_of_nil hdrops]
      exact ⟨bases, ⟨hmarks, hsteady, hretained⟩, .inr (List.suffix_refl bases)⟩
    | cons base rest =>
      rw [hdrop] at hdrops
      rw [step_rewind hdrops]
      -- Going back to a base gives the base itself, and what is older than that is left.
      have hsuffix : base :: rest <:+ bases := hdrop ▸ List.drop_suffix later bases
      have hbase : σ.stream.rewind base.mark = base :=
        (hnow base (hsuffix.mem List.mem_cons_self)).rewind hstream
      have hall : ∀ s ∈ base :: rest, s.Steady := fun s hs => hbases s (hsuffix.mem hs)
      have hpairs := hbefore.sublist hsuffix.sublist
      rw [hbase]
      refine ⟨base :: rest, ⟨rfl, ?_, ?_⟩, .inr hsuffix⟩
      · exact List.forall_mem_cons.2 ⟨hall base List.mem_cons_self, hall⟩
      · exact List.pairwise_cons.2
          ⟨List.forall_mem_cons.2 ⟨.refl base, (List.pairwise_cons.1 hpairs).1⟩, hpairs⟩

/-- Careful operations leave what the marks lead back to in its place. -/
theorem run (h : Stands σ bases) {operations : List Operation} (hcareful : σ.Careful operations)
    (holder : older <:+ bases) (hkeeps : σ.Keeps older.length operations) :
    ∃ bases', Stands (σ.run operations) bases' ∧ older <:+ bases' := by
  induction operations generalizing σ bases with
  | nil => exact ⟨bases, h, holder⟩
  | cons operation operations ih =>
    obtain ⟨hminds, hcareful⟩ := hcareful
    obtain ⟨_, hkeeps⟩ := hkeeps
    obtain ⟨bases', h', hbases'⟩ := h.step hminds
    refine ih h' hcareful (suffix_of_kept hbases' holder ?_) hkeeps
    have hlength := hkeeps.le_length
    rwa [h'.marks_eq, List.length_map] at hlength

end Stands

/-! ## Attempts -/

theorem marks_step (σ : Session) (operation : Operation) :
    (σ.step operation).marks = σ.stream.mark :: σ.marks ∨
      (σ.step operation).marks <:+ σ.marks := by
  cases operation with
  | move move => exact .inr (List.suffix_refl _)
  | mark => exact .inl rfl
  | rewind later =>
    cases hdrop : σ.marks.drop later with
    | nil =>
      rw [step_rewind_of_nil hdrop]
      exact .inr (List.suffix_refl _)
    | cons mark marks =>
      rw [step_rewind hdrop]
      exact .inr (hdrop ▸ List.drop_suffix later σ.marks)

/-- Marks that are kept are still there afterwards. -/
theorem Keeps.suffix {σ : Session} {older : List Stream.Mark} {operations : List Operation}
    (h : σ.Keeps older.length operations) (holder : older <:+ σ.marks) :
    older <:+ (σ.run operations).marks := by
  induction operations generalizing σ with
  | nil => exact holder
  | cons operation operations ih =>
    exact ih h.2 (suffix_of_kept (σ.marks_step operation) holder h.2.le_length)

/-- An attempt goes back to the mark that was set for it. -/
theorem attempt_eq {σ : Session} {operations : List Operation}
    (hkeeps : (σ.step .mark).Keeps (σ.marks.length + 1) operations) :
    σ.attempt operations =
      { stream := ((σ.step .mark).run operations).stream.rewind σ.stream.mark
        marks := σ.stream.mark :: σ.marks } := by
  have hnow : σ.stream.mark :: σ.marks <:+ (σ.step .mark).marks := List.suffix_refl _
  have hsuffix : σ.stream.mark :: σ.marks <:+ ((σ.step .mark).run operations).marks :=
    Keeps.suffix hkeeps hnow
  have hdrop := (List.suffix_iff_eq_drop.1 hsuffix).symm
  rw [List.length_cons] at hdrop
  exact step_rewind hdrop

/-- A mark is set in a session, and it is gone back to when other operations have been carried out,
none of which gives it up. The current token is the one that was current at the mark, and so are the
mode, what was consumed, and what is told of the trivia in front of the token. If the session is
careful, then the trivia and the diagnostics are those at the mark as well: the session is what it
was when the mark had been set, as if nothing had been tried. -/
theorem attempt_of_keeps (source : List Char) (mode : Mode) (before tried : List Operation) :
    let start : Session := { stream := .ofSource source mode }
    let σ := start.run before
    (σ.step .mark).Keeps (σ.marks.length + 1) tried →
      let back := σ.attempt tried
      (back.stream.current = σ.stream.current ∧ back.stream.position = σ.stream.position ∧
        back.stream.consumed = σ.stream.consumed ∧ back.stream.mode = σ.stream.mode ∧
        back.stream.afterTrivia = σ.stream.afterTrivia ∧
        back.stream.afterLineBreak = σ.stream.afterLineBreak) ∧
      (start.Careful (before ++ .mark :: tried) → back = σ.step .mark) := by
  intro start σ hkeeps
  dsimp only
  rw [attempt_eq hkeeps]
  refine ⟨⟨rfl, rfl, rfl, rfl, rfl, rfl⟩, fun hcareful => ?_⟩
  obtain ⟨hbefore, -, hcareful⟩ := careful_append.1 hcareful
  -- At first there is no mark, and then a mark is set on the stream that is to be gone back to.
  have hstart : Stands start [] := by
    refine ⟨rfl, ?_, List.pairwise_singleton _ _⟩
    rintro s (_ | ⟨_, ⟨⟩⟩)
    exact Stream.steady_ofSource source mode
  obtain ⟨bases, hσ, -⟩ := hstart.run hbefore (List.suffix_refl []) (keeps_zero _ _)
  obtain ⟨bases', htried, hbase⟩ := hσ.mark.run hcareful (List.suffix_refl _) (by
    rw [List.length_cons, ← List.length_map (f := Stream.mark), ← hσ.marks_eq]
    exact hkeeps)
  -- What was there at the mark is still there when it is gone back to.
  obtain ⟨hstream, -⟩ := List.forall_mem_cons.1 htried.steady
  have hretains := (List.pairwise_cons.1 htried.retained).1 σ.stream
    (hbase.mem List.mem_cons_self)
  rw [hretains.rewind hstream]
  rfl

/-- Behind the parenthesis stands a character that code cannot read. It is read in math, where a
second mark is set and gone back to. Then all of it is given up. -/
theorem attempt_of_keeps_nested :
    let start : Session := { stream := .ofSource ['a', ' ', '(', '~', ' ', 'b'] .code }
    let σ := start.run [.move .bump]
    let tried : List Operation := [.move (.lookahead 2), .move .bump, .move (.relex .math), .mark,
      .move .bump, .move (.relex .code), .rewind 0, .move .bump]
    (σ.step .mark).Keeps (σ.marks.length + 1) tried ∧
      start.Careful ([.move .bump] ++ .mark :: tried) ∧ σ.attempt tried = σ.step .mark := by
  intro start σ tried
  have hkeeps : (σ.step .mark).Keeps (σ.marks.length + 1) tried := by decide
  have hcareful : start.Careful ([.move .bump] ++ .mark :: tried) := by decide
  exact ⟨hkeeps, hcareful, (attempt_of_keeps _ _ _ tried hkeeps).2 hcareful⟩

/-- In code there is a blank in front of the token, and the token is one that code cannot read. In
markup the blank is a token, and nothing is wrong. So a change of the mode takes away the piece of
trivia and the diagnostic, and going back to the mark does not bring them back. -/
theorem attempt_loses_look :
    let σ : Session := { stream := .ofSource [' ', '~'] .code }
    (σ.step .mark).Keeps (σ.marks.length + 1) [.move (.relex .markup)] ∧
      (σ.attempt [.move (.relex .markup)]).stream.trivia ≠ σ.stream.trivia ∧
      (σ.attempt [.move (.relex .markup)]).stream.scanner.diagnostics ≠
        σ.stream.scanner.diagnostics := by
  decide

end Session

end TypstFormat
