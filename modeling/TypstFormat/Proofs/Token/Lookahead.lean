import TypstFormat.Proofs.Token.Stream
import Mathlib.Logic.Function.Iterate

/-!
# Looking ahead

To see a token that is not current yet, the scanner of a stream scans on to it and then goes back.
This leaves no trace: the diagnostics of what it has passed are forgotten with it, and are found
again when the tokens are consumed. What it has seen is what will be current then.

## Key results

- `peek_eq`: looking ahead leaves a stream as it was
- `peek_eq_bumps`: `n` tokens ahead lies what is current when `n` tokens have been consumed
-/

namespace TypstFormat

namespace Stream

/-! ## There and back -/

/-- A scanner that scans on finds what lies ahead. -/
theorem scanAhead_fst (n : Nat) (s : Scanner) :
    ((scanAhead n s).1, (scanAhead n s).2.1) = ahead n s := by
  induction n generalizing s with
  | zero => rfl
  | succ n ih =>
    unfold scanAhead ahead
    by_cases hend : s.significant.2.1.kind = .eof
    · simp only [if_pos hend]
    · simp only [if_neg hend]
      exact ih _

/-- A scanner that scans on only adds to what it has found. -/
theorem grown_scanAhead (n : Nat) (s : Scanner) :
    (scanAhead n s).2.2.source = s.source ∧ s.findings <:+ (scanAhead n s).2.2.findings := by
  -- One significant token adds what was found up to it in front, in the same source.
  have hone (s : Scanner) :
      s.significant.2.2.source = s.source ∧ s.findings <:+ s.significant.2.2.findings := by
    rw [s.significant_eq]
    exact ⟨rfl, List.suffix_append _ _⟩
  induction n generalizing s with
  | zero => exact hone s
  | succ n ih =>
    unfold scanAhead
    by_cases hend : s.significant.2.1.kind = .eof
    · simp only [if_pos hend]
      exact hone s
    · simp only [if_neg hend]
      obtain ⟨hsource, hfindings⟩ := ih s.significant.2.2
      exact ⟨hsource.trans (hone s).1, (hone s).2.trans hfindings⟩

/-- The scanner that looks ahead comes back to where it stood, with nothing found on the way. -/
theorem peek_eq (s : Stream) (n : Nat) : s.peek n = (s.lookahead n, s) := by
  cases n with
  | zero => rfl
  | succ n =>
    obtain ⟨hsource, hfindings⟩ := grown_scanAhead n s.scanner
    have hback := scanner_rewind_mark hsource hfindings
    rw [lookahead_add_one, ← scanAhead_fst]
    unfold peek
    simp only [hback]

/-! ## What will be current -/

/-- What a stream shows of its current token. -/
def shown (s : Stream) : Lookahead :=
  ⟨s.current, s.afterTrivia, s.afterLineBreak⟩

/-- What lies ahead is what will be current, also if the text ends before. -/
theorem lookahead_eq_shown {s : Stream} (h : s.kind ≠ .eof) (n : Nat) :
    s.lookahead n = (bump^[n] s).shown := by
  induction n generalizing s with
  | zero => rfl
  | succ n ih =>
    rw [Function.iterate_succ_apply]
    by_cases hend : s.bump.kind = .eof
    · -- The next token is the end of the text, which stays current.
      rw [Function.iterate_fixed (bump_of_eof hend), lookahead_of_eof h hend]
      exact lookahead_one h
    · rw [← ih hend]
      cases n with
      | zero => exact lookahead_one h
      | succ n => exact lookahead_succ h hend n

/-- In front of the end of the text, looking `n` tokens ahead shows the token that is current when
`n` tokens have been consumed, and what stands in front of it. It stops at the end of the text, as
consuming does. The stream is left as it was: nothing is consumed or recorded, the scanner stands
where it stood, and what it found wrong on the way is not reported. -/
theorem peek_eq_bumps (s : Stream) (h : s.kind ≠ .eof) (n : Nat) :
    s.peek n =
      (⟨(bump^[n] s).current, (bump^[n] s).afterTrivia, (bump^[n] s).afterLineBreak⟩, s) := by
  rw [peek_eq, lookahead_eq_shown h]
  rfl

/-- Behind the token stand a comment that lacks its end and the end of the text. -/
theorem peek_eq_bumps_comment :
    (ofSource ['a', ' ', '/', '*'] .code).kind ≠ .eof ∧
      (ofSource ['a', ' ', '/', '*'] .code).peek 3 =
        (⟨Token.eof 4, true, false⟩, ofSource ['a', ' ', '/', '*'] .code) := by
  refine ⟨by decide, ?_⟩
  rw [peek_eq_bumps (ofSource ['a', ' ', '/', '*'] .code) (by decide) 3]
  rfl

end Stream

end TypstFormat
