import Mathlib.Data.List.TakeWhile
import TypstFormat.Layout.Context

/-!
# What a context remembers

A context is used by calls: a text is to be written through `emit`, or it was written without asking
and the context is told so by `reset`. A `Trace` is a context in use, together with all that was
written. What the context remembers is whether a space was written and how many line feeds were, and
both are counted from the last text that was neither: a line feed does not end the state behind a
space, nor a space a run of line feeds.

So its two fields are what their names say, the last emission was a space and so many line feeds
were the last ones, as long as only one of the two was written since other text.

## Key results

- `Context.Trace.Counts.call`, `Context.Trace.Counts.calls`: one call, and a run of them
- `Context.Trace.Counts.documented_iff`: when the fields are what their names say
- `Context.counts_of_calls`: both, for all calls of a fresh context
-/

namespace TypstFormat

/-- What is written by one call of a context. -/
inductive Emission where
  | space
  | newline
  /-- Any other text, or one that was written without asking. -/
  | other
  deriving DecidableEq, Repr

namespace Emission

def ofText : List Char → Emission
  | [' '] => space
  | ['\n'] => newline
  | _ => other

end Emission

namespace Context

inductive Call where
  /-- A text is to be written. -/
  | emit (text : List Char) (nonempty : text ≠ [])
  /-- Text was written without asking. -/
  | reset
  deriving Repr

/-- A context in use. -/
structure Trace where
  context : Context
  /-- What was written, the latest first. -/
  emissions : List Emission := []
  deriving Repr

namespace Trace

/-- Nothing is written for a space or a line feed that is suppressed. -/
def call (trace : Trace) : Call → Trace
  | .emit text _ =>
    let result := trace.context.emit text
    { context := result.2
      emissions :=
        if result.1 = [] then trace.emissions else .ofText result.1 :: trace.emissions }
  | .reset => { context := trace.context.reset, emissions := .other :: trace.emissions }

def calls (trace : Trace) (calls : List Call) : Trace :=
  calls.foldl call trace

/-- The spaces and line feeds since the last other text, the latest first. -/
def recent (trace : Trace) : List Emission :=
  trace.emissions.takeWhile (· ≠ .other)

theorem recent_cons {trace after : Trace} {emission : Emission}
    (h : after.emissions = emission :: trace.emissions) :
    after.recent = if emission = .other then [] else emission :: trace.recent := by
  unfold recent
  rw [h, List.takeWhile_cons]
  by_cases hother : emission = .other <;> simp [hother]

/-- The context says whether there was a space, and how many line feeds there were, since the last
other text. -/
structure Counts (trace : Trace) : Prop where
  count_space : trace.recent.count .space = trace.context.afterSpace.toNat
  count_newline : trace.recent.count .newline = trace.context.newlines
  newlines_le : trace.context.newlines ≤ maxNewlines

/-- The fields of the context are what their names say: whether the last emission was a space, and
how many line feeds there were since anything else was emitted. -/
structure Documented (trace : Trace) : Prop where
  afterSpace_iff : trace.context.afterSpace = true ↔ trace.emissions.head? = some .space
  newlines_eq : trace.context.newlines = (trace.emissions.takeWhile (· = .newline)).length
  newlines_le : trace.context.newlines ≤ maxNewlines

/-! ## One call -/

/-- What a call can do. -/
inductive Changes (trace after : Trace) : Prop where
  | space (was : trace.context.afterSpace = false) (is : after.context.afterSpace = true)
    (newlines : after.context.newlines = trace.context.newlines)
    (emissions : after.emissions = .space :: trace.emissions)
  | newline (few : trace.context.newlines < maxNewlines)
    (newlines : after.context.newlines = trace.context.newlines + 1)
    (afterSpace : after.context.afterSpace = trace.context.afterSpace)
    (emissions : after.emissions = .newline :: trace.emissions)
  | other (afterSpace : after.context.afterSpace = false) (newlines : after.context.newlines = 0)
    (emissions : after.emissions = .other :: trace.emissions)
  | suppressed (afterSpace : after.context.afterSpace = trace.context.afterSpace)
    (newlines : after.context.newlines = trace.context.newlines)
    (emissions : after.emissions = trace.emissions)

theorem changes (trace : Trace) (use : Call) : trace.Changes (trace.call use) := by
  cases use with
  | reset => exact .other rfl rfl rfl
  | emit text nonempty =>
    unfold call
    dsimp only
    unfold Context.emit
    split
    · split
      · exact .suppressed rfl rfl rfl
      · rename_i hspace
        exact .space (eq_false_of_ne_true hspace) rfl rfl rfl
    · split
      · rename_i hfew
        exact .newline hfew rfl rfl rfl
      · exact .suppressed rfl rfl rfl
    · rename_i hspace hnewline
      have htext : Emission.ofText text = .other := by
        unfold Emission.ofText
        split
        · exact absurd rfl hspace
        · exact absurd rfl hnewline
        · rfl
      simp only [if_neg nonempty, htext]
      exact .other rfl rfl rfl

namespace Counts

variable {trace after : Trace}

theorem fresh (options : Options) : Counts { context := { options } } :=
  ⟨rfl, rfl, Nat.zero_le _⟩

/-- One call keeps the counts. -/
theorem call (h : trace.Counts) (use : Call) : (trace.call use).Counts := by
  have hspace := h.count_space
  have hnewline := h.count_newline
  have hle := h.newlines_le
  cases trace.changes use with
  | space was is newlines emissions =>
    rw [was] at hspace
    refine ⟨?_, ?_, by omega⟩ <;> rw [recent_cons emissions]
    · simp [hspace, is]
    · simp [hnewline, newlines]
  | newline few newlines afterSpace emissions =>
    refine ⟨?_, ?_, by omega⟩ <;> rw [recent_cons emissions]
    · simp [hspace, afterSpace]
    · simp [hnewline, newlines]
  | other afterSpace newlines emissions =>
    refine ⟨?_, ?_, by omega⟩ <;> rw [recent_cons emissions]
    · simp [afterSpace]
    · simp [newlines]
  | suppressed afterSpace newlines emissions =>
    refine ⟨?_, ?_, by omega⟩ <;> unfold recent <;> rw [emissions]
    · exact hspace.trans (by rw [afterSpace])
    · exact hnewline.trans newlines.symm

/-- And so does a run of calls. -/
theorem calls (h : trace.Counts) (uses : List Call) : (trace.calls uses).Counts := by
  induction uses generalizing trace with
  | nil => exact h
  | cons use uses ih => exact ih (h.call use)

theorem afterSpace_iff_mem (h : trace.Counts) :
    trace.context.afterSpace = true ↔ .space ∈ trace.recent := by
  rw [← List.count_pos_iff, h.count_space]
  cases trace.context.afterSpace <;> decide

/-- What is emitted last is recent, unless it is other text. -/
theorem mem_recent {emission : Emission} (hlast : trace.emissions.head? = some emission)
    (hother : emission ≠ .other) : emission ∈ trace.recent := by
  refine List.mem_of_mem_head? ?_
  unfold recent
  rw [List.head?_takeWhile, hlast]
  simp [hother]

theorem eq_of_mem_recent {emission : Emission} (h : emission ∈ trace.recent) :
    emission = .space ∨ emission = .newline := by
  have hother := List.mem_takeWhile_imp h
  cases emission with
  | space => exact .inl rfl
  | newline => exact .inr rfl
  | other => cases hother

/-- The line feeds at the end are among what is recent. -/
theorem takeWhile_recent :
    trace.recent.takeWhile (· = .newline) = trace.emissions.takeWhile (· = .newline) := by
  unfold recent
  rw [List.takeWhile_takeWhile]
  congr 1
  funext emission
  cases emission <;> decide

/-- The fields are what their names say unless both spaces and line feeds were written since other
text. -/
theorem documented_iff (h : trace.Counts) :
    trace.Documented ↔ ¬(.space ∈ trace.recent ∧ .newline ∈ trace.recent) := by
  constructor
  · -- The last emission is a space, so no line feed is counted behind it.
    rintro hdocumented ⟨hspace, hnewline⟩
    have hlast := hdocumented.afterSpace_iff.1 (h.afterSpace_iff_mem.2 hspace)
    obtain ⟨rest, hemissions⟩ := List.head?_eq_some_iff.1 hlast
    have hnone : trace.context.newlines = 0 := by
      rw [hdocumented.newlines_eq, hemissions]
      rfl
    have hsome := List.count_pos_iff.2 hnewline
    rw [h.count_newline] at hsome
    omega
  · intro hmixed
    refine ⟨⟨fun hafter => ?_, fun hlast => ?_⟩, ?_, h.newlines_le⟩
    · -- All that is recent is spaces, and so is what comes last.
      have hspace := h.afterSpace_iff_mem.1 hafter
      obtain ⟨last, rest, hrecent⟩ := List.exists_cons_of_ne_nil (List.ne_nil_of_mem hspace)
      have hlast : last ∈ trace.recent := by simp [hrecent]
      have hhead : trace.recent.head? = some last := by rw [hrecent]; rfl
      unfold recent at hhead
      rw [List.head?_takeWhile, Option.filter_eq_some_iff] at hhead
      rcases eq_of_mem_recent hlast with rfl | rfl
      · exact hhead.1
      · exact absurd ⟨hspace, hlast⟩ hmixed
    · exact h.afterSpace_iff_mem.2 (mem_recent hlast (by decide))
    · rw [← takeWhile_recent, ← h.count_newline]
      by_cases hnewline : .newline ∈ trace.recent
      · -- All that is recent is line feeds.
        have hall : ∀ emission ∈ trace.recent, emission = .newline := fun emission hemission =>
          (eq_of_mem_recent hemission).resolve_left fun heq =>
            hmixed ⟨heq ▸ hemission, hnewline⟩
        rw [List.takeWhile_eq_self_iff.2 fun emission hemission =>
          decide_eq_true (hall emission hemission)]
        exact List.count_eq_length.2 fun emission hemission => (hall emission hemission).symm
      · rw [List.count_eq_zero.2 hnewline]
        cases hrecent : trace.recent with
        | nil => rfl
        | cons last rest =>
          have hlast : last ≠ .newline := fun heq => hnewline (by simp [hrecent, heq])
          rw [List.takeWhile_cons_of_neg (by simpa using hlast), List.length_nil]

end Counts

end Trace

/-- However a context is used, it remembers whether a space was written and how many line feeds were
since other text, and these are never more than two. It remembers what was written last exactly as
long as these are not mixed. -/
theorem counts_of_calls (options : Options) (uses : List Call) :
    let trace := Trace.calls { context := { options } } uses
    trace.Counts ∧
      (trace.Documented ↔ ¬(.space ∈ trace.recent ∧ .newline ∈ trace.recent)) :=
  have h := (Trace.Counts.fresh options).calls uses
  ⟨h, h.documented_iff⟩

/-- Behind a space and a line feed, the context still is behind a space. -/
theorem not_documented_of_mixed :
    ¬(Trace.calls { context := {} }
      [.emit [' '] (by decide), .emit ['\n'] (by decide)]).Documented := by
  intro h
  have hlast := h.afterSpace_iff.1 rfl
  cases hlast

end Context

end TypstFormat
