import TypstFormat.Layout.Document
import TypstFormat.Proofs.Layout.Mark

/-!
# Actions of the layout

`Writes x Q` says that an action of the layout has a result of which `Q` holds, unless indentations
are so wide that no text can hold them. What an action does with white space depends on the text
that came before, but all it can do is to leave something out. So it is enough to know that what is
written is blank.

## Key results

- `Writes.bind`: one action after the other
- `emit_writes`, `indent_writes`, `space_writes`, `parbreak_writes`: white space stays white space
-/

namespace TypstFormat

namespace Render

theorem run_bind_of_ok {x : Render α} {f : α → Render β} {context after : Context} {a : α}
    (h : x.run context = .ok (a, after)) : (x >>= f).run context = (f a).run after := by
  rw [StateT.run_bind, h]
  rfl

theorem run_bind_of_error {x : Render α} {f : α → Render β} {context : Context}
    {error : LayoutError} (h : x.run context = .error error) :
    (x >>= f).run context = .error error := by
  rw [StateT.run_bind, h]
  rfl

/-- The action has a result of which `Q` holds, and keeps the options, unless an indentation is too
wide. -/
def Writes (x : Render α) (Q : α → Prop) : Prop :=
  ∀ context : Context,
    (∃ a context', x.run context = .ok (a, context') ∧ context'.options = context.options ∧ Q a) ∨
    (maxTextLength < context.options.indentWidth ∧ x.run context = .error .wideIndent)

namespace Writes

variable {x : Render α} {f : α → Render β} {P : α → Prop} {Q : β → Prop}

theorem pure {b : β} (h : Q b) : Writes (Pure.pure b : Render β) Q :=
  fun context => .inl ⟨b, context, rfl, rfl, h⟩

theorem bind (hx : Writes x P) (hf : ∀ a, P a → Writes (f a) Q) : Writes (x >>= f) Q := by
  intro context
  rcases hx context with ⟨a, context', hrun, hoptions, ha⟩ | ⟨hwide, hrun⟩
  · -- The options are still the same, so an indentation is too wide for both or for neither.
    rw [run_bind_of_ok hrun, ← hoptions]
    exact hf a ha context'
  · exact .inr ⟨hwide, run_bind_of_error hrun⟩

theorem mono {y : Render β} {R : β → Prop} (hy : Writes y R) (h : ∀ b, R b → Q b) : Writes y Q := by
  intro context
  rcases hy context with ⟨b, context', hrun, hoptions, hb⟩ | hwide
  · exact .inl ⟨b, context', hrun, hoptions, h b hb⟩
  · exact .inr hwide

/-- An action may look at the context. -/
theorem get {f : Context → Render β} (h : ∀ context, Writes (f context) Q) :
    Writes (MonadState.get >>= f) Q :=
  fun context => h context context

end Writes

/-! ## White space -/

theorem reset_writes : Writes reset fun _ => True :=
  fun context => .inl ⟨(), context.reset, rfl, rfl, trivial⟩

theorem note_writes (notice : Notice) : Writes (note notice) fun _ => True :=
  fun context => .inl ⟨(), context.note notice, rfl, rfl, trivial⟩

theorem emit_writes {text : List Char} (h : Blank text) : Writes (emit text) Blank := by
  intro context
  left
  refine ⟨(context.emit text).1, (context.emit text).2, rfl, ?_, ?_⟩
  · unfold Context.emit
    split
    · split <;> rfl
    · split <;> rfl
    · rfl
  · unfold Context.emit
    split
    · split
      · exact .nil
      · exact h
    · split
      · exact h
      · exact .nil
    · exact h

theorem indent_writes : Writes indent Blank := by
  intro context
  by_cases h : context.options.indentWidth ≤ maxTextLength
  · left
    refine ⟨List.replicate context.options.indentWidth ' ', context, ?_, rfl, ?_⟩
    · show (if context.options.indentWidth ≤ maxTextLength then _ else _ : Render _).run _ = _
      rw [if_pos h]
      rfl
    · intro c hc
      rw [List.eq_of_mem_replicate hc]
      rfl
  · right
    refine ⟨Nat.lt_of_not_le h, ?_⟩
    show (if context.options.indentWidth ≤ maxTextLength then _ else _ : Render _).run _ = _
    rw [if_neg h]
    rfl

theorem emitNewlines_writes (n : Nat) : Writes (emitNewlines n) Blank := by
  induction n with
  | zero => exact .pure .nil
  | succ n ih =>
    apply Writes.bind (emit_writes (.cons rfl .nil))
    intro first hfirst
    apply Writes.bind ih
    intro rest hrest
    exact .pure (hfirst.append hrest)

end Render

namespace Layout

open Render

/-- The indentation of the next line is kept, and it is the end of the white space. -/
theorem space_writes {text : List Char} (h : Blank text) : Writes (space text) Blank := by
  unfold space
  extract_lets lines breaks indentation
  split
  · exact .pure (.cons rfl .nil)
  · apply Writes.bind (emitNewlines_writes _)
    intro newlines hnewlines
    apply Writes.pure
    apply hnewlines.append
    unfold indentation
    split
    · exact .nil
    · -- The indentation is the last line of the white space, and so is part of it.
      intro c hc
      cases hlast : lines.getLast? with
      | none =>
        rw [hlast] at hc
        cases hc
      | some line =>
        rw [hlast] at hc
        apply h
        rw [← Text.flatten_splitLines text]
        exact List.mem_flatten.2 ⟨line, List.mem_of_getLast? hlast, hc⟩

theorem parbreak_writes (text : List Char) : Writes (parbreak text) Blank :=
  emitNewlines_writes _

end Layout

end TypstFormat
