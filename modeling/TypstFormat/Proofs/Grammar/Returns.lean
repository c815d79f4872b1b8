import TypstFormat.Grammar.Node

/-!
# Actions that return

`Returns x p Q` says that the action `x`, run on the parser `p`, does not fail, and that `Q` holds
of its result and of the parser afterwards. There is one rule for each way in which actions are put
together. A loop returns if each round that goes on leaves less of the source than there was before,
and all rounds keep an invariant.

## Key results

- `Returns.bind`: one action after the other
- `Returns.loop`: a loop whose rounds consume something
-/

namespace TypstFormat

/-- How much of the source lies behind the last token consumed. -/
def Parser.left (p : Parser) : Nat :=
  p.source.length - p.stream.consumed

namespace Parse

/-- Run on `p`, the action returns a result, and `Q` holds of it and of the parser afterwards. -/
def Returns (x : Parse α) (p : Parser) (Q : α → Parser → Prop) : Prop :=
  ∃ a p', x p = .ok (a, p') ∧ Q a p'

/-- One action after the other returns only if both do. -/
theorem bind_eq_ok {x : Parse α} {f : α → Parse β} {b : β} {p p'' : Parser}
    (h : (x >>= f) p = .ok (b, p'')) :
    ∃ a p', x p = .ok (a, p') ∧ f a p' = .ok (b, p'') := by
  have h : (x p >>= fun r => f r.1 r.2) = .ok (b, p'') := h
  cases hx : x p with
  | error e =>
    rw [hx] at h
    cases h
  | ok r =>
    rw [hx] at h
    exact ⟨r.1, r.2, rfl, h⟩

namespace Returns

variable {p : Parser} {x : Parse α} {f : α → Parse β} {Q : β → Parser → Prop}

theorem pure {a : β} (h : Q a p) : Returns (Pure.pure a : Parse β) p Q :=
  ⟨a, p, rfl, h⟩

theorem bind {R : α → Parser → Prop} (hx : Returns x p R)
    (hf : ∀ a p', R a p' → Returns (f a) p' Q) : Returns (x >>= f) p Q := by
  obtain ⟨a, p', hrun, hR⟩ := hx
  obtain ⟨b, p'', hrun', hQ⟩ := hf a p' hR
  refine ⟨b, p'', ?_, hQ⟩
  show (x p >>= fun r => f r.1 r.2) = _
  rw [hrun]
  exact hrun'

theorem pure_bind {a : α} (h : Returns (f a) p Q) : Returns (Pure.pure a >>= f) p Q :=
  h

/-- An action whose run is known. -/
theorem run {a : α} {p' : Parser} (hx : x p = .ok (a, p')) (hf : Returns (f a) p' Q) :
    Returns (x >>= f) p Q := by
  refine bind (R := fun b q => b = a ∧ q = p') ⟨a, p', hx, rfl, rfl⟩ ?_
  rintro _ _ ⟨rfl, rfl⟩
  exact hf

theorem mono {y : Parse β} {R : β → Parser → Prop} (hy : Returns y p R)
    (h : ∀ b p', R b p' → Q b p') : Returns y p Q := by
  obtain ⟨b, p', hrun, hR⟩ := hy
  exact ⟨b, p', hrun, h b p' hR⟩

/-- What an action that returns must return is what it does return. -/
theorem eq_ok {y : Parse β} {b : β} {p' : Parser}
    (h : Returns y p fun a q => a = b ∧ q = p') : y p = .ok (b, p') := by
  obtain ⟨_, _, hrun, rfl, rfl⟩ := h
  exact hrun

/-! ## Reading and changing the parser -/

theorem ask {g : Parser → α} (h : Returns (f (g p)) p Q) : Returns (Parse.ask g >>= f) p Q :=
  bind (R := fun a p' => a = g p ∧ p' = p) ⟨g p, p, rfl, rfl, rfl⟩ fun _ _ h' => by
    obtain ⟨rfl, rfl⟩ := h'
    exact h

theorem get {f : Parser → Parse β} (h : Returns (f p) p Q) :
    Returns (MonadState.get >>= f) p Q :=
  bind (R := fun a p' => a = p ∧ p' = p) ⟨p, p, rfl, rfl, rfl⟩ fun _ _ h' => by
    obtain ⟨rfl, rfl⟩ := h'
    exact h

theorem of_modify {g : Parser → Parser} {Q : PUnit → Parser → Prop} (h : Q () (g p)) :
    Returns (modify g : Parse PUnit) p Q :=
  ⟨(), g p, rfl, h⟩

theorem modified {g : Parser → Parser} {f : PUnit → Parse β} (h : Returns (f ()) (g p) Q) :
    Returns (modify g >>= f) p Q :=
  bind (R := fun _ p' => p' = g p) (of_modify rfl) fun _ _ h' => by
    subst h'
    exact h

theorem of_set {p' : Parser} {Q : PUnit → Parser → Prop} (h : Q () p') :
    Returns (set p' : Parse PUnit) p Q :=
  ⟨(), p', rfl, h⟩

/-- The start at an index is read. -/
theorem startAt {f : Kind × Option Int → Parse β} {index : Nat} {kind : Kind} {link : Option Int}
    (hevent : p.events[index]? = some (.start kind link)) (h : Returns (f (kind, link)) p Q) :
    Returns (Parse.startAt index >>= f) p Q := by
  have hstart : Returns (Parse.startAt index) p fun a p' => a = (kind, link) ∧ p' = p := by
    refine .get ?_
    rw [hevent]
    exact .pure ⟨rfl, rfl⟩
  refine .bind hstart ?_
  rintro _ _ ⟨rfl, rfl⟩
  exact h

/-! ## Loops -/

/-- What is known after one round of a loop: it went on, or it was done. -/
def Round (I : σ → Parser → Prop) (Q : α → Parser → Prop) (p : Parser) (r : σ ⊕ α) (p' : Parser) :
    Prop :=
  match r with
  | .inl s => I s p' ∧ p'.left < p.left
  | .inr a => Q a p'

theorem iterate {σ : Type} {step : σ → Parse (σ ⊕ β)} {I : σ → Parser → Prop}
    (hstep : ∀ s p, I s p → Returns (step s) p (Round I Q p)) (fuel : Nat) {s : σ} {p : Parser}
    (h : I s p) (hfuel : p.left < fuel) : Returns (Parse.iterate fuel step s) p Q := by
  induction fuel generalizing s p with
  | zero => exact absurd hfuel (Nat.not_lt_zero _)
  | succ fuel ih =>
    -- A round that goes on takes at least as much from the source as it takes from the fuel.
    refine bind (hstep s p h) fun r p' hr => ?_
    cases r with
    | inl s' => exact ih hr.1 (Nat.lt_of_lt_of_le hr.2 (Nat.le_of_lt_succ hfuel))
    | inr b => exact pure hr

/-- A loop returns if every round keeps an invariant and, if it is not the last one, leaves less of
the source. -/
theorem loop {σ : Type} {step : σ → Parse (σ ⊕ β)} {s : σ} (I : σ → Parser → Prop) (h : I s p)
    (hstep : ∀ s p, I s p → Returns (step s) p (Round I Q p)) :
    Returns (Parse.loop step s) p Q := by
  refine get (iterate hstep _ h ?_)
  unfold Parser.left
  omega

end Returns

end Parse

end TypstFormat
