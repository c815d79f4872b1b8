import TypstFormat.Proofs.Layers.Nested
import TypstFormat.Proofs.Twin.Keeps

/-!
# Actions that leave what they enter

`Ensures P x Q` says that wherever `P` holds and the action `x` returns, `Q` holds of its result and
of the parser afterwards. It says nothing of runs that fail, so it can be proved of an action on any
parser at all. There is one rule for each way in which actions are put together, and one for each
action that enters or leaves a layer. An action `Restores` if it leaves all layers that it enters.

## Key results

- `Ensures.bind`, `Ensures.loop`: actions that are put together
- `Ensures.start`, `Ensures.finish`, `Ensures.wrap`, `Ensures.dissolve`: nodes
- `Ensures.enterMode`, `Ensures.leaveMode`, `Ensures.enterBreakRule`, `Ensures.leaveBreakRule`
- `restores_bump`, `restores_expect`, ...: actions that enter nothing
-/

namespace TypstFormat

open Parse Draft TypstFormat.Parser

/-- Wherever `P` holds and the action returns, `Q` holds of the result and the parser afterwards. -/
def Ensures (P : Parser → Prop) (x : Parse α) (Q : α → Parser → Prop) : Prop :=
  ∀ p a q, P p → x p = .ok (a, q) → Q a q

/-- The action leaves the layers as it finds them, whatever they are. -/
def Restores (x : Parse α) : Prop :=
  ∀ p layers, Ensures (Nested p layers) x fun _ => Nested p layers

namespace Ensures

variable {P : Parser → Prop} {x : Parse α} {f : α → Parse β} {Q : β → Parser → Prop}

/-! ## Actions that are put together -/

theorem pure {b : β} (h : ∀ p, P p → Q b p) : Ensures P (Pure.pure b : Parse β) Q := by
  intro p b' q hp hrun
  cases hrun
  exact h p hp

theorem bind {R : α → Parser → Prop} (hx : Ensures P x R) (hf : ∀ a, Ensures (R a) (f a) Q) :
    Ensures P (x >>= f) Q := by
  intro p b r hp hrun
  obtain ⟨a, q, hx', hf'⟩ := bind_eq_ok hrun
  exact hf a q b r (hx p a q hp hx') hf'

/-- What comes first has no result that matters. -/
theorem seq {R : Parser → Prop} {y : Parse β} (hx : Ensures P x fun _ => R) (hy : Ensures R y Q) :
    Ensures P (x >>= fun _ => y) Q :=
  hx.bind fun _ => hy

/-- Nothing more is to be done. -/
theorem done {b : β} : Ensures P (Pure.pure b : Parse β) fun _ => P :=
  pure fun _ h => h

theorem throw (error : ParseError) : Ensures P (MonadExcept.throw error : Parse β) Q := by
  intro p b q _ hrun
  cases hrun

theorem pre {R : Parser → Prop} {y : Parse β} (hy : Ensures R y Q) (h : ∀ p, P p → R p) :
    Ensures P y Q :=
  fun p b q hp hrun => hy p b q (h p hp) hrun

theorem post {R : β → Parser → Prop} {y : Parse β} (hy : Ensures P y R)
    (h : ∀ b p, R b p → Q b p) : Ensures P y Q :=
  fun p b q hp hrun => h b q (hy p b q hp hrun)

/-- The parser is asked something. -/
theorem ask {g : Parser → α} (h : ∀ a, Ensures P (f a) Q) : Ensures P (Parse.ask g >>= f) Q := by
  refine bind (R := fun _ => P) ?_ h
  intro p a q hp hrun
  cases hrun
  exact hp

theorem get {f : Parser → Parse β} (h : ∀ p, Ensures P (f p) Q) :
    Ensures P (MonadState.get >>= f) Q :=
  ask (g := id) h

theorem ite {y z : Parse β} (c : Prop) [Decidable c] (hy : Ensures P y Q) (hz : Ensures P z Q) :
    Ensures P (if c then y else z) Q := by
  split
  · exact hy
  · exact hz

theorem iterate {σ : Type} {step : σ → Parse (σ ⊕ β)} {I : σ → Parser → Prop}
    (hstep : ∀ s, Ensures (I s) (step s) (Sum.elim I Q)) (fuel : Nat) (s : σ) :
    Ensures (I s) (Parse.iterate fuel step s) Q := by
  induction fuel generalizing s with
  | zero => exact throw _
  | succ fuel ih =>
    refine bind (hstep s) fun r => ?_
    cases r with
    | inl s' => exact ih s'
    | inr b => exact pure fun _ h => h

/-- What every round of a loop keeps holds when the loop is done. -/
theorem loop {σ : Type} {step : σ → Parse (σ ⊕ β)} {I : σ → Parser → Prop}
    (hstep : ∀ s, Ensures (I s) (step s) (Sum.elim I Q)) (s : σ) :
    Ensures (I s) (Parse.loop step s) Q :=
  get fun _ => iterate hstep _ s

end Ensures

theorem Restores.run {x : Parse α} {p : Parser} {layers : List Layer} (h : Restores x) :
    Ensures (Nested p layers) x fun _ => Nested p layers :=
  h p layers

/-- An action that restores does not matter to what comes behind it. -/
theorem Restores.seq {x : Parse α} {y : Parse β} {p : Parser} {layers : List Layer}
    {Q : β → Parser → Prop} (hx : Restores x) (hy : Ensures (Nested p layers) y Q) :
    Ensures (Nested p layers) (x >>= fun _ => y) Q :=
  hx.run.seq hy

/-- An action that restores, of which another result is given. -/
theorem Restores.returning {x : Parse α} (hx : Restores x) (b : β) :
    Restores (x >>= fun _ => Pure.pure b) :=
  fun _ _ => hx.seq .done

/-- What an action that restores has written since it was called. -/
theorem Restores.writes {x : Parse α} {a : α} {p q : Parser} (h : Restores x)
    (hrun : x p = .ok (a, q)) : ∃ drafts, Writes p drafts q := by
  cases h p [] p a q (.refl p) hrun with
  | ground hwrites => exact ⟨_, hwrites⟩

/-- An action restores if all that it writes is drafts, wherever it runs. -/
theorem restores_of_writes {x : Parse α}
    (h : ∀ p a q, x p = .ok (a, q) → ∃ drafts, Writes p drafts q) : Restores x := by
  intro p layers q a r hlayers hrun
  obtain ⟨drafts, hwrites⟩ := h q a r hrun
  exact hlayers.write hwrites

theorem Restores.loop {σ : Type} {step : σ → Parse (σ ⊕ α)} (hstep : ∀ s, Restores (step s))
    (s : σ) : Restores (Parse.loop step s) := by
  intro p layers
  refine Ensures.loop (I := fun _ => Nested p layers) (fun s => ?_) s
  refine (hstep s p layers).post fun r q h => ?_
  cases r <;> exact h

/-- Going back to a mark, with nothing entered since, leads back into the layers that were around
it. -/
theorem Ensures.rewind {p q : Parser} {layers : List Layer} (h : Nested p layers q) :
    Ensures (Nested q []) (modify (·.rewind q.mark) : Parse PUnit) fun _ => Nested p layers := by
  intro r a r' hr hrun
  cases hr with
  | ground hwrites =>
    cases hrun
    exact h.write hwrites.rewind

/-! ## Modes and rules for line breaks -/

namespace Ensures

variable {p : Parser} {layers : List Layer}

theorem enterMode (mode : Mode) :
    Ensures (Nested p layers) (enterMode mode) fun _ => Nested p (.mode :: layers) := by
  intro q a r h hrun
  cases hrun
  exact .mode h (.refl _)

theorem leaveMode :
    Ensures (Nested p (.mode :: layers)) leaveMode fun _ => Nested p layers := by
  intro q a r h hrun
  cases h with
  | mode hlayers hwrites =>
    obtain ⟨hmodes, hleft⟩ := hwrites.leaveMode
    obtain ⟨q₁, q₂, hget, hset⟩ := bind_eq_ok hrun
    cases hget
    rw [hmodes] at hset
    cases hset
    exact hlayers.write hleft

theorem enterBreakRule (rule : BreakRule) :
    Ensures (Nested p layers) (enterBreakRule rule) fun _ => Nested p (.breakRule :: layers) := by
  intro q a r h hrun
  cases hrun
  exact .breakRule h (.refl _)

theorem leaveBreakRule :
    Ensures (Nested p (.breakRule :: layers)) leaveBreakRule fun _ => Nested p layers := by
  intro q a r h hrun
  cases h with
  | breakRule hlayers hwrites =>
    obtain ⟨hrules, hleft⟩ := hwrites.leaveBreakRule
    obtain ⟨q₁, q₂, hget, hset⟩ := bind_eq_ok hrun
    cases hget
    rw [hrules] at hset
    cases hset
    exact hlayers.write hleft

/-! ## Nodes -/

variable {node : Opening} {closed : Closed}

theorem start :
    Ensures (Nested p layers) start fun node => Nested p (.node node :: layers) := by
  intro q a r h hrun
  cases hrun
  exact .node h (.start q)

theorem finish {kind : Kind} (hkind : kind ≠ .tombstone) :
    Ensures (Nested p (.node node :: layers)) (node.finish kind) (Finished p layers) := by
  intro q a r h hrun
  cases h with
  | node hlayers hopened =>
    obtain ⟨⟨own, link⟩, q₁, hstart, hrest⟩ := bind_eq_ok hrun
    obtain ⟨rfl, hevent⟩ := startAt_eq_ok hstart
    rw [hopened.start_eq] at hevent
    cases hevent
    cases hrest
    exact ⟨_, _, hlayers, hopened.finish hkind⟩

theorem kind :
    Ensures (Finished p layers closed) closed.kind fun _ => Finished p layers closed := by
  intro q a r h hrun
  obtain ⟨found, q₁, hstart, hrest⟩ := bind_eq_ok hrun
  obtain ⟨rfl, -⟩ := startAt_eq_ok hstart
  cases hrest
  exact h

theorem rename {kind : Kind} (hkind : kind ≠ .tombstone) :
    Ensures (Finished p layers closed) (closed.rename kind) fun _ => Finished p layers closed := by
  intro q a r h hrun
  obtain ⟨q₀, draft, hlayers, hputs⟩ := h
  obtain ⟨⟨own, link⟩, q₁, hstart, hrest⟩ := bind_eq_ok hrun
  obtain ⟨rfl, hevent⟩ := startAt_eq_ok hstart
  rw [hputs.start_eq] at hevent
  cases hevent
  cases hrest
  exact ⟨q₀, _, hlayers, hputs.rename hkind⟩

theorem wrap :
    Ensures (Finished p layers closed) closed.wrap fun outer => Nested p (.node outer :: layers) := by
  intro q a r h hrun
  obtain ⟨q₀, draft, hlayers, hputs⟩ := h
  obtain ⟨hlt, hopened⟩ := hputs.wrap
  obtain ⟨outer, q₁, hstart, hrest⟩ := bind_eq_ok hrun
  cases hstart
  rw [if_neg (by show ¬q.events.size ≤ closed.index; omega)] at hrest
  obtain ⟨⟨own, link⟩, q₂, hown, hput⟩ := bind_eq_ok hrest
  obtain ⟨rfl, hevent⟩ := startAt_eq_ok hown
  have hevent : (q.events.push .tombstone)[closed.index]? = some (.start own link) := hevent
  rw [Array.getElem?_push_lt hlt, ← Array.getElem?_eq_getElem hlt, hputs.start_eq] at hevent
  cases hevent
  cases hput
  exact .node hlayers hopened

/-- The start of a node that is given up is dropped, or becomes void. -/
private theorem dropStart_eq_ok {q₀ q r : Parser} {inner : Option Draft} {drafts : List Draft}
    {a : Unit} (h : Opened q₀ inner drafts node q) (hrun : node.dropStart q = .ok (a, r)) :
    ∃ gap : List Draft, LinkedAll gap ∧ r = { q with events := r.events } ∧
      r.events.toList = q₀.events.toList ++ (wrapped inner ++ eventsAll (gap ++ drafts)) := by
  obtain ⟨before, hbefore, hlength, hevents⟩ := h.events_split
  have hsize : q.events.size = node.index + 1 + (eventsAll drafts).length := by
    rw [← Array.length_toList, hevents, List.length_append, List.length_cons, hlength]
    omega
  obtain ⟨q₁, q₂, hget, hrest⟩ := bind_eq_ok hrun
  cases hget
  split at hrest
  · -- The start is the last event, so nothing was written behind it.
    rename_i hlast
    have hnil : eventsAll drafts = [] := List.eq_nil_of_length_eq_zero (by omega)
    obtain ⟨⟨own, link⟩, q₁, hstart, hpop⟩ := bind_eq_ok hrest
    obtain ⟨hsame, hevent⟩ := startAt_eq_ok hstart
    rw [h.start_eq] at hevent
    cases hevent
    rw [hsame] at hpop
    cases hpop
    refine ⟨[], trivial, rfl, ?_⟩
    show q.events.pop.toList = _
    rw [Array.toList_pop, hevents, hnil, List.nil_append, hnil, List.dropLast_concat, hbefore,
      List.append_nil]
  · cases hrest
    refine ⟨[.void], ⟨trivial, trivial⟩, rfl, ?_⟩
    rw [hevents, hbefore, List.append_assoc]
    rfl

theorem dissolve :
    Ensures (Nested p (.node node :: layers)) node.dissolve fun _ => Nested p layers := by
  intro q a r h hrun
  cases h with
  | @node q₀ _ _ inner drafts _ hlayers hopened =>
    obtain ⟨_, q₁, hdrop, hrest⟩ := bind_eq_ok hrun
    obtain ⟨gap, hgap, heq, hevents⟩ := dropStart_eq_ok hopened hdrop
    obtain ⟨hinner, hdrafts⟩ := (linkedAll_append _ _).1 hopened.linked
    have hlinked : LinkedAll (inner.toList ++ (gap ++ drafts)) :=
      (linkedAll_append _ _).2 ⟨hinner, (linkedAll_append _ _).2 ⟨hgap, hdrafts⟩⟩
    have hagrees : Agrees q₀ q₁ := by
      rw [heq]
      exact ⟨hopened.mode_eq, hopened.modes_eq, hopened.breakRules_eq⟩
    rw [hopened.wraps_eq] at hrest
    cases inner with
    | none =>
      cases hrest
      exact hlayers.write ⟨hagrees, hlinked, hevents⟩
    | some draft =>
      -- The node that was to be wrapped loses its link again.
      have hnode := hopened.isNode draft rfl
      have hevents : q₁.events.toList = q₀.events.toList ++
          (draft.events (some (draft.span : Nat)) ++ eventsAll (gap ++ drafts)) := hevents
      have hstart : q₁.events[q₀.events.size + draft.head]? =
          some (.start draft.kind (some (draft.span : Nat))) := by
        rw [← Array.getElem?_toList, hevents, ← Array.length_toList]
        exact getElem?_start hnode q₀.events.toList _ _
      obtain ⟨⟨own, link⟩, q₂, hown, hput⟩ := bind_eq_ok hrest
      obtain ⟨rfl, hevent⟩ := startAt_eq_ok hown
      rw [hstart] at hevent
      cases hevent
      cases hput
      refine hlayers.write (show Writes q₀ (draft :: (gap ++ drafts)) _ from
        ⟨⟨hagrees.mode_eq, hagrees.modes_eq, hagrees.breakRules_eq⟩, hlinked, ?_⟩)
      show (q₂.events.setIfInBounds (q₀.events.size + draft.head)
        (.start draft.kind none)).toList = _
      rw [Array.toList_setIfInBounds, hevents, ← Array.length_toList, set_start hnode, rename_kind]
      rfl

/-- A node is finished, and nothing is done with it. -/
theorem finishOff {kind : Kind} (hkind : kind ≠ .tombstone) :
    Ensures (Nested p (.node node :: layers)) (node.finish kind) fun _ => Nested p layers :=
  (finish hkind).post fun _ _ h => h.nested

/-- A node is finished at last. -/
theorem finishLast {kind : Kind} (hkind : kind ≠ .tombstone) {b : β} :
    Ensures (Nested p (.node node :: layers)) (node.finish kind >>= fun _ => Pure.pure b)
      fun _ => Nested p layers :=
  bind (finishOff hkind) fun _ => pure fun _ h => h

/-- A node is finished and another one started around it. -/
theorem finishAndWrap {kind : Kind} (hkind : kind ≠ .tombstone) {f : Opening → Parse β}
    {Q : β → Parser → Prop} (hf : ∀ outer, Ensures (Nested p (.node outer :: layers)) (f outer) Q) :
    Ensures (Nested p (.node node :: layers)) (node.finish kind >>= fun closed => closed.wrap >>= f)
      Q :=
  bind (finish hkind) fun _ => bind wrap hf

end Ensures

/-! ## Actions that enter nothing -/

/-- An action that changes neither the events nor the mode nor a stack. -/
private theorem restores_modify {g : Parser → Parser} (hagrees : ∀ p, Agrees p (g p))
    (hevents : ∀ p, (g p).events = p.events) : Restores (modify g : Parse PUnit) := by
  refine restores_of_writes fun p a q hrun => ?_
  cases hrun
  exact ⟨[], hagrees p, trivial, by rw [hevents]; simp [eventsAll]⟩

/-- A token that is consumed is a draft. -/
private theorem writes_bumpAs (p : Parser) (asText : Bool) :
    ∃ drafts, Writes p drafts (p.bumpAs (if asText then .text else p.stream.kind)) := by
  unfold Parser.bumpAs
  split
  · exact ⟨[], .refl p⟩
  · exact ⟨[.token ⟨.markup, [], p.stream.current, []⟩ asText],
      ⟨Stream.mode_bump _, rfl, rfl⟩, ⟨trivial, trivial⟩, by
        simp [eventsAll, Draft.events, Parser.range, Stream.kind]⟩

theorem restores_bump : Restores bump :=
  restores_of_writes fun p _ _ hrun => by
    cases hrun
    exact writes_bumpAs p false

theorem restores_bumpText : Restores (modify (·.bumpAs .text) : Parse PUnit) :=
  restores_of_writes fun p _ _ hrun => by
    cases hrun
    exact writes_bumpAs p true

theorem restores_report (diagnostic : Diagnostic) : Restores (report diagnostic) := by
  refine restores_modify (fun p => ?_) fun p => ?_ <;> unfold Parser.report
  · split <;> exact ⟨rfl, rfl, rfl⟩
  · split <;> rfl

theorem restores_advance (progress : Progress) : Restores (advance progress) := by
  refine restores_of_writes fun p a q hrun => ⟨[], ?_⟩
  obtain ⟨p₁, p₂, hget, hrest⟩ := bind_eq_ok hrun
  cases hget
  dsimp only at hrest
  split at hrest
  · cases hrest
    exact .refl p
  · cases hrest

theorem restores_eat (kind : Kind) : Restores (eat kind) := by
  intro p layers
  refine Ensures.ask fun isThere => ?_
  refine Ensures.ite _ ?_ ?_
  · exact (restores_bump.returning true).run
  · exact Ensures.done

/-- A token is required, and something is done if it is missing. -/
private theorem restores_require {kind : Kind} {complain : Parse Bool}
    (hcomplain : Restores complain) : Restores (do
      if ← eat kind then
        return true
      else
        complain) := by
  intro p layers
  refine (restores_eat kind).run.bind fun isThere => ?_
  refine Ensures.ite _ ?_ ?_
  · exact Ensures.done
  · exact hcomplain.run

theorem restores_expect (kind : Kind) (description : Option String) :
    Restores (expect kind description) := by
  apply restores_require
  intro p layers
  refine Ensures.ask fun range => ?_
  exact ((restores_report _).returning false).run

theorem restores_expectClosing (opening : Text.Range) (kind : Kind) :
    Restores (expectClosing opening kind) :=
  restores_require ((restores_report _).returning false)

theorem restores_reportMissingExpression : Restores reportMissingExpression := by
  intro p layers
  refine Ensures.ask fun position => ?_
  exact (restores_report _).run

theorem restores_reportMissingSeparator : Restores reportMissingSeparator := by
  intro p layers
  refine Ensures.ask fun position => ?_
  exact (restores_report _).run

theorem restores_reportUnexpected : Restores reportUnexpected := by
  intro p layers
  refine Ensures.get fun q => ?_
  exact (restores_report _).run

theorem restores_recover {node : Kind} (hnode : node ≠ .tombstone) (safe : List Kind) :
    Restores (recover node safe) := by
  have hround (u : Unit) : Restores (do
      if (← isAtEnd) || (← isAtAny safe) then
        return .inr ()
      else
        bump
        return .inl () : Parse (Unit ⊕ Unit)) := by
    intro p layers
    refine Ensures.ask fun isLast => ?_
    refine Ensures.ask fun isSafe => ?_
    refine Ensures.ite _ ?_ ?_
    · exact Ensures.done
    · exact (restores_bump.returning _).run
  intro p layers
  refine Ensures.ask fun isLast => ?_
  refine Ensures.ite _ ?_ ?_
  · exact Ensures.done
  · refine Ensures.ask fun isSafe => ?_
    refine Ensures.ite _ ?_ ?_
    · exact Ensures.done
    · refine Ensures.start.bind fun skipped => ?_
      refine (Restores.loop hround ()).seq ?_
      refine (Ensures.finishOff hnode).bind fun closed => ?_
      exact Ensures.done

theorem restores_nodeList {node : Kind} (hnode : node ≠ .tombstone) (stops : Parser → Bool)
    {element resume : Parse Bool} (helement : Restores element) (hresume : Restores resume) :
    Restores (nodeList node stops element resume) := by
  have hround (progress : Progress) : Restores (do
      if (← isAt .eof) || (← ask stops) then
        return .inr ()
      else
        let progress ← advance progress
        if ← element then
          return .inl progress
        else if ← resume then
          return .inl progress
        else
          return .inr () : Parse (Progress ⊕ Unit)) := by
    intro p layers
    refine Ensures.ask fun isAtEof => ?_
    refine Ensures.ask fun isAtStop => ?_
    refine Ensures.ite _ ?_ ?_
    · exact Ensures.done
    · refine (restores_advance progress).run.bind fun progress => ?_
      refine helement.run.bind fun isThere => ?_
      refine Ensures.ite _ ?_ ?_
      · exact Ensures.done
      · refine hresume.run.bind fun goesOn => ?_
        refine Ensures.ite _ ?_ ?_
        · exact Ensures.done
        · exact Ensures.done
  intro p layers
  refine Ensures.start.bind fun list => ?_
  refine (Restores.loop hround {}).seq ?_
  exact Ensures.finishOff hnode

end TypstFormat
