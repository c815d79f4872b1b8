import TypstFormat.Grammar.Markup
import TypstFormat.Proofs.Twin.Item

/-!
# Markup side by side

In markup, the two sides always see the same tokens. Lines start in the same columns if there are
items; else columns do not matter. Where markup is barred, reading any is the end of the comparison:
the node of it is already written, and nothing takes it back.

## Key results

- `At.isAtLineEnd_eq`, `At.endsExtent_eq`, `At.itemExtent_eq`: lines and columns
- `nextMarkup_twin`: one element, or the white space at the end of a line
- `markup_twin`: markup up to one of the stops
-/

namespace TypstFormat

open Parse TypstFormat.Parser

namespace Sides

variable {S : Sides} {rules rules' : Rules} {fact : Prop}
variable {held : List Nat} {stage : Stage} {n ahead : Nat} {scope : Scope}

open Grammar

/-- A rule that is for markup alone, where it is not barred. -/
def Elements (S : Sides) (x : Parse α) (x' : Parse β) : Prop :=
  ∀ fact held n scope, scope.mode = .markup → (fact → ¬S.barred) →
    S.Twin true fact held (S.At .past n 0 scope) x x' (fun _ => held)
      fun _ _ => S.At .past n 0 scope

theorem Elements.run {x : Parse α} {x' : Parse β} (h : S.Elements x x') (hmode : scope.mode = .markup)
    (hbarred : fact → ¬S.barred) :
    S.Twin true fact held (S.At .past n 0 scope) x x' (fun _ => held)
      fun _ _ => S.At .past n 0 scope :=
  h _ _ _ _ hmode hbarred

theorem follows_markup (hbarred : fact → ¬S.barred) : fact → S.Follows true scope :=
  fun hfact => ⟨fun _ => rfl, fun h => absurd h (hbarred hfact)⟩

theorem mode_ne_code (hmode : scope.mode = .markup) : scope.mode ≠ .code := by
  rw [hmode]
  simp

/-- Markup inside an element. -/
theorem inner_twin (hr : S.RulesTwin rules rules') {atLineStart : Bool} {extent : Extent}
    {stops : List Kind} (hmode : scope.mode = .markup)
    (hextent : fact → S.unlisted → extent.Fixed) :
    S.Twin true fact held (S.At .past n 0 scope) (rules.markup atLineStart extent stops)
      (rules'.markup atLineStart extent stops) (fun _ => held) fun _ _ => S.At .past n 0 scope :=
  ((hr.markup atLineStart extent stops _ _ _ _ hmode hextent).pre fun _ _ _ h _ => h).post
    fun _ _ _ _ _ h => h.2

/-! ## What is seen in markup -/

variable [hS : S.Lawful]

theorem At.same_of_markup (hmode : scope.mode = .markup) (hbarred : ¬S.barred) {p p' : Parser}
    (h : S.At stage n ahead scope p p') : S.Same p p' :=
  h.same_of_mode hS (fun hb => absurd hb hbarred) (mode_ne_code hmode)

/-- Whether a line ends in the current token. -/
theorem At.containsNewline_eq (hmode : scope.mode = .markup) (hbarred : ¬S.barred) {p p' : Parser}
    (h : S.At stage n ahead scope p p') :
    p'.stream.current.containsNewline = p.stream.current.containsNewline := by
  have hmode' := h.mode_eq_scope
  have hsight := h.sight hS fun hb => absurd hb hbarred
  rw [h.steady.current, h.steady'.current]
  cases hsight with
  | agree halike => exact halike.containsNewline
  | ending _ halike => exact halike.containsNewline
  | foreign _ halike => exact halike.containsNewline
  | gap _ hcode =>
    rw [hmode', hmode] at hcode
    cases hcode
  | lost _ hcode =>
    rw [hmode', hmode] at hcode
    cases hcode
  | spent hstrict hne hspent => exact absurd hspent (h.clear hstrict (hmode' ▸ hne))

theorem At.isAtLineEnd_eq (hmode : scope.mode = .markup) (hbarred : ¬S.barred) {p p' : Parser}
    (h : S.At stage n ahead scope p p') : isAtLineEnd p' = isAtLineEnd p := by
  have hsame := h.same_of_markup hmode hbarred
  unfold isAtLineEnd
  rw [hsame.isAt_eq, hsame.isAt_eq, h.containsNewline_eq hmode hbarred]

/-- White space that ends a line ends at corresponding places. -/
theorem At.endsExtent_eq (hmode : scope.mode = .markup) (hbarred : ¬S.barred) {p p' : Parser}
    (h : S.At stage n ahead scope p p') (hend : isAtLineEnd p = true) {extent : Extent}
    (hextent : S.unlisted → extent.Fixed) : endsExtent extent p' = endsExtent extent p := by
  have hmode' := h.mode_eq_scope
  have hsight := h.sight hS fun hb => absurd hb hbarred
  have hspace : p.stream.kind = .parbreak ∨ p.stream.kind = .space := by
    rcases Bool.or_eq_true_iff.1 hend with hat | hat
    · exact .inl (kind_of_isAt rfl hat)
    · exact .inr (kind_of_isAt rfl (Bool.and_eq_true_iff.1 hat).1)
  have hnot {kinds : List Kind} (hkinds : .parbreak ∉ kinds ∧ .space ∉ kinds) :
      p.look.token.kind ∉ kinds := by
    rw [show p.look.token.kind = p.stream.kind from h.steady.kind_eq.symm]
    rcases hspace with hspace | hspace
    · exact hspace ▸ hkinds.1
    · exact hspace ▸ hkinds.2
  have hplace : S.place p.range.stop p'.range.stop := by
    have hrange : p.range = p.look.token.range := congrArg Token.range h.steady.current
    have hrange' : p'.range = p'.look.token.range := congrArg Token.range h.steady'.current
    rw [hrange, hrange']
    cases hsight with
    | agree _ hstop => exact hstop
    | ending _ _ hendless => exact absurd hendless (hnot (by decide))
    | foreign _ _ hforeign => exact absurd hforeign (hnot (by decide))
    | gap _ hcode =>
      rw [hmode', hmode] at hcode
      cases hcode
    | lost _ hcode =>
      rw [hmode', hmode] at hcode
      cases hcode
    | spent hstrict hne hspent => exact absurd hspent (h.clear hstrict (hmode' ▸ hne))
  unfold endsExtent
  by_cases hlisted : S.unlisted
  · exact hextent hlisted _ _
  · rw [h.source_eq, h.source_eq', hS.column hbarred hlisted hplace]

theorem At.itemExtent_eq (hmode : scope.mode = .markup) (hbarred : ¬S.barred)
    (hlisted : ¬S.unlisted) {p p' : Parser} (h : S.At stage n ahead scope p p') :
    itemExtent p' = itemExtent p := by
  unfold itemExtent
  rw [h.source_eq, h.source_eq',
    hS.column hbarred hlisted (h.same_of_markup hmode hbarred).position]

omit hS in
/-- Where no items are expected, consuming the marker of one is the end of the comparison. -/
theorem broken_marker (hlisted : S.unlisted) {closing : Bool} {p : Parser} (hp : S.Stands held p)
    (hmarker : p.current ∈ itemMarkers) : S.Broken closing held p.bump := by
  have hcloses : p.current.closesCode = false := by
    simp only [itemMarkers, List.mem_cons, List.not_mem_nil, or_false] at hmarker
    rcases hmarker with h | h | h <;> rw [h] <;> rfl
  have hat : p.isAt p.current = true := isAt_iff.2 rfl
  have hend := Twin.isAtEnd_of_isAt hcloses hat
  have hq := consumed_bumpAs hp.steady hend p.stream.kind
  refine ⟨hq.bumped.steady, hq.bumped.source.trans hp.source_eq, ?_⟩
  refine .event (k := p.events.size) (fun hmem => Nat.lt_irrefl _ (hp.held_lt _ hmem)) ?_
    (hlisted p.stream.kind (kind_of_isAt hcloses hat ▸ hmarker) p.range.stop)
  show (p.bumpAs p.stream.kind).events[p.events.size]? = _
  rw [hq.events, Array.getElem?_push_size]

/-! ## Elements -/

theorem blanks_elements : S.Elements blanks blanks := by
  intro fact held n scope hmode hbarred
  refine .loopSteady (Q := fun _ _ => S.At .past n 0 scope) (fun _ _ => ?_) _ _
  refine .askBool (fun hfact p p' h => ?_) ?_ (.pure (List.Subset.refl _) fun _ _ _ h => h.1)
  · rw [(h.same_of_markup hmode (hbarred hfact)).isAt_eq, h.isAtLineEnd_eq hmode (hbarred hfact)]
  · refine .pre (P := S.At .past n 0 scope) ?_ fun _ _ _ h => h.1
    exact .bind (.bumpOther (follows_markup hbarred) (mode_ne_code hmode) rfl) fun _ _ =>
      .pure (List.Subset.refl _) fun _ _ _ h => h

theorem delimited_elements (hr : S.RulesTwin rules rules') {delimiter : Kind}
    (hdelimiter : delimiter.closesCode = false) (kind : Kind) :
    S.Elements (delimited rules delimiter kind) (delimited rules' delimiter kind) := by
  intro fact held n scope hmode hbarred
  have hscope {fact' : Prop} (h : fact' → fact) : fact' → S.Follows true scope :=
    follows_markup fun hfact => hbarred (h hfact)
  refine .bindNode .start fun node => ?_
  refine .bindFact (.range (hscope And.left)) fun opening opening' => ?_
  refine .bind (.bumpOther (hscope (·.1.1)) (mode_ne_code hmode) rfl) fun _ _ => ?_
  refine .bind (inner_twin hr hmode fun _ _ => Extent.fixed_unbounded) fun _ _ => ?_
  refine .bindEq (.expectClosing (hscope (·.1.1)) hdelimiter (·.2)) fun _ => ?_
  exact .finishLast

theorem heading_elements (hr : S.RulesTwin rules rules') :
    S.Elements (heading rules) (heading rules') := by
  intro fact held n scope hmode hbarred
  refine .bindNode .start fun node => ?_
  refine .bind (.bumpOther (follows_markup fun h => hbarred h.1) (mode_ne_code hmode) rfl)
    fun _ _ => ?_
  refine .bind (blanks_elements.run hmode fun h => hbarred h.1) fun _ _ => ?_
  exact .bind (inner_twin hr hmode fun _ _ => Extent.fixed_line) fun _ _ => .finishLast

omit hS in
/-- The start of the node of an item. -/
theorem start_marked :
    S.Twin true fact held (fun p p' => S.At stage n ahead scope p p' ∧ p.current ∈ itemMarkers)
      Parse.start Parse.start (fun node => node.places ++ held)
      (S.Handed held fun p p' => S.At stage n ahead scope p p' ∧ p.current ∈ itemMarkers) := by
  have hkept {p q : Parser} {node : Opening} (hmarker : p.current ∈ itemMarkers)
      (hrun : Parse.start p = .ok (node, q)) : q.current ∈ itemMarkers := by
    cases hrun
    exact hmarker
  have hstart : S.Twin true fact held (S.At stage n ahead scope) Parse.start Parse.start
      (fun node => node.places ++ held) (S.Handed held (S.At stage n ahead scope)) := .start
  exact (hstart.frame hkept).post fun _ _ _ _ _ ⟨⟨hnode, hfresh, hat⟩, hmarker⟩ =>
    ⟨hnode, hfresh, hat, hmarker⟩

/-- The marker of an item says which lines belong to it. If no items are expected, it ends the
comparison. -/
theorem marker_twin (hmode : scope.mode = .markup) (hbarred : fact → ¬S.barred) {α β : Type}
    {f : Extent → Parse α} {f' : Extent → Parse β} {held' : α → List Nat}
    {Q : α → β → Parser → Parser → Prop}
    (hf : ∀ extent, S.Twin true (fact ∧ ¬S.unlisted) held (S.At .past n 0 scope) (f extent)
      (f' extent) held' Q) :
    S.Twin true fact held (fun p p' => S.At .past n 0 scope p p' ∧ p.current ∈ itemMarkers)
      (Parse.ask itemExtent >>= fun extent => Parse.bump >>= fun _ => f extent)
      (Parse.ask itemExtent >>= fun extent => Parse.bump >>= fun _ => f' extent) held' Q := by
  refine .orBroken (C := fun p p' => S.At .past n 0 scope p p' ∧ ¬S.unlisted) ?_ ?_
  · refine .learn (fun _ _ _ h => h.2) ?_
    refine .ask (fun hfact _ _ h => h.1.itemExtent_eq hmode (hbarred hfact.1) hfact.2) fun extent => ?_
    refine .bind (.pre (P := S.At .past n 0 scope) ?_ fun _ _ _ h => h.1.1) fun _ _ => hf extent
    exact .bumpOther (follows_markup fun h => hbarred h.1) (mode_ne_code hmode) rfl
  · rintro _ p p' hp ⟨hat, hmarker⟩
    by_cases hlisted : S.unlisted
    · refine .inr fun a q hrun => ?_
      obtain ⟨extent, p₁, hask, hrest⟩ := bind_eq_ok hrun
      cases hask
      obtain ⟨_, p₂, hbump, hrest⟩ := bind_eq_ok hrest
      cases hbump
      exact (broken_marker hlisted hp hmarker).keep hS (hf _).keeps hrest
    · exact .inl ⟨hat, hlisted⟩

theorem listItem_twin (hr : S.RulesTwin rules rules') (hmode : scope.mode = .markup)
    (hbarred : fact → ¬S.barred) (kind : Kind) :
    S.Twin true fact held (fun p p' => S.At .past n 0 scope p p' ∧ p.current ∈ itemMarkers)
      (listItem rules kind) (listItem rules' kind) (fun _ => held)
      fun _ _ => S.At .past n 0 scope := by
  refine .bindNode start_marked fun node => marker_twin hmode (fun h => hbarred h.1) fun extent => ?_
  refine .bind (blanks_elements.run hmode fun h => hbarred h.1.1) fun _ _ => ?_
  exact .bind (inner_twin hr hmode fun h hlisted => absurd hlisted h.2) fun _ _ => .finishLast

theorem termItem_twin (hr : S.RulesTwin rules rules') (hmode : scope.mode = .markup)
    (hbarred : fact → ¬S.barred) :
    S.Twin true fact held (fun p p' => S.At .past n 0 scope p p' ∧ p.current ∈ itemMarkers)
      (termItem rules) (termItem rules') (fun _ => held) fun _ _ => S.At .past n 0 scope := by
  refine .bindNode start_marked fun node => marker_twin hmode (fun h => hbarred h.1) fun extent => ?_
  refine .bind (blanks_elements.run hmode fun h => hbarred h.1.1) fun _ _ => ?_
  refine .bind (inner_twin hr hmode fun _ _ => Extent.fixed_line) fun _ _ => ?_
  refine .bindEq (.expect (follows_markup fun h => hbarred h.1.1) rfl) fun _ => ?_
  refine .bind (blanks_elements.run hmode fun h => hbarred h.1.1) fun _ _ => ?_
  exact .bind (inner_twin hr hmode fun h hlisted => absurd hlisted h.2) fun _ _ => .finishLast

theorem reference_elements (hr : S.RulesTwin rules rules') :
    S.Elements (reference rules) (reference rules') := by
  intro fact held n scope hmode hbarred
  have hscope {fact' : Prop} (h : fact' → fact) : fact' → S.Follows true scope :=
    follows_markup fun hfact => hbarred (h hfact)
  refine .bindNode .start fun node => ?_
  refine .bind (.bumpOther (hscope And.left) (mode_ne_code hmode) rfl) fun _ _ => ?_
  refine .isDirectlyAt (hscope And.left) rfl rfl ?_ .finishLast
  exact .bind (contentBlock_twin hr (hscope And.left) rfl) fun _ _ => .finishLast

theorem markupElement_twin (hr : S.RulesTwin rules rules') (hmode : scope.mode = .markup)
    (hbarred : fact → ¬S.barred) (atLineStart : Bool) :
    S.Twin true fact held (S.At .past n 0 scope) (markupElement rules atLineStart)
      (markupElement rules' atLineStart) (fun _ => held)
      fun starts starts' q q' => starts' = starts ∧ S.At .past n 0 scope q q' := by
  have hscope {fact' : Prop} (h : fact' → fact) : fact' → S.Follows true scope :=
    follows_markup fun hfact => hbarred (h hfact)
  have hcode := mode_ne_code hmode
  have hthen {kind : Kind} {x x' : Parse Unit} (h : S.Elements x x') (starts : Bool) :
      S.Twin true fact held (fun p p' => S.At .past n 0 scope p p' ∧ p.current = kind)
        (x >>= fun _ => pure starts) (x' >>= fun _ => pure starts) (fun _ => held)
        fun starts starts' q q' => starts' = starts ∧ S.At .past n 0 scope q q' :=
    .bind ((h.run hmode hbarred).pre fun _ _ _ h => h.1) fun _ _ =>
      .pure (List.Subset.refl _) fun _ _ _ h => ⟨rfl, h⟩
  have hbump : S.Elements Parse.bump Parse.bump := fun _ _ _ _ hmode hbarred =>
    .bumpOther (follows_markup hbarred) (mode_ne_code hmode) rfl
  have hcode : S.Elements (embeddedCode rules) (embeddedCode rules') := fun _ _ _ _ hmode hbarred =>
    (embeddedCode_flows hr).run (mode_ne_code hmode) fun hfact hb => absurd hb (hbarred hfact)
  have htext : S.Elements (modify (·.bumpAs .text)) (modify (·.bumpAs .text)) :=
    fun _ _ _ _ hmode hbarred => .bumpText (follows_markup hbarred) (mode_ne_code hmode) rfl
  have hitem {kind : Kind} (hkind : kind ∈ itemMarkers) {x x' : Parse Unit}
      (h : S.Twin true fact held
        (fun p p' => S.At .past n 0 scope p p' ∧ p.current ∈ itemMarkers) x x' (fun _ => held)
        fun _ _ => S.At .past n 0 scope) :
      S.Twin true fact held (fun p p' => S.At .past n 0 scope p p' ∧ p.current = kind)
        (x >>= fun _ => pure false) (x' >>= fun _ => pure false) (fun _ => held)
        fun starts starts' q q' => starts' = starts ∧ S.At .past n 0 scope q q' :=
    .bind (h.pre fun _ _ _ h => ⟨h.1, h.2 ▸ hkind⟩) fun _ _ =>
      .pure (List.Subset.refl _) fun _ _ _ h => ⟨rfl, h⟩
  refine .ask (fun hfact _ _ h => (h.same_of_markup hmode (hbarred hfact)).current_eq)
    fun kind => ?_
  split
  · exact hthen hbump atLineStart
  · exact hthen hbump atLineStart
  · exact hthen hbump atLineStart
  · exact hthen hcode false
  · exact hthen (delimited_elements hr rfl _) false
  · exact hthen (delimited_elements hr rfl _) false
  · exact hthen (reference_elements hr) false
  · refine .pre (P := S.At .met n 0 scope) ?_ fun _ _ _ h =>
      h.1.seen (Twin.isAtEnd_of_isAt rfl (isAt_iff.2 h.2))
    exact .bind (equation_twin hr (follows_markup hbarred) rfl) fun _ _ =>
      .pure (List.Subset.refl _) fun _ _ _ h => ⟨rfl, h⟩
  · extract_lets next
    split
    · exact hthen (heading_elements hr) false
    · exact hitem (by decide) (listItem_twin hr hmode hbarred _)
    · exact hitem (by decide) (listItem_twin hr hmode hbarred _)
    · exact hitem (by decide) (termItem_twin hr hmode hbarred)
    · split
      · exact hthen htext false
      · exact hthen hbump false

/-! ## Markup -/

instance : Nonempty MarkupState := ⟨⟨true, 0, {}⟩⟩

theorem nextMarkup_twin (hr : S.RulesTwin rules rules') (hmode : scope.mode = .markup)
    (hbarred : fact → ¬S.barred) {extent : Extent} (hextent : fact → S.unlisted → extent.Fixed)
    (stops : List Kind)
    (state state' : MarkupState) :
    S.Twin true fact held (fun p p' => (state'.atLineStart = state.atLineStart ∧
        state'.nesting = state.nesting) ∧ S.At .past n 0 scope p p')
      (nextMarkup rules extent stops state) (nextMarkup rules' extent stops state') (fun _ => held)
      (Twin.Round (fun s s' q q' => (s'.atLineStart = s.atLineStart ∧ s'.nesting = s.nesting) ∧
        S.At .past n 0 scope q q') fun _ _ => S.At .past n 0 scope) := by
  have hscope {fact' : Prop} (h : fact' → fact) : fact' → S.Follows true scope :=
    follows_markup fun hfact => hbarred (h hfact)
  have hsame {fact' : Prop} (hf : fact' → fact) (hfact : fact') (p p' : Parser)
      (h : S.At .past n 0 scope p p') : S.Same p p' := h.same_of_markup hmode (hbarred (hf hfact))
  refine .learn (fun _ _ _ h => h.1) (.pre (P := S.At .past n 0 scope) ?_ fun _ _ _ h => h.2)
  refine .askSame (fun _ _ h => h.isAt_eq .eof) (hsame And.left) fun ended => ?_
  split
  · exact .pure (List.Subset.refl _) fun _ _ _ h => h
  refine .bind .advance fun progress progress' => .get fun p p' => ?_
  have hnesting : (fact ∧ state'.atLineStart = state.atLineStart ∧
      state'.nesting = state.nesting) ∧ S.At .past n 0 scope p p' →
      nestingBehind? p' stops state'.nesting = nestingBehind? p stops state.nesting := by
    rintro ⟨⟨hfact, _, hnesting⟩, h⟩
    have hsame := h.same_of_markup hmode (hbarred hfact)
    unfold nestingBehind?
    rw [hsame.isAt_eq, hsame.isAt_eq, hsame.isAtAny_eq, hnesting]
  apply Twin.congr_right
  · intro hfact
    rw [hnesting hfact, hfact.1.2.1, hfact.2.isAtLineEnd_eq hmode (hbarred hfact.1.1)]
  refine .pre (P := S.At .past n 0 scope) ?_ ?_
  · split
    · exact .pure (List.Subset.refl _) fun _ _ _ h => h
    split
    · rename_i hend
      apply Twin.congr_right
      · intro hfact
        rw [hfact.2.endsExtent_eq hmode (hbarred hfact.1.1) hend (hextent hfact.1.1)]
      split
      · exact .pure (List.Subset.refl _) fun _ _ _ h => h
      · refine .bind (.bumpOther (hscope (·.1.1)) (mode_ne_code hmode) rfl) fun _ _ => ?_
        exact .pure (List.Subset.refl _) fun _ _ _ h => ⟨⟨rfl, rfl⟩, h⟩
    · refine .bindEq (g := id) (R := fun _ => S.At .past n 0 scope)
        (markupElement_twin hr hmode (fun h => hbarred h.1.1) _) fun starts => ?_
      exact .pure (List.Subset.refl _) fun _ _ _ h => ⟨⟨rfl, rfl⟩, h⟩
  · rintro ⟨_, h⟩ _ _ ⟨rfl, rfl⟩
    exact h

/-- Where markup is not barred, the same is read on both sides. -/
theorem unbarred_twin (hr : S.RulesTwin rules rules') (hmode : scope.mode = .markup)
    (hbarred : fact → ¬S.barred) (atLineStart : Bool) {extent : Extent}
    (hextent : fact → S.unlisted → extent.Fixed) (stops : List Kind) :
    S.Twin true fact held (S.At .past n 0 scope) (markup rules atLineStart extent stops)
      (markup rules' atLineStart extent stops) (fun _ => held) fun _ _ => S.At .past n 0 scope := by
  refine .bindNode .start fun node => .bind ((Twin.loopHeld (Q := fun _ _ => S.At .past n 0 scope)
    (nextMarkup_twin hr hmode (fun h => hbarred h.1) (fun h => hextent h.1) stops) _ _).pre
    fun _ _ _ h => ⟨⟨rfl, rfl⟩, h⟩) fun _ _ => .finishOff

/-- Where markup is barred, the node of the markup that was read ends the comparison. -/
theorem broken_markup (hr : S.RulesTwin rules rules') (hbarred : S.barred) {closing : Bool}
    {atLineStart : Bool} {extent : Extent} {stops : List Kind} {p q : Parser} {closed : Closed}
    (hp : S.Stands held p) (hrun : markup rules atLineStart extent stops p = .ok (closed, q)) :
    S.Broken closing held q := by
  have hround (state : MarkupState) : Keeps [] (nextMarkup rules extent stops state) fun _ => [] :=
    have h : S.Twin true False [] _ (nextMarkup rules extent stops state) _ _ _ :=
      nextMarkup_twin (n := 0) hr (rfl : (Scope.whole .markup).mode = .markup) False.elim
        False.elim stops state state
    h.keeps
  obtain ⟨node, p₁, hstart, hrest⟩ := bind_eq_ok hrun
  obtain ⟨_, p₂, hloop, hfinish⟩ := bind_eq_ok hrest
  cases hstart
  have hsteady : ({ p with events := p.events.push .tombstone } : Parser).stream.Steady := hp.steady
  obtain ⟨hlater, hleaves⟩ := Keeps.loop hround _ _ _ p₂ hsteady hloop
  have hlt : p.events.size < p₂.events.size := hleaves.lt_size (by simp) List.not_mem_nil
  obtain ⟨rfl, link, rfl⟩ := finish_eq_ok hfinish
  refine ⟨hlater.steady, hlater.source_eq.trans hp.source_eq, ?_⟩
  refine .event (k := p.events.size) (fun hmem => Nat.lt_irrefl _ (hp.held_lt _ hmem)) ?_
    (hbarred link)
  simp [Array.getElem?_push, hlt, Nat.ne_of_lt hlt]

theorem markup_twin (hr : S.RulesTwin rules rules') (atLineStart : Bool) {extent : Extent}
    (stops : List Kind) (hmode : scope.mode = .markup)
    (hextent : fact → S.unlisted → extent.Fixed) :
    S.Twin true fact held (fun p p' => ¬S.barred → S.At .past n 0 scope p p')
      (markup rules atLineStart extent stops) (markup rules' atLineStart extent stops)
      (fun _ => held) fun _ _ q q' => ¬S.barred ∧ S.At .past n 0 scope q q' := by
  have htwin : S.Twin true (fact ∧ ¬S.barred) held (S.At .past n 0 scope)
      (markup rules atLineStart extent stops) (markup rules' atLineStart extent stops)
      (fun _ => held) fun _ _ => S.At .past n 0 scope :=
    unbarred_twin hr hmode And.right atLineStart (fun h => hextent h.1) stops
  refine ⟨htwin.keeps, fun hfact _ _ _ _ _ _ hp h hrun hrun' => ?_⟩
  by_cases hbarred : S.barred
  · exact .inr (broken_markup hr hbarred hp hrun)
  · exact (htwin.run ⟨hfact, hbarred⟩ hp (h hbarred) hrun hrun').imp_left fun ⟨hat, hq⟩ =>
      ⟨⟨hbarred, hat⟩, hq⟩

end Sides

end TypstFormat
