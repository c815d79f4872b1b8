import TypstFormat.Proofs.Grammar.Action

/-!
# What the actions on nodes read

Starting, finishing and wrapping nodes only changes the events. The start of a node stays where it
was written, so a node that is finished, or given up, is found again behind all events in front of
it.

## Key results

- `start_returns`, `finish_returns`, `wrap_returns`, `dissolve_returns`: nodes
- `recover_returns`: skipping tokens into a node
-/

namespace TypstFormat

open Draft Parse TypstFormat.Parser

private theorem getElem?_length_append {α : Type} (l : List α) (a : α) (r : List α) :
    (l ++ a :: r)[l.length]? = some a := by
  simp

private theorem set_length_append {α : Type} (l : List α) (a b : α) (r : List α) :
    (l ++ a :: r).set l.length b = l ++ b :: r := by
  simp

namespace Parser

variable {p p' p'' : Parser} {inner : Option Draft} {drafts : List Draft} {node : Opening}

/-- The parser when a node was started. -/
def started (p : Parser) : Parser :=
  { p with events := p.events.push .tombstone }

/-- Only the events differ. -/
def Rewrites (p p' : Parser) : Prop :=
  p' = { p with events := p'.events }

namespace Rewrites

theorem findings_eq (h : Rewrites p p') : p'.findings = p.findings := by rw [h]

theorem stream_eq (h : Rewrites p p') : p'.stream = p.stream := by rw [h]

theorem current_eq (h : Rewrites p p') : p'.current = p.current := by
  rw [h]
  rfl

theorem left_eq (h : Rewrites p p') : p'.left = p.left := by
  rw [h]
  rfl

theorem codeLook_eq (h : Rewrites p p') : p'.codeLook = p.codeLook := by
  rw [h]
  rfl

theorem trans (h₁ : Rewrites p p') (h₂ : Rewrites p' p'') : Rewrites p p'' := by
  unfold Rewrites at *
  rw [h₂, h₁]

end Rewrites

theorem Moves.rewrite (h : Moves p drafts p') (h' : Rewrites p' p'') : Moves p drafts p'' := by
  rw [h']
  exact ⟨⟨h.ok.steady, h.ok.complains⟩, h.source_eq, h.path, h.consumed_le, h.settled_eq,
    h.found_eq, h.findings, h.proper, h.lined⟩

theorem Agrees.rewrite (h : Agrees p p') (h' : Rewrites p' p'') : Agrees p p'' := by
  rw [h']
  exact ⟨h.mode_eq, h.modes_eq, h.breakRules_eq⟩

/-- Drafts that were read may be taken for other ones with the same looks. -/
theorem Moves.congr {more : List Draft} (h : Moves p drafts p')
    (hleaves : leavesAll more = leavesAll drafts) (hproper : ProperAll more)
    (hlined : LinedAll p.source .anywhere p'.codeLook more) : Moves p more p' :=
  ⟨h.ok, h.source_eq, hleaves ▸ h.path, h.consumed_le, by rw [h.settled_eq, hleaves],
    by rw [h.found_eq, hleaves], h.findings, hproper, hlined⟩

theorem Moves.around {kind : Kind} (h : Moves p (inner.toList ++ drafts) p')
    (hnode : ∀ d ∈ inner, d.isNode = true) (hkind : kind.isNode = true)
    (hlined : Lined p.source .anywhere p'.codeLook (.around kind inner drafts)) :
    Moves p [.around kind inner drafts] p' := by
  have hproper := (properAll_append _ _).1 h.proper
  refine h.congr ?_ ⟨proper_around hkind hnode hproper.1 hproper.2, trivial⟩ ?_
  · rw [leavesAll_singleton, leaves_around]
  · exact linedAll_node (fun hnowhere => nomatch hnowhere) hlined

/-- A node around what stands where it may. -/
theorem Placed.around {kind : Kind} {next : Look} (h : Placed p next (inner.toList ++ drafts))
    (hkind : kind.isCommon = true)
    (hfront : p.Bound → (front (inner.toList ++ drafts) next).Joins)
    (hlined : LinedAll p.source .anywhere next (inner.toList ++ drafts)) :
    Placed p next [.around kind inner drafts] :=
  ⟨fun hmode => (h.bare hmode).enclosed hkind _, fun hbound =>
    linedAll_node (fun _ => hfront hbound)
      (lined_of_isCommon hkind hlined (fun _ _ => h.joined hbound) _)⟩

theorem Consumes.started (h : p.Consumes) : p.started.Consumes :=
  ⟨h.isAtEnd, h.ne_leftParen⟩

theorem inside_started (hp : p.Ok) : Inside p none [] ⟨p.events.size, none⟩ p.started :=
  { Moves.refl hp, Agrees.refl p with
    ok := ⟨hp.steady, hp.complains⟩
    events_eq := by simp [Parser.started, wrapped, eventsAll]
    index_eq := rfl
    wraps_eq := rfl
    isNode := by simp
    tidy := fun _ => tidy_nil
    placed := .nil }

namespace Within

/-- What stands in front of the own start of a node that is not finished. -/
theorem events_split (h : Within p inner drafts node p') :
    ∃ before : List Event, before = p.events.toList ++ wrapped inner ∧
      before.length = node.index ∧ p'.events.toList = before ++ .tombstone :: eventsAll drafts := by
  refine ⟨_, rfl, ?_, ?_⟩
  · rw [List.length_append, Array.length_toList, h.index_eq]
  · rw [h.events_eq, List.append_assoc]

/-- The own start of a node that is not finished. -/
theorem start_eq (h : Within p inner drafts node p') :
    p'.events[node.index]? = some .tombstone := by
  obtain ⟨before, _, hlength, hevents⟩ := h.events_split
  rw [← Array.getElem?_toList, hevents, ← hlength]
  exact getElem?_length_append _ _ _

end Within

/-- The own start of a node that was taken. -/
theorem Takes.start_eq {draft : Draft} (h : Takes p [draft] p') (hnode : draft.isNode = true) :
    p'.events[p.events.size + draft.head]? = some (.start draft.kind none) := by
  rw [← Array.getElem?_toList, h.events_eq, ← Array.length_toList]
  exact getElem?_start hnode p.events.toList [] none

end Parser

namespace Parse

variable {p p' p'' : Parser} {inner : Option Draft} {drafts : List Draft} {node : Opening}
  {closed : Closed} {draft : Draft}

theorem start_returns {f : Opening → Parse β} {Q : β → Parser → Prop} (hp : p.Ok)
    (h : ∀ node, Inside p none [] node p.started → Returns (f node) p.started Q) :
    Returns (start >>= f) p Q := by
  have hstart : Returns start p fun node p' => Inside p none [] node p' ∧ p' = p.started :=
    ⟨_, _, rfl, inside_started hp, rfl⟩
  refine .bind hstart ?_
  rintro node _ ⟨hinside, rfl⟩
  exact h node hinside

/-- A node is finished: what was taken in it, and the node that it is around, are its children. -/
theorem finishWithin_returns (kind : Kind) (h : Within p inner drafts node p')
    (hkind : kind.isNode = true)
    (hlined : Lined p.source .anywhere p'.codeLook (.around kind inner drafts)) :
    Returns (node.finish kind) p' fun closed p'' => Takes p [around kind inner drafts] p'' ∧
      closed.index = p.events.size + (around kind inner drafts).head ∧ Rewrites p' p'' := by
  unfold Opening.finish
  refine .startAt h.start_eq ?_
  refine .modified (.modified (.pure ⟨?_, ?_, rfl⟩))
  · obtain ⟨before, hbefore, hlength, hevents⟩ := h.events_split
    refine ⟨(h.toMoves.around h.isNode hkind hlined).rewrite rfl, h.toAgrees.rewrite rfl, ?_⟩
    show (p'.events.setIfInBounds node.index (.start kind none) |>.push .finish).toList = _
    rw [Array.toList_push, Array.toList_setIfInBounds, hevents, ← hlength, set_length_append,
      hbefore, eventsAll_singleton, events_around]
    simp
  · rw [head_around, h.index_eq]

/-- Finishing a node changes nothing but the events. -/
theorem rewrites_of_finish {kind : Kind} (h : node.finish kind p = .ok (closed, p')) :
    Rewrites p p' := by
  obtain ⟨_, p₁, hstart, hrest⟩ := bind_eq_ok h
  obtain rfl : p₁ = p := by
    obtain ⟨_, _, hget, hevent⟩ := bind_eq_ok hstart
    cases hget
    rcases hfound : p.events[node.index]? with _ | event
    · rw [hfound] at hevent
      cases hevent
    · rw [hfound] at hevent
      cases event <;> cases hevent
      rfl
  cases hrest
  rfl

/-- A node of what was taken is read, if it is tidy and stands where it may. -/
theorem finishAs_returns (kind : Kind) (h : Within p inner drafts node p')
    (hkind : kind.isNode = true)
    (htidy : p'.findings = [] → Tidy p.stream.mode [.around kind inner drafts])
    (hlined : Lined p.source .anywhere p'.codeLook (.around kind inner drafts))
    (hplaced : Placed p p'.codeLook [.around kind inner drafts]) :
    Returns (node.finish kind) p' fun closed p'' => Reads p [around kind inner drafts] p'' ∧
      closed.index = p.events.size + (around kind inner drafts).head ∧ Rewrites p' p'' := by
  refine (finishWithin_returns kind h hkind hlined).mono ?_
  rintro closed p'' ⟨htakes, hindex, hre⟩
  refine ⟨htakes.reads (hre.findings_eq ▸ htidy) ?_, hindex, hre⟩
  rw [hre.codeLook_eq]
  exact hplaced

/-- A node of what was read is read, if it has its shape and stands in the line. -/
theorem finishFront_returns (kind : Kind) (h : Inside p inner drafts node p')
    (hkind : kind.isCommon = true)
    (hfront : p.Bound → (front (inner.toList ++ drafts) p'.codeLook).Joins)
    (hshape : p'.findings = [] → Shape kind (inner.toList ++ drafts)) :
    Returns (node.finish kind) p' fun closed p'' => Reads p [around kind inner drafts] p'' ∧
      closed.index = p.events.size + (around kind inner drafts).head ∧ Rewrites p' p'' := by
  have hnode := (Kind.isCommon_iff.1 hkind).1
  refine finishAs_returns kind h.toWithin hnode (fun hclean => ?_) ?_
    (h.placed.around hkind hfront h.lined)
  · have htidy := h.tidy hclean
    exact tidy_node _ hnode (htidy.formed (hshape hclean)) htidy.sound htidy.ends htidy.keeps
  · exact lined_of_isCommon hkind h.lined (fun hne => absurd rfl hne) _

/-- A node of what was read is read, if it has its shape and a token. -/
theorem finish_returns (kind : Kind) (h : Inside p inner drafts node p')
    (hkind : kind.isCommon = true) (hsome : leavesAll (inner.toList ++ drafts) ≠ [])
    (hshape : p'.findings = [] → Shape kind (inner.toList ++ drafts)) :
    Returns (node.finish kind) p' fun closed p'' => Reads p [around kind inner drafts] p'' ∧
      closed.index = p.events.size + (around kind inner drafts).head ∧ Rewrites p' p'' :=
  finishFront_returns kind h hkind (fun hbound => (h.placed.joined hbound).joins hsome) hshape

/-- A node is started around one that has just been finished. -/
theorem wrap_returns (h : Reads p [draft] p') (hnode : draft.isNode = true)
    (hindex : closed.index = p.events.size + draft.head) :
    Returns closed.wrap p' fun node p'' => Inside p (some draft) [] node p'' ∧
      Rewrites p' p'' := by
  unfold Closed.wrap
  refine start_returns h.ok fun node hstart => ?_
  have hsize : p'.events.size = p.events.size + draft.size := by
    rw [← Array.length_toList, h.events_eq, eventsAll_singleton, List.length_append, length_events,
      Array.length_toList]
  have houter : node.index = p.events.size + draft.size := by
    rw [hstart.index_eq, ← hsize]
    rfl
  have hlt := draft.head_lt_size
  have hspan := draft.head_add_span
  -- The new node starts behind all events of the finished one, which is as far as the link leads.
  have hevent : p'.started.events[closed.index]? = some (.start draft.kind none) := by
    have hlt' : closed.index < p'.events.size := by omega
    show (p'.events.push .tombstone)[closed.index]? = _
    rw [Array.getElem?_push_lt hlt', ← Array.getElem?_eq_getElem hlt', hindex]
    exact h.start_eq hnode
  have hlink : node.index - (p.events.size + draft.head) = draft.span := by omega
  dsimp only
  rw [if_neg (by omega)]
  refine .startAt hevent (.modified (.pure ⟨?_, rfl⟩))
  have hmoves : Moves p ((some draft).toList ++ []) p' := h.toMoves
  refine ⟨⟨hmoves.rewrite rfl, h.toAgrees.rewrite rfl, ?_, ?_, ?_, ?_⟩, h.tidy, h.placed⟩
  · show ((p'.events.push .tombstone).setIfInBounds closed.index _).toList = _
    rw [Array.toList_setIfInBounds, Array.toList_push, h.events_eq, eventsAll_singleton, hindex,
      hlink, List.append_assoc, ← Array.length_toList, set_start hnode, rename_kind]
    rfl
  · show node.index = p.events.size + (draft.events _).length
    rw [houter, length_events]
  · show some closed.index = some (p.events.size + draft.head)
    rw [hindex]
  · rintro d ⟨⟩
    exact hnode

/-- The kind of a node that was taken. -/
theorem kind_returns (h : Takes p [draft] p') (hnode : draft.isNode = true)
    (hindex : closed.index = p.events.size + draft.head) :
    Returns closed.kind p' fun kind p'' => kind = draft.kind ∧ p'' = p' :=
  .startAt (by rw [hindex]; exact h.start_eq hnode) (.pure ⟨rfl, rfl⟩)

/-- A node that was taken gets another kind. -/
theorem rename_returns {own : Kind} {wraps : Bool} {children : List Draft} (kind : Kind)
    (h : Takes p [.node own wraps children] p')
    (hindex : closed.index = p.events.size + (Draft.node own wraps children).head)
    (hkind : kind.isNode = true)
    (hlined : LinedAll p.source .anywhere p'.codeLook [.node kind wraps children]) :
    Returns (closed.rename kind) p' fun _ p'' => Takes p [.node kind wraps children] p'' ∧
      Rewrites p' p'' := by
  refine .startAt (by rw [hindex]; exact h.start_eq rfl) (.of_modify ⟨?_, rfl⟩)
  have hproper := h.proper.1
  have hleaves : leavesAll [.node kind wraps children] = leavesAll [.node own wraps children] := rfl
  have hmoves : Moves p [.node kind wraps children] p' :=
    h.toMoves.congr hleaves ⟨proper_rename hkind hproper, trivial⟩ hlined
  refine ⟨hmoves.rewrite rfl, h.toAgrees.rewrite rfl, ?_⟩
  show (p'.events.setIfInBounds closed.index _).toList = _
  rw [Array.toList_setIfInBounds, h.events_eq, hindex, ← Array.length_toList]
  exact set_start rfl p.events.toList [] kind none none

/-- The start of a node in which nothing was read is dropped. -/
private theorem dropStart_returns (h : Within p inner drafts node p') :
    Returns node.dropStart p' fun _ p'' => Rewrites p' p'' ∧ ∃ gap : List Draft,
      (gap = [] ∨ gap = [.void]) ∧
      p''.events.toList = p.events.toList ++ (wrapped inner ++ eventsAll (gap ++ drafts)) := by
  obtain ⟨before, hbefore, hlength, hevents⟩ := h.events_split
  have hsize : p'.events.size = node.index + 1 + (eventsAll drafts).length := by
    rw [← Array.length_toList, hevents, List.length_append, List.length_cons, hlength]
    omega
  refine .get ?_
  split
  · -- The start is the last event, so nothing was written behind it.
    rename_i hlast
    refine .startAt h.start_eq (.of_modify ⟨rfl, [], .inl rfl, ?_⟩)
    have hnil : eventsAll drafts = [] := List.eq_nil_of_length_eq_zero (by omega)
    show p'.events.pop.toList = _
    rw [Array.toList_pop, hevents, hnil, List.nil_append, hnil, List.dropLast_concat, hbefore,
      List.append_nil]
  · refine .pure ⟨rfl, [.void], .inr rfl, ?_⟩
    rw [hevents, hbefore, List.append_assoc]
    rfl

/-- A node is given up: what was read in it was read. -/
theorem dissolve_returns (h : Inside p inner drafts node p') :
    Returns node.dissolve p' fun _ p'' => Rewrites p' p'' ∧ ∃ ds, Reads p ds p'' ∧
      present ds = present (inner.toList ++ drafts) ∧
      leavesAll ds = leavesAll (inner.toList ++ drafts) := by
  unfold Opening.dissolve
  refine .bind (dropStart_returns h.toWithin) ?_
  rintro _ p₁ ⟨hre, gap, hgap, hevents⟩
  -- A tombstone that stays is a void draft, which counts for nothing.
  have hpresent : present (inner.toList ++ (gap ++ drafts)) = present (inner.toList ++ drafts) := by
    rcases hgap with rfl | rfl <;> simp [present, Draft.isVoid]
  have hkinds := kinds_of_present hpresent
  have hleaves : leavesAll (inner.toList ++ (gap ++ drafts)) =
      leavesAll (inner.toList ++ drafts) := by
    rcases hgap with rfl | rfl <;> simp [leavesAll, leaves]
  have hlined {breaks : Breaks}
      (h : LinedAll p.source breaks p'.codeLook (inner.toList ++ drafts)) :
      LinedAll p.source breaks p'.codeLook (inner.toList ++ (gap ++ drafts)) := by
    rcases hgap with rfl | rfl
    · exact h
    · exact h.insert_void
  have hmoves : Moves p (inner.toList ++ (gap ++ drafts)) p' := by
    have hproper := (properAll_append _ _).1 h.proper
    refine h.toMoves.congr hleaves ?_ (hlined h.lined)
    rcases hgap with rfl | rfl <;> simp [ProperAll, Proper, hproper]
  have hplaced : Placed p p'.codeLook (inner.toList ++ (gap ++ drafts)) := by
    have hbare : Bare gap := by
      rcases hgap with rfl | rfl
      · exact .nil
      · exact .void
    exact ⟨fun hmode => hbare.insert (h.placed.bare hmode), fun hbound =>
      hlined (h.placed.joined hbound)⟩
  have htidy (hclean : p'.findings = []) :
      Tidy p.stream.mode (inner.toList ++ (gap ++ drafts)) := by
    refine ⟨?_, hkinds ▸ (h.tidy hclean).parens,
      fun hmode => endsPlainly_congr hleaves ((h.tidy hclean).ends hmode),
      hleaves ▸ (h.tidy hclean).keeps⟩
    have hsound := (soundAll_append _ _).1 (h.tidy hclean).sound
    rcases hgap with rfl | rfl <;> simp [SoundAll, Sound, hsound]
  cases inner with
  | none =>
    rw [h.wraps_eq]
    have htakes : Takes p _ p₁ := ⟨hmoves.rewrite hre, h.toAgrees.rewrite hre, hevents⟩
    exact .pure ⟨hre, _, htakes.reads (hre.findings_eq ▸ htidy) (hre.codeLook_eq ▸ hplaced),
      hpresent, hleaves⟩
  | some draft =>
    -- The node that was to be wrapped loses its link again.
    have hnode := h.isNode draft rfl
    have hwrapped : wrapped (some draft) = draft.events (some (draft.span : Nat)) := rfl
    rw [hwrapped] at hevents
    rw [h.wraps_eq]
    have hstart : p₁.events[p.events.size + draft.head]? =
        some (.start draft.kind (some (draft.span : Nat))) := by
      rw [← Array.getElem?_toList, hevents, ← Array.length_toList]
      exact getElem?_start hnode p.events.toList _ _
    refine .startAt hstart (.of_modify ⟨hre.trans rfl, _, Takes.reads
      ⟨(hmoves.rewrite hre).rewrite rfl, (h.toAgrees.rewrite hre).rewrite rfl, ?_⟩
      (hre.findings_eq ▸ htidy) (hre.codeLook_eq ▸ hplaced), hpresent, hleaves⟩)
    show (p₁.events.setIfInBounds (p.events.size + draft.head) _).toList = _
    rw [Array.toList_setIfInBounds, hevents, ← Array.length_toList, set_start hnode, rename_kind]
    rfl

/-- Skipping tokens, once something was complained about, reads them, and begins with the current
token unless it may stay. -/
theorem recover_returns (kind : Kind) (hp : p.Ok) (hne : p.findings ≠ [])
    (hkind : kind.isCommon = true) (safe : List Kind) :
    Returns (recover kind safe) p fun recovery p' => ∃ ds, Reads p ds p' ∧
      match recovery with
      | .atEnd => p.isAtEnd = true
      | .alreadySafe => p' = p ∧ p.isAtAny safe = true
      | .skipped _ => p.Begins ds := by
  refine .ask ?_
  split
  · rename_i hend
    exact .pure ⟨[], .refl hp, hend⟩
  · rename_i hend
    refine .ask ?_
    split
    · rename_i hsafe
      exact .pure ⟨[], .refl hp, rfl, hsafe⟩
    · rename_i hsafe
      refine start_returns hp fun node hnode => ?_
      refine .bind (R := fun _ p' => ∃ ds, Inside p none ds node p' ∧ p.Begins ds)
        (.loop (fun _ p' => ∃ ds, Inside p none ds node p' ∧ (p' = p.started ∨ p.Begins ds))
          ⟨[], hnode, .inl rfl⟩ ?_) ?_
      · rintro _ p₁ ⟨ds, h, hbegins⟩
        refine .ask (.ask ?_)
        split
        · -- Skipping does not stop where it started, at a token that is not safe.
          rename_i hstop
          refine .pure ⟨ds, h, hbegins.resolve_left ?_⟩
          rintro rfl
          exact absurd (Bool.or_eq_true_iff.1 hstop) (not_or.2 ⟨hend, hsafe⟩)
        · rename_i hstop
          have hend₁ : p₁.isAtEnd = false :=
            Bool.eq_false_iff.2 fun h => hstop (Bool.or_eq_true_iff.2 (.inl h))
          have htakes := takes_bump h.ok hend₁
          have hbump := htakes.complained (placed_token h.ok hend₁ false _) fun hclean =>
            hne (h.clean (htakes.clean hclean))
          refine .modified ?_
          refine .pure ⟨⟨_, h.read hbump, .inr ?_⟩, hbump.left_lt h.ok (begins_token p₁ false)⟩
          rcases hbegins with rfl | hbegins
          · exact .of_nil (h.leaves_eq_nil hp rfl) (begins_token p false)
          · exact hbegins.append _
      · rintro _ p₁ ⟨ds, h, hbegins⟩
        refine .bind (finish_returns kind h hkind hbegins.ne_nil fun hclean =>
          absurd (h.clean hclean) hne) ?_
        rintro closed p₂ ⟨h₂, _, _⟩
        exact .pure ⟨_, h₂, hbegins.node kind false⟩

end Parse

end TypstFormat
