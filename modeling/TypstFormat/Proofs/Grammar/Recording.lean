import TypstFormat.Proofs.Grammar.Returns
import TypstFormat.Proofs.Grammar.Sketch
import TypstFormat.Proofs.Tree.Planting

/-!
# Events mean what the actions mean

A recorder follows a desk: the events that it has written are those of a sketch of all frames, the
frames around the innermost one first, and it knows the start of each node (`Recorder.Follows`).
Every action keeps this. When all nodes are finished or dissolved, the events are those of the
sketches of the one frame that is left, and they are replayed into the steps of its trees.

A frame that was started around a node stands behind that node, and takes the node back into the
frame around it when it is dissolved. The start of a dissolved frame is dropped or becomes void, but
a void start never comes last in the innermost frame. Hence a node that was put down last still has
nothing behind it when it is wrapped.

## Key results

- `Recorder.perform_follows`: what one action keeps
- `Recorder.run_follows`: what any sequence of actions keeps
- `replay_recorded`: the recorded events build the trees of the frames
-/

namespace TypstFormat

open Sketch Parse

/-! ## Lists of entries -/

private theorem getElem?_append_length {α : Type} (l : List α) (a : α) (r : List α) :
    (l ++ a :: r)[l.length]? = some a := by
  simp

private theorem set_append_length {α : Type} (l : List α) (a b : α) (r : List α) :
    (l ++ a :: r).set l.length b = l ++ b :: r := by
  simp

section

variable (kindOf : Nat → Kind) (front behind : List LogEntry) (name : Nat) (link link' : Option Int)

private theorem getElem?_own :
    ((front ++ .own name link :: behind).map (LogEntry.event kindOf))[front.length]? =
      some (.start (kindOf name) link) := by
  rw [List.getElem?_map, getElem?_append_length]
  rfl

private theorem set_own :
    ((front ++ .own name link :: behind).map (LogEntry.event kindOf)).set front.length
        (.start (kindOf name) link') =
      (front ++ .own name link' :: behind).map (LogEntry.event kindOf) := by
  rw [← set_append_length front (.own name link) (.own name link') behind, List.map_set]
  rfl

end

/-- A node among other entries, with any link. -/
theorem exists_own (before : List LogEntry) (name : Nat) (wraps : Bool) (children : List Sketch)
    (after : List LogEntry) :
    ∃ front behind, front.length = before.length + (node name wraps children).head ∧
      ∀ link, before ++ ((node name wraps children).entries link ++ after) =
        front ++ .own name link :: behind := by
  obtain ⟨front, behind, hlength, hentries⟩ := entries_node name wraps children
  refine ⟨before ++ front, behind ++ after, by simp [hlength], fun link => ?_⟩
  simp [hentries link]

theorem exists_node {sketch : Sketch} (h : sketch.isNode = true) :
    ∃ name wraps children, sketch = node name wraps children := by
  cases sketch with
  | node name wraps children => exact ⟨name, wraps, children, rfl⟩
  | _ => cases h

/-- The starts of the finished nodes stand where they are said to, and nowhere else. -/
def Finds (closed : List Closed) (entries : List LogEntry) : Prop :=
  ∀ name i : Nat, closed[name]? = some ⟨i⟩ ↔ ∃ link, entries[i]? = some (.own name link)

namespace Finds

variable {closed : List Closed} {front behind : List LogEntry} {name : Nat}

/-- Behind all starts there may be other events. -/
theorem append_other (event : Event) :
    Finds closed (front ++ [.other event]) ↔ Finds closed front := by
  have hsame (name i : Nat) (link : Option Int) :
      (front ++ [LogEntry.other event])[i]? = some (.own name link) ↔
        front[i]? = some (.own name link) := by
    rw [List.getElem?_append]
    split
    · exact Iff.rfl
    · rename_i hle
      have hnone : front[i]? = none := List.getElem?_eq_none (Nat.le_of_not_lt hle)
      rw [hnone, List.getElem?_singleton]
      split <;> simp
  unfold Finds
  simp only [hsame]

/-- A start may have any link. -/
theorem relink (link link' : Option Int) (h : Finds closed (front ++ .own name link :: behind)) :
    Finds closed (front ++ .own name link' :: behind) := by
  intro n i
  rw [h n i, ← set_append_length front (.own name link) (.own name link') behind]
  by_cases hi : front.length = i
  · subst hi
    rw [getElem?_append_length, List.getElem?_set_self (by simp)]
    simp
  · rw [List.getElem?_set_ne hi]

/-- A start that was no node's becomes that of the next node. -/
theorem finish {event : Event} (link : Option Int)
    (h : Finds closed (front ++ .other event :: behind)) :
    Finds (closed ++ [⟨front.length⟩]) (front ++ .own closed.length link :: behind) := by
  intro n i
  rw [← set_append_length front (.other event) (.own closed.length link) behind]
  have hn := h n i
  by_cases hi : front.length = i
  · subst hi
    -- At this place there was the start of no node, so the new one is the only node that has it.
    rw [getElem?_append_length] at hn
    have hfree : closed[n]? ≠ some ⟨front.length⟩ := by
      intro hsome
      obtain ⟨_, hother⟩ := hn.1 hsome
      cases hother
    rw [List.getElem?_set_self (by simp), List.getElem?_append]
    split
    · rename_i hlt
      refine iff_of_false hfree ?_
      rintro ⟨link', hlink⟩
      cases hlink
      exact Nat.lt_irrefl _ hlt
    · rename_i hle
      rw [List.getElem?_singleton]
      constructor
      · intro hsome
        refine ⟨link, ?_⟩
        split at hsome
        · have : n = closed.length := by omega
          rw [this]
        · cases hsome
      · rintro ⟨link', hlink⟩
        cases hlink
        simp
  · rw [List.getElem?_set_ne hi, ← hn, List.getElem?_append]
    split
    · exact Iff.rfl
    · rename_i hle
      have hnone : closed[n]? = none := List.getElem?_eq_none (Nat.le_of_not_lt hle)
      rw [hnone, List.getElem?_singleton]
      split
      · simp [hi]
      · simp

end Finds

/-! ## Frames and their sketches -/

/-- A void start does not come last. -/
def Tight (sketches : List Sketch) : Prop :=
  ∀ last ∈ sketches.getLast?, last.isVoid = false

theorem Tight.append {sketches more : List Sketch} (h : Tight sketches) (hmore : Tight more) :
    Tight (sketches ++ more) := by
  intro last hlast
  rw [List.getLast?_append] at hlast
  cases hsome : more.getLast? with
  | none =>
    rw [hsome] at hlast
    exact h last hlast
  | some s =>
    rw [hsome] at hlast
    cases hlast
    exact hmore last hsome

/-- What is left of the sketches of a dissolved frame: its start becomes void, unless nothing stands
behind it. -/
def leftover : List Sketch → List Sketch
  | [] => []
  | sketch :: sketches => .void :: sketch :: sketches

@[simp] theorem plansAll_leftover (sketches : List Sketch) :
    plansAll (leftover sketches) = plansAll sketches := by
  cases sketches <;> rfl

theorem linkedAll_leftover {sketches : List Sketch} (h : LinkedAll sketches) :
    LinkedAll (leftover sketches) := by
  cases sketches with
  | nil => exact h
  | cons sketch sketches => exact ⟨trivial, h⟩

theorem Tight.leftover {sketches : List Sketch} (h : Tight sketches) :
    Tight (leftover sketches) := by
  cases sketches with
  | nil => exact h
  | cons sketch sketches => exact h

theorem tight_append_node (sketches : List Sketch) {node : Sketch} (hnode : node.isNode = true) :
    Tight (sketches ++ [node]) := by
  rintro last hlast
  rw [List.getLast?_concat] at hlast
  cases hlast
  cases node with
  | node => rfl
  | _ => cases hnode

/-- A dissolved frame leaves all starts where they were. -/
theorem Finds.dissolve {closed : List Closed} {entries : List LogEntry} {inner : Option Sketch}
    {more : List Sketch} (hnode : ∀ s ∈ inner, s.isNode = true)
    (h : Finds closed (entries ++ wrapped inner ++ .other .tombstone :: entriesAll more)) :
    Finds closed (entries ++ entriesAll (inner.toList ++ leftover more)) := by
  have hdropped : Finds closed (entries ++ wrapped inner ++ entriesAll (leftover more)) := by
    cases more with
    | nil => simpa [leftover, entriesAll] using (append_other _).1 h
    | cons sketch sketches => exact h
  cases inner with
  | none => simpa [wrapped] using hdropped
  | some inner =>
    obtain ⟨name, wraps, children, rfl⟩ := exists_node (hnode inner rfl)
    obtain ⟨front, behind, -, hsplit⟩ :=
      exists_own entries name wraps children (entriesAll (leftover more))
    rw [List.append_assoc, wrapped, hsplit] at hdropped
    have hunlinked := hdropped.relink _ none
    rw [← hsplit] at hunlinked
    exact hunlinked

/-- Frames, with the starts of their nodes, hold entries: those of the frames around the innermost
one and, behind them, those of its own sketches. -/
inductive Holds : Frame → List Frame → List Opening → List LogEntry → List Sketch → Prop where
  | base {frame : Frame} {sketches : List Sketch} :
    frame.around = none → frame.behind = plansAll sketches → LinkedAll sketches →
    Holds frame [] [] (entriesAll sketches) sketches
  | level {outer frame : Frame} {frames : List Frame} {opened : List Opening}
    {entries : List LogEntry} {sketches more : List Sketch} {inner : Option Sketch} :
    Holds outer frames opened entries sketches → (inner = none → Tight sketches) →
    (∀ s ∈ inner, s.isNode = true) → LinkedAll inner.toList →
    frame.around.toList = plansAll inner.toList → frame.behind = plansAll more → LinkedAll more →
    Holds frame (outer :: frames)
      ({ index := (entries ++ wrapped inner).length
         wraps := inner.map fun s => entries.length + s.head } :: opened)
      (entries ++ wrapped inner ++ .other .tombstone :: entriesAll more) more

namespace Holds

variable {frame : Frame} {frames : List Frame} {opened : List Opening} {entries : List LogEntry}
  {sketches more : List Sketch}

/-- More is put down in the innermost frame. -/
theorem push (h : Holds frame frames opened entries sketches) (more : List Sketch)
    (hmore : LinkedAll more) :
    Holds (frame.push (plansAll more)) frames opened (entries ++ entriesAll more)
      (sketches ++ more) := by
  cases h with
  | base haround hbehind hlinked =>
    rw [← entriesAll_append]
    refine .base haround ?_ ((linkedAll_append _ _).2 ⟨hlinked, hmore⟩)
    rw [plansAll_append, ← hbehind]
    rfl
  | level houter htight hnode hinner haround hbehind hlinked =>
    rw [List.append_assoc, List.cons_append, ← entriesAll_append]
    refine .level houter htight hnode hinner haround ?_ ((linkedAll_append _ _).2 ⟨hlinked, hmore⟩)
    rw [plansAll_append, ← hbehind]
    rfl

/-- A frame is started. -/
theorem start (h : Holds frame frames opened entries sketches) (htight : Tight sketches) :
    Holds {} (frame :: frames) ({ index := entries.length } :: opened)
      (entries ++ [.other .tombstone]) [] := by
  have hlevel : Holds {} (frame :: frames) (⟨(entries ++ wrapped none).length, none⟩ :: opened)
      (entries ++ wrapped none ++ .other .tombstone :: entriesAll []) [] :=
    .level h (fun _ => htight) (by simp) trivial rfl rfl trivial
  simpa [wrapped, entriesAll] using hlevel

/-- A frame is started around a node. -/
theorem wrap {name : Nat} {wraps : Bool} {inside : List Sketch} {inner : Sketch}
    (h : Holds frame frames opened entries sketches) (hinner : inner = .node name wraps inside)
    (hlinked : inner.Linked) :
    Holds { around := some (.node name (plansAll inside)) } (frame :: frames)
      (⟨(entries ++ wrapped inner).length, some (entries.length + inner.head)⟩ :: opened)
      (entries ++ wrapped inner ++ [.other .tombstone]) [] := by
  subst hinner
  have hinner : LinkedAll (some (Sketch.node name wraps inside)).toList := ⟨hlinked, trivial⟩
  have hnothing : LinkedAll [] := trivial
  refine .level h (fun hnone => ?_) ?_ hinner rfl rfl hnothing
  · cases hnone
  · rintro _ ⟨⟩
    rfl

theorem behind_eq (h : Holds frame frames opened entries sketches) :
    frame.behind = plansAll sketches := by
  cases h with
  | base _ hbehind => exact hbehind
  | level _ _ _ _ _ hbehind => exact hbehind

/-- The one frame that is left when no node is open. -/
theorem of_closed (h : Holds frame [] opened entries sketches) :
    entries = entriesAll sketches ∧ frame.children = plansAll sketches ∧ LinkedAll sketches := by
  cases h with
  | base haround hbehind hlinked =>
    refine ⟨rfl, ?_, hlinked⟩
    rw [Frame.children, haround, hbehind]
    rfl

/-- What was put down last is taken out of the innermost frame. -/
theorem pop {last : Sketch} (h : Holds frame frames opened entries (sketches ++ [last])) :
    ∃ front, entries = front ++ last.entries none ∧ last.Linked ∧
      Holds { frame with behind := plansAll sketches } frames opened front sketches := by
  cases h with
  | base haround _ hlinked =>
    obtain ⟨hlinked, hlast⟩ := (linkedAll_append _ _).1 hlinked
    refine ⟨entriesAll sketches, ?_, hlast.1, .base haround rfl hlinked⟩
    rw [entriesAll_append, entriesAll_singleton]
  | level houter htight hnode hinner haround _ hlinked =>
    obtain ⟨hlinked, hlast⟩ := (linkedAll_append _ _).1 hlinked
    refine ⟨_, ?_, hlast.1, .level houter htight hnode hinner haround rfl hlinked⟩
    rw [entriesAll_append, entriesAll_singleton, List.append_assoc (_ ++ _), List.cons_append]

end Holds

/-- A node that stands last among plans stands last among the sketches. -/
theorem exists_last_node {sketches : List Sketch} {name : Nat} {children : List Plan}
    (htight : Tight sketches) (hlast : (plansAll sketches).getLast? = some (.node name children)) :
    ∃ front wraps inside, sketches = front ++ [.node name wraps inside] ∧
      children = plansAll inside ∧ (plansAll sketches).dropLast = plansAll front := by
  rcases List.eq_nil_or_concat sketches with rfl | ⟨front, last, rfl⟩
  · cases hlast
  · rw [List.concat_eq_append] at *
    have hvoid := htight last (by simp)
    rw [plansAll_append, plansAll_singleton] at hlast ⊢
    cases last with
    | void => cases hvoid
    | token t => simp [plans] at hlast
    | node own wraps inside =>
      simp only [plans, List.getLast?_append, List.getLast?_singleton, Option.some_or,
        Option.some.injEq, Plan.node.injEq] at hlast
      obtain ⟨rfl, rfl⟩ := hlast
      exact ⟨front, wraps, inside, rfl, rfl, by simp [plans]⟩

/-! ## Recorders and desks -/

/-- The recorder has written the entries of the sketches that the frames of the desk stand for, and
knows where the finished nodes start. Its parser reads the tokens that the desk reads. -/
structure Recorder.Follows (recorder : Recorder) (desk : Desk) (p : Parser)
    (entries : List LogEntry) (sketches : List Sketch) : Prop where
  reader_eq : p = { desk.reader with events := p.events }
  holds : Holds desk.frame desk.outer recorder.opened entries sketches
  tight : Tight sketches
  events_eq : p.events.toList = entries.map (LogEntry.event (kindIn desk.kinds))
  finds : Finds recorder.closed entries
  length_eq : recorder.closed.length = desk.kinds.length
  kinds : ∀ kind ∈ desk.kinds, kind ≠ .tombstone

namespace Recorder

variable {recorder : Recorder} {desk desk' : Desk} {p : Parser} {entries : List LogEntry}
  {sketches : List Sketch}

/-- An action was carried out, and the recorder follows the desk behind it. -/
def Returned (desk : Desk) (recorder : Recorder) (p : Parser) : Prop :=
  ∃ entries sketches, recorder.Follows desk p entries sketches

namespace Follows

theorem size_eq (h : recorder.Follows desk p entries sketches) :
    p.events.size = entries.length := by
  rw [← Array.length_toList, h.events_eq, List.length_map]

theorem getElem?_events (h : recorder.Follows desk p entries sketches) (i : Nat) :
    p.events[i]? = entries[i]?.map (LogEntry.event (kindIn desk.kinds)) := by
  rw [← Array.getElem?_toList, h.events_eq, List.getElem?_map]

theorem isAtEnd_eq (h : recorder.Follows desk p entries sketches) :
    p.isAtEnd = desk.reader.isAtEnd := by
  rw [h.reader_eq]
  rfl

/-- Only finished nodes have starts of their own. -/
theorem lt_of_mem (h : recorder.Follows desk p entries sketches) {name : Nat} {link : Option Int}
    (hmem : .own name link ∈ entries) : name < desk.kinds.length := by
  obtain ⟨i, hi⟩ := List.mem_iff_getElem?.1 hmem
  have hclosed := (h.finds name i).2 ⟨link, hi⟩
  rw [← h.length_eq]
  exact (List.getElem?_eq_some_iff.1 hclosed).1

end Follows

/-! ## One action -/

theorem start_follows (h : recorder.Follows desk p entries sketches) :
    Returns (recorder.perform .start) p
      (Returned { desk with frame := {}, outer := desk.frame :: desk.outer }) := by
  have hstart : Returns Parse.start p fun node p' =>
      node = { index := entries.length } ∧ p' = { p with events := p.events.push .tombstone } :=
    ⟨_, _, rfl, by rw [h.size_eq], rfl⟩
  refine .bind hstart ?_
  rintro _ _ ⟨rfl, rfl⟩
  refine .pure ⟨entries ++ [.other .tombstone], [], ?_, ?_, ?_, ?_, ?_, h.length_eq, h.kinds⟩
  · rw [h.reader_eq]
  · exact h.holds.start h.tight
  · simp [Tight]
  · simpa [LogEntry.event] using h.events_eq
  · exact (Finds.append_other _).2 h.finds

theorem token_follows (h : recorder.Follows desk p entries sketches)
    (hdesk : desk.perform .token = some desk') :
    Returns (recorder.perform .token) p (Returned desk') := by
  refine .modified (.pure ?_)
  simp only [Desk.perform] at hdesk
  split at hdesk
  · -- At an end nothing is consumed.
    rename_i hend
    cases hdesk
    have hbump : p.bump = p := by
      simp [Parser.bump, Parser.bumpAs, h.isAtEnd_eq, hend]
    rw [hbump]
    exact ⟨entries, sketches, h⟩
  · rename_i hend
    cases hdesk
    let token := desk.reader.stream.current
    have hstream : p.stream = desk.reader.stream := by
      rw [h.reader_eq]
    have hbump : p.bump = { desk.reader.bump with
        events := p.events.push (.token token.kind token.range.stop) } := by
      simp only [Parser.bump, Parser.bumpAs, h.isAtEnd_eq, hend, Bool.false_eq_true, if_false,
        Parser.range, hstream]
      rw [h.reader_eq]
      rfl
    rw [hbump]
    have hholds := h.holds.push [.token token] ⟨trivial, trivial⟩
    rw [entriesAll_singleton] at hholds
    refine ⟨_, _, rfl, hholds, h.tight.append ?_, ?_, ?_, h.length_eq, h.kinds⟩
    · rintro _ ⟨⟩
      rfl
    · simp [LogEntry.event, Sketch.entries, h.events_eq, token]
    · exact (Finds.append_other _).2 h.finds

theorem kindIn_append_of_lt {kinds : List Kind} {name : Nat} (h : name < kinds.length)
    (more : List Kind) : kindIn (kinds ++ more) name = kindIn kinds name := by
  unfold kindIn
  rw [List.getD_eq_getElem?_getD, List.getD_eq_getElem?_getD, List.getElem?_append_left h]

theorem kindIn_length (kinds : List Kind) (kind : Kind) :
    kindIn (kinds ++ [kind]) kinds.length = kind := by
  simp [kindIn]

/-- The kind of the next node changes no event that is there. -/
theorem Follows.events_append (h : recorder.Follows desk p entries sketches) (kind : Kind) :
    p.events.toList = entries.map (LogEntry.event (kindIn (desk.kinds ++ [kind]))) := by
  rw [h.events_eq]
  refine List.map_congr_left fun entry hentry => ?_
  cases entry with
  | other event => rfl
  | own name link =>
    show Event.start _ link = Event.start _ link
    rw [kindIn_append_of_lt (h.lt_of_mem hentry)]

/-- The innermost node becomes the next one that is finished. -/
theorem finish_follows (h : recorder.Follows desk p entries sketches) {kind : Kind}
    (hkind : kind ≠ .tombstone) (hdesk : desk.perform (.finish kind) = some desk') :
    Returns (recorder.perform (.finish kind)) p (Returned desk') := by
  obtain ⟨reader, kinds, frame, outer⟩ := desk
  obtain ⟨opened, closed⟩ := recorder
  have hevents := h.events_append kind
  obtain ⟨hreader, hholds, -, hold, hfinds, hlength, hkinds⟩ := h
  cases hholds with
  | base => cases hdesk
  | @level outer _ outers opened entries below _ inner hbelow _ hnode hinner haround hbehind
      hmore =>
    cases hdesk
    let node : Opening :=
      { index := (entries ++ wrapped inner).length
        wraps := inner.map fun s => entries.length + s.head }
    have hstart : p.events[node.index]? = some .tombstone := by
      rw [← Array.getElem?_toList, hevents, List.getElem?_map, getElem?_append_length]
      rfl
    have hfinish : Returns (node.finish kind) p fun finished p' => finished = ⟨node.index⟩ ∧
        p' = { p with
          events := (p.events.setIfInBounds node.index (.start kind none)).push .finish } :=
      .startAt hstart (.modified (.modified (.pure ⟨rfl, rfl⟩)))
    refine .bind hfinish ?_
    rintro _ _ ⟨rfl, rfl⟩
    have hlinked := linked_around kinds.length hnode hinner hmore
    have hpush := hbelow.push [around kinds.length inner sketches] ⟨hlinked, trivial⟩
    have hplan : plansAll (inner.toList ++ sketches) = frame.children := by
      rw [plansAll_append, ← haround, ← hbehind]
      rfl
    rw [entriesAll_singleton, plansAll_singleton, plans_around, entries_around, hplan] at hpush
    have hlist : entries ++ (wrapped inner ++
          .own kinds.length none :: (entriesAll sketches ++ [.other .finish])) =
        ((entries ++ wrapped inner) ++ .own kinds.length none :: entriesAll sketches) ++
          [.other .finish] := by simp
    rw [hlist] at hpush
    refine .pure ⟨_, _, ?_, hpush, ?_, ?_, ?_, ?_, ?_⟩
    · rw [hreader]
    · exact tight_append_node below rfl
    · have hindex : node.index = ((entries ++ wrapped inner).map
          (LogEntry.event (kindIn (kinds ++ [kind])))).length := (List.length_map _).symm
      show ((p.events.setIfInBounds node.index _).push _).toList = _
      rw [Array.toList_push, Array.toList_setIfInBounds, hevents, List.map_append, List.map_cons,
        hindex, set_append_length]
      simp [LogEntry.event, kindIn_length]
    · rw [Finds.append_other, ← hlength]
      exact hfinds.finish none
    · simp [hlength]
    · intro k hk
      rcases List.mem_append.1 hk with hk | hk
      · exact hkinds k hk
      · rw [List.mem_singleton.1 hk]
        exact hkind

/-- The start of a node is dropped, or becomes void. -/
theorem drop_start {node : Opening} {kindOf : Nat → Kind} {front : List LogEntry}
    {more : List Sketch} (hindex : node.index = front.length)
    (hevents : p.events.toList =
      (front ++ .other .tombstone :: entriesAll more).map (LogEntry.event kindOf)) :
    Returns node.dropStart p fun _ p' => p' = { p with events := p'.events } ∧
      p'.events.toList = (front ++ entriesAll (leftover more)).map (LogEntry.event kindOf) := by
  have hsize : p.events.size = node.index + 1 + (entriesAll more).length := by
    rw [← Array.length_toList, hevents, List.length_map, List.length_append, List.length_cons,
      hindex]
    omega
  refine .get ?_
  cases more with
  | nil =>
    have hstart : p.events[node.index]? = some .tombstone := by
      rw [← Array.getElem?_toList, hevents, hindex, List.getElem?_map, getElem?_append_length]
      rfl
    have hlast : node.index + 1 = p.events.size := hsize.symm
    rw [if_pos hlast]
    refine .startAt hstart (.of_modify ⟨rfl, ?_⟩)
    show p.events.pop.toList = _
    simp [hevents, entriesAll, leftover]
  | cons sketch sketches =>
    have hpos : 0 < (entriesAll (sketch :: sketches)).length := by
      rw [entriesAll, List.length_append, length_entries]
      have := sketch.head_lt_size
      omega
    rw [if_neg (by omega)]
    exact .pure ⟨rfl, hevents⟩

/-- The node that a dissolved one was started around loses its link. -/
theorem dissolve_start {node : Opening} {kindOf : Nat → Kind} {inner : Option Sketch}
    {more : List Sketch} (hnode : ∀ s ∈ inner, s.isNode = true)
    (hindex : node.index = (entries ++ wrapped inner).length)
    (hwraps : node.wraps = inner.map fun s => entries.length + s.head)
    (hevents : p.events.toList = (entries ++ wrapped inner ++ .other .tombstone ::
      entriesAll more).map (LogEntry.event kindOf)) :
    Returns node.dissolve p fun _ p' => p' = { p with events := p'.events } ∧
      p'.events.toList =
        (entries ++ entriesAll (inner.toList ++ leftover more)).map (LogEntry.event kindOf) := by
  refine .bind (drop_start hindex hevents) ?_
  rintro _ p' ⟨hp', hdropped⟩
  cases inner with
  | none =>
    rw [hwraps]
    refine .pure ⟨hp', ?_⟩
    simpa [wrapped] using hdropped
  | some inner =>
    obtain ⟨name, wraps, children, rfl⟩ := exists_node (hnode inner rfl)
    obtain ⟨front, behind, hlength, hsplit⟩ :=
      exists_own entries name wraps children (entriesAll (leftover more))
    rw [List.append_assoc, wrapped, hsplit] at hdropped
    rw [hwraps, Option.map_some, ← hlength]
    have hstart : p'.events[front.length]? =
        some (.start (kindOf name) (some ((Sketch.node name wraps children).span : Nat))) := by
      rw [← Array.getElem?_toList, hdropped]
      exact getElem?_own ..
    refine .startAt hstart (.of_modify ⟨by rw [hp'], ?_⟩)
    show (p'.events.setIfInBounds front.length _).toList = _
    rw [Array.toList_setIfInBounds, hdropped, set_own, ← hsplit]
    rfl

/-- What belongs to the innermost node goes to the frame around it. -/
theorem dissolve_follows (h : recorder.Follows desk p entries sketches)
    (hdesk : desk.perform .dissolve = some desk') :
    Returns (recorder.perform .dissolve) p (Returned desk') := by
  obtain ⟨reader, kinds, frame, outer⟩ := desk
  obtain ⟨opened, closed⟩ := recorder
  obtain ⟨hreader, hholds, htight, hevents, hfinds, hlength, hkinds⟩ := h
  cases hholds with
  | base => cases hdesk
  | @level outer _ outers opened entries below _ inner hbelow hbelowTight hnode hinner haround
      hbehind hmore =>
    cases hdesk
    have hpush := hbelow.push (inner.toList ++ leftover sketches)
      ((linkedAll_append _ _).2 ⟨hinner, linkedAll_leftover hmore⟩)
    have hplan : plansAll (inner.toList ++ leftover sketches) = frame.children := by
      rw [plansAll_append, plansAll_leftover, ← haround, ← hbehind]
      rfl
    rw [hplan] at hpush
    have hlast : Tight (below ++ (inner.toList ++ leftover sketches)) := by
      rw [← List.append_assoc]
      refine Tight.append ?_ htight.leftover
      cases inner with
      | none => simpa using hbelowTight rfl
      | some inner => exact tight_append_node below (hnode inner rfl)
    refine .bind (dissolve_start hnode rfl rfl hevents) ?_
    rintro _ p' ⟨hp', hevents'⟩
    exact .pure ⟨_, _, by rw [hp', hreader], hpush, hlast, hevents', hfinds.dissolve hnode, hlength,
      hkinds⟩

/-- The node that was put down last gets a link to the start that is written behind it. -/
theorem wrap_start {kindOf : Nat → Kind} {name : Nat} {wraps : Bool} {inside : List Sketch}
    (inner : Sketch) (hinner : inner = .node name wraps inside)
    (hevents : p.events.toList = (entries ++ inner.entries none).map (LogEntry.event kindOf)) :
    Returns (Closed.wrap ⟨entries.length + inner.head⟩) p fun node p' =>
      node = ⟨(entries ++ wrapped inner).length, some (entries.length + inner.head)⟩ ∧
      p' = { p with events := p'.events } ∧
      p'.events.toList =
        (entries ++ wrapped inner ++ [LogEntry.other .tombstone]).map (LogEntry.event kindOf) := by
  have hsize : p.events.size = (entries ++ wrapped inner).length := by
    rw [← Array.length_toList, hevents, List.length_map, List.length_append, List.length_append,
      wrapped, length_entries, length_entries]
  have hlt := inner.head_lt_size
  have hspan := inner.head_add_span
  have hwrapped : (entries ++ wrapped inner).length = entries.length + inner.size := by
    rw [List.length_append, wrapped, length_entries]
  obtain ⟨front, behind, hlength, hsplit⟩ :=
    exists_own entries name wraps inside [.other .tombstone]
  rw [← hinner] at hlength hsplit
  have hstarted : (p.events.push .tombstone).toList =
      (front ++ .own name none :: behind).map (LogEntry.event kindOf) := by
    rw [Array.toList_push, hevents, ← hsplit]
    simp [LogEntry.event]
  have hstart : (p.events.push .tombstone)[front.length]? = some (.start (kindOf name) none) := by
    rw [← Array.getElem?_toList, hstarted]
    exact getElem?_own ..
  refine .bind (R := fun node p' => node = ⟨p.events.size, none⟩ ∧
    p' = { p with events := p.events.push .tombstone }) ⟨_, _, rfl, rfl, rfl⟩ ?_
  rintro _ _ ⟨rfl, rfl⟩
  dsimp only
  -- The link leads over all events of the node from its own start on.
  have hlink : p.events.size - front.length = inner.span := by omega
  rw [if_neg (by omega), ← hlength]
  refine .startAt hstart (.modified (.pure ⟨by rw [hsize], rfl, ?_⟩))
  show ((p.events.push .tombstone).setIfInBounds front.length _).toList = _
  rw [Array.toList_setIfInBounds, hstarted, hlink, set_own, ← hsplit, List.append_assoc]
  rfl

/-- A node is started around the one that was put down last. -/
theorem wrap_follows (h : recorder.Follows desk p entries sketches) {name : Nat}
    (hdesk : desk.perform (.wrap name) = some desk') :
    Returns (recorder.perform (.wrap name)) p (Returned desk') := by
  simp only [Desk.perform] at hdesk
  split at hdesk
  case h_2 => cases hdesk
  rename_i own children hlast
  split at hdesk
  case isFalse => cases hdesk
  rename_i hown
  subst hown
  cases hdesk
  rw [h.holds.behind_eq] at hlast ⊢
  obtain ⟨outer, wraps, inside, rfl, rfl, hdrop⟩ := exists_last_node h.tight hlast
  obtain ⟨before, rfl, hlinked, hbefore⟩ := h.holds.pop
  rw [hdrop]
  obtain ⟨inner, hinner⟩ : ∃ inner, inner = Sketch.node own wraps inside := ⟨_, rfl⟩
  obtain ⟨front, behind, hfront, hsplit⟩ := exists_own before own wraps inside []
  have hevents := h.events_eq
  have hfinds := h.finds
  rw [← List.append_nil (Sketch.entries _ _), hsplit] at hfinds
  rw [← hinner] at hevents hfront hsplit hlinked
  have hclosed : recorder.closed[own]? = some ⟨before.length + inner.head⟩ := by
    rw [← hfront]
    exact (hfinds own front.length).2 ⟨none, getElem?_append_length _ _ _⟩
  unfold Recorder.perform
  dsimp only
  rw [hclosed]
  refine .bind (wrap_start inner hinner hevents) ?_
  rintro _ p' ⟨rfl, hp', hevents'⟩
  refine .pure ⟨_, _, by rw [hp', h.reader_eq], hbefore.wrap hinner hlinked, by simp [Tight],
    hevents', ?_, h.length_eq, h.kinds⟩
  have hrelinked := hfinds.relink _ (some (inner.span : Nat))
  rw [← hsplit, List.append_nil] at hrelinked
  exact (Finds.append_other _).2 hrelinked

/-- A finished node gets another kind. -/
theorem rename_follows (h : recorder.Follows desk p entries sketches) {name : Nat} {kind : Kind}
    (hkind : kind ≠ .tombstone) (hdesk : desk.perform (.rename name kind) = some desk') :
    Returns (recorder.perform (.rename name kind)) p (Returned desk') := by
  simp only [Desk.perform] at hdesk
  split at hdesk
  case isFalse => cases hdesk
  rename_i hlt
  cases hdesk
  obtain ⟨⟨i⟩, hclosed⟩ : ∃ closed, recorder.closed[name]? = some closed :=
    ⟨_, List.getElem?_eq_getElem (h.length_eq ▸ hlt)⟩
  obtain ⟨link, hentry⟩ := (h.finds name i).1 hclosed
  have hstart : p.events[i]? = some (.start (kindIn desk.kinds name) link) := by
    rw [h.getElem?_events, hentry]
    rfl
  have hsame : kindIn (desk.kinds.set name kind) name = kind := by
    simp [kindIn, hlt]
  have hother (n : Nat) (hn : n ≠ name) :
      kindIn (desk.kinds.set name kind) n = kindIn desk.kinds n := by
    simp [kindIn, List.getElem?_set_ne hn.symm]
  have honly (j : Nat) (link' : Option Int) (hj : entries[j]? = some (.own name link')) :
      j = i := by
    have hfound := (h.finds name j).2 ⟨link', hj⟩
    rw [hclosed] at hfound
    cases hfound
    rfl
  have hrename : Returns (Closed.rename ⟨i⟩ kind) p fun _ p' =>
      p' = { p with events := p.events.setIfInBounds i (.start kind link) } :=
    .startAt hstart (.of_modify rfl)
  unfold Recorder.perform
  dsimp only
  rw [hclosed]
  refine .bind hrename ?_
  rintro _ _ rfl
  refine .pure ⟨entries, sketches, by rw [h.reader_eq], h.holds, h.tight, ?_, h.finds, ?_, ?_⟩
  · show (p.events.setIfInBounds i _).toList = _
    rw [Array.toList_setIfInBounds, h.events_eq, LogEntry.map_update hother hentry honly, hsame]
  · simp [h.length_eq]
  · intro k hk
    rcases List.mem_or_eq_of_mem_set hk with hk | rfl
    · exact h.kinds k hk
    · exact hkind

/-- What an action does to the frames, the recorder does to its events. -/
theorem perform_follows (h : recorder.Follows desk p entries sketches) {action : NodeAction}
    (hkind : action.kind? ≠ some .tombstone) (hdesk : desk.perform action = some desk') :
    Returns (recorder.perform action) p (Returned desk') := by
  cases action with
  | start =>
    cases hdesk
    exact start_follows h
  | token => exact token_follows h hdesk
  | finish kind => exact finish_follows h (fun heq => hkind (congrArg some heq)) hdesk
  | dissolve => exact dissolve_follows h hdesk
  | wrap name => exact wrap_follows h hdesk
  | rename name kind => exact rename_follows h (fun heq => hkind (congrArg some heq)) hdesk

/-- Whatever actions do to the frames, the recorder does to its events. -/
theorem run_follows {actions : List NodeAction}
    (hkinds : ∀ action ∈ actions, action.kind? ≠ some .tombstone)
    (h : recorder.Follows desk p entries sketches) (hdesk : desk.run actions = some desk') :
    Returns (recorder.run actions) p (Returned desk') := by
  induction actions generalizing recorder desk p entries sketches with
  | nil =>
    cases hdesk
    exact .pure ⟨entries, sketches, h⟩
  | cons action actions ih =>
    unfold Desk.run at hdesk
    rw [List.foldlM_cons] at hdesk
    obtain ⟨next, hnext, hrest⟩ := Option.bind_eq_some_iff.1 hdesk
    unfold Recorder.run
    rw [List.foldlM_cons]
    refine .bind (perform_follows h (hkinds _ List.mem_cons_self) hnext) ?_
    rintro recorder' p' ⟨entries', sketches', h'⟩
    exact ih (fun a ha => hkinds a (List.mem_cons_of_mem _ ha)) h' hrest

/-- A recorder that has written nothing follows a desk on which there is nothing. -/
theorem empty_follows (p : Parser) :
    ({} : Recorder).Follows { reader := p } { p with events := #[] } [] [] :=
  { reader_eq := rfl
    holds := @Holds.base {} [] rfl rfl trivial
    tight := by simp [Tight]
    events_eq := rfl
    finds := by simp [Finds]
    length_eq := rfl
    kinds := by simp }

end Recorder

/-! ## The trees of the frames -/

namespace Plan

variable (kindOf : Nat → Kind) (text : Kind → Nat → List Char)

mutual

theorem take_steps : (plan : Plan) → (builder : TreeBuilder) → (rest : List Step) →
    (steps kindOf plan ++ rest).foldlM (TreeBuilder.take text) builder =
      rest.foldlM (TreeBuilder.take text) (builder.push (tree kindOf text plan))
  | token _, _, _ => rfl
  | node name children, builder, rest => by
    -- The trees of the children go to the node, which goes where the builder was when it is left.
    have hinner := take_stepsAll children (builder.enter (kindOf name)) (.leave :: rest)
    rw [TreeBuilder.enter, TreeBuilder.pushAll_of_stack] at hinner
    simp only [steps, List.cons_append, List.append_assoc, List.nil_append]
    show (stepsAll kindOf children ++ .leave :: rest).foldlM _ (builder.enter (kindOf name)) = _
    rw [TreeBuilder.enter, hinner]
    show rest.foldlM _ (builder.push (OpenNode.toTree _)) = _
    simp [OpenNode.toTree, tree]

theorem take_stepsAll : (plans : List Plan) → (builder : TreeBuilder) → (rest : List Step) →
    (stepsAll kindOf plans ++ rest).foldlM (TreeBuilder.take text) builder =
      rest.foldlM (TreeBuilder.take text) (builder.pushAll (trees kindOf text plans))
  | [], _, _ => rfl
  | plan :: plans, builder, rest => by
    rw [stepsAll, List.append_assoc, take_steps plan, take_stepsAll plans]
    rfl

end

end Plan

/-- Actions that frames allow, and after which no node is open, are carried out; the events that
they write are replayed, in steps that are balanced, into the trees of the one frame that is
left. -/
theorem replay_recorded {p : Parser} {actions : List NodeAction} {desk : Desk}
    (hkinds : ∀ action ∈ actions, action.kind? ≠ some .tombstone)
    (hrun : ({ reader := p } : Desk).run actions = some desk) (hclosed : desk.outer = []) :
    ∃ recorder p' steps events,
      ({} : Recorder).run actions { p with events := #[] } = .ok (recorder, p') ∧
      Event.replay p'.events = { steps, result := .ok events } ∧ Step.Balanced steps ∧
      ∀ text, steps.foldlM (TreeBuilder.take text) {} =
        .ok ⟨[], (Plan.trees (kindIn desk.kinds) text desk.frame.children).reverse⟩ := by
  obtain ⟨recorder, p', hrecorded, entries, sketches, h⟩ :=
    Recorder.run_follows hkinds (Recorder.empty_follows p) hrun
  have hholds := h.holds
  rw [hclosed] at hholds
  obtain ⟨rfl, hchildren, hlinked⟩ := hholds.of_closed
  have hkind (name : Nat) : kindIn desk.kinds name ≠ .tombstone := by
    unfold kindIn
    rw [List.getD_eq_getElem?_getD]
    cases hname : desk.kinds[name]? with
    | none => decide
    | some kind => exact h.kinds kind (List.mem_of_getElem? hname)
  obtain ⟨events, hreplay⟩ := Draft.replay_eventsAll (linkedAll_drafts hkind sketches hlinked)
  have hevents : p'.events = (Draft.eventsAll (drafts (kindIn desk.kinds) sketches)).toArray := by
    rw [eventsAll_drafts, ← h.events_eq]
  rw [← hevents, stepsAll_drafts, ← hchildren] at hreplay
  refine ⟨recorder, p', _, events, hrecorded, hreplay, ?_, fun text => ?_⟩
  · have hbalanced := Plan.balanced_stepsAll (kindIn desk.kinds) desk.frame.children .nil
    rwa [List.append_nil] at hbalanced
  · have htaken := Plan.take_stepsAll (kindIn desk.kinds) text desk.frame.children {} []
    rwa [List.append_nil, TreeBuilder.pushAll_of_roots, List.append_nil] at htaken

/-- A node is put around another one, which then gets another kind; a third one is dissolved. -/
theorem replay_recorded_sum :
    ∃ recorder p' steps events,
      ({} : Recorder).run [.start, .token, .finish .unary, .wrap 0, .token, .start, .token,
          .dissolve, .finish .binary, .rename 0 .parenthesized]
        { Parser.ofSource ['a', '+', 'b'] .code with events := #[] } = .ok (recorder, p') ∧
      Event.replay p'.events = { steps, result := .ok events } ∧ Step.Balanced steps ∧
      ∀ text, steps.foldlM (TreeBuilder.take text) {} =
        .ok ⟨[], [.node .binary
          [.node .parenthesized [.token .ident (text .ident 1)], .token .plus (text .plus 2),
            .token .ident (text .ident 3)]]⟩ := by
  let first : Token := { kind := .ident, range := { start := 0, stop := 1 } }
  let sign : Token := { kind := .plus, range := { start := 1, stop := 2 } }
  let second : Token := { kind := .ident, range := { start := 2, stop := 3 } }
  have hrun : ({ reader := Parser.ofSource ['a', '+', 'b'] .code } : Desk).run
      [.start, .token, .finish .unary, .wrap 0, .token, .start, .token, .dissolve,
        .finish .binary, .rename 0 .parenthesized] =
      some
        { reader := _
          kinds := [.parenthesized, .binary]
          frame := { behind := [.node 1 [.node 0 [.token first], .token sign, .token second]] } } :=
    rfl
  have h := replay_recorded (by decide) hrun rfl
  simpa [Frame.children, Plan.trees, Plan.tree, kindIn, first, sign, second] using h

end TypstFormat
