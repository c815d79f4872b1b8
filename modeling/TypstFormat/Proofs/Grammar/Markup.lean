import TypstFormat.Grammar.Markup
import TypstFormat.Proofs.Grammar.Expression

/-!
# What markup reads

Every element of markup begins with the current token, whatever it is, so markup goes on until it
is told to stop. Left to itself it reads up to the end of the source. Headings and items are read
only at the start of a line, as the grammar keeps track of (`IsMarkup`), and markers are text
elsewhere.

## Key results

- `markupElement_returns`: one element
- `markup_returns`: markup, which stops only at a stop, at the end of its extent or of the source
-/

namespace TypstFormat.Grammar

open Draft Parse TypstFormat.Parser

variable {rules : Rules} {n : Nat} {p p' : Parser}

/-! ## Elements one after another -/

/-- Drafts of markup. If the first one may be a heading or an item, `atStart` tells so, and `stays`
tells the same of what comes behind the last one. -/
structure IsMarkup (source : List Char) (extent : Extent) (atStart stays : Bool)
    (drafts : List Draft) : Prop where
  neat : NeatAll drafts
  plain : ∀ kind ∈ kinds drafts, kind.isMarker = false ∧ kind ≠ .markup
  lines : Kind.LineStarts atStart (siblings drafts)
  stays : stays = true → (siblings drafts).foldl Kind.staysAtStart atStart = true
  within : WithinExtent source extent drafts

namespace IsMarkup

variable {source : List Char} {extent : Extent} {atStart stays : Bool} {drafts more : List Draft}

theorem nil : IsMarkup source extent atStart atStart [] :=
  ⟨trivial, by simp, trivial, id, fun _ hmem => (nomatch hmem)⟩

theorem append {last : Bool} (h : IsMarkup source extent atStart stays drafts)
    (hmore : IsMarkup source extent stays last more) :
    IsMarkup source extent atStart last (drafts ++ more) := by
  refine ⟨(neatAll_append _ _).2 ⟨h.neat, hmore.neat⟩, ?_, ?_, fun hlast => ?_, ?_⟩
  · rw [kinds_append]
    exact List.forall_mem_append.2 ⟨h.plain, hmore.plain⟩
  · rw [siblings_append]
    exact Kind.lineStarts_append.2 ⟨h.lines, hmore.lines.mono h.stays⟩
  · rw [siblings_append, List.foldl_append]
    exact Kind.foldl_staysAtStart_mono h.stays (hmore.stays hlast)
  · intro l hl
    rcases List.mem_append.1 hl with hl | hl
    · exact h.within l hl
    · exact hmore.within l hl

/-- What is bare stands anywhere. -/
theorem of_bare (h : Bare drafts) : IsMarkup source extent atStart false drafts := by
  refine ⟨h.neat, fun kind hkind => ?_, h.lineStarts _, fun hfalse => (nomatch hfalse), ?_⟩
  · obtain ⟨-, hmarker, hmarkup, -⟩ := Kind.isOfMarkup_eq_false.1 (h.plain kind hkind)
    exact ⟨hmarker, hmarkup⟩
  · intro l hl hspace
    have hkind : l.token.kind ∈ kinds drafts :=
      List.mem_map.2 ⟨_, List.mem_filter.2 ⟨hl, rfl⟩, rfl⟩
    have htrivia := (Kind.isOfMarkup_eq_false.1 (h.plain _ hkind)).1
    rw [Kind.isTrivia_of_isSpace hspace] at htrivia
    cases htrivia

/-- A heading or an item stands at the start of a line, and any other node anywhere. -/
theorem of_node {kind : Kind} {children : List Draft} (h : NeatAll [.node kind false children])
    (hkind : kind.isNode = true) (hmarkup : kind ≠ .markup)
    (hstart : kind.marker?.isSome = true → atStart = true) :
    IsMarkup source extent atStart false [.node kind false children] :=
  ⟨h, List.forall_mem_singleton.2 ⟨Kind.isMarker_of_isNode hkind, hmarkup⟩, ⟨hstart, trivial⟩,
    fun hfalse => (nomatch hfalse), fun _ hl => (nomatch List.mem_singleton.1 hl)⟩

/-- A token that is no marker. Behind white space in which a line ends a new line starts. -/
theorem of_token {l : Look} (hlexical : l.token.kind.isLexical = true)
    (hmarker : l.token.kind.isMarker = false)
    (hstays : stays = true → Kind.staysAtStart atStart (sibling (.token l false)) = true)
    (hwithin : l.token.kind.isSpace = true → l.token.containsNewline = true →
      extent.endsBefore (Text.column source l.token.range.stop) = false) :
    IsMarkup source extent atStart stays [.token l false] := by
  refine ⟨neatAll_token _ _, List.forall_mem_singleton.2 ⟨hmarker, ?_⟩, ?_, hstays, ?_⟩
  · intro hmarkup
    have hkind : l.token.kind = .markup := hmarkup
    rw [hkind] at hlexical
    cases hlexical
  · exact lineStarts_of_kinds (List.forall_mem_singleton.2 (Kind.marker?_of_isLexical hlexical))
  · intro l' hl'
    cases List.mem_singleton.1 hl'
    exact hwithin

/-- A marker that stands elsewhere is text. -/
theorem of_text (l : Look) : IsMarkup source extent atStart false [.token l true] :=
  ⟨neatAll_token _ _, List.forall_mem_singleton.2 ⟨rfl, Kind.noConfusion⟩,
    ⟨fun h => (nomatch h), trivial⟩, fun hfalse => (nomatch hfalse),
    fun _ hl => (nomatch List.mem_singleton.1 hl)⟩

end IsMarkup

theorem blanks_returns (hp : p.Ok) :
    Returns blanks p fun _ p' => ∃ ds, Reads p ds p' ∧
      ∀ draft ∈ ds, draft.isNode = false ∧ draft.kind = .space := by
  refine .loop (fun _ p' => ∃ ds, Reads p ds p' ∧
    ∀ draft ∈ ds, draft.isNode = false ∧ draft.kind = .space) ⟨[], .refl hp, by simp⟩ ?_
  rintro _ p₁ ⟨ds, h, hblanks⟩
  refine .ask ?_
  split
  · rename_i hat
    have hat := (Bool.and_eq_true_iff.1 hat).1
    refine .bind (bump_returns h.ok (.of_isAt rfl hat)) fun _ p₂ h₂ => ?_
    refine .pure ⟨⟨_, h.trans h₂, ?_⟩, h₂.left_lt h.ok (begins_token p₁ false)⟩
    refine List.forall_mem_append.2 ⟨hblanks, List.forall_mem_singleton.2 ⟨rfl, ?_⟩⟩
    exact h.ok.kind_look_of_isAt (by simp) hat
  · exact .pure ⟨ds, h, hblanks⟩

/-! ## Delimited markup -/

theorem delimited_returns {delimiter : Kind} (kind : Kind) (hr : rules.Adequate n) (hp : p.Ok)
    (hmode : p.stream.mode = .markup) (hat : p.isAt delimiter = true) (hleft : p.left ≤ n)
    (hdelimiter : delimiter.isOrdinary = true) (hsolid : delimiter.isOfMarkup = false)
    (hkind : (kind.isCommon && !kind.isOpen) = true) (hholds : kind.holdsMarkup = true)
    (hdelimiters : kind.delimiters? = some (delimiter, delimiter)) :
    Returns (delimited rules delimiter kind) p fun _ p' => ReadsNeat kind p p' := by
  have hcurrent := Consumes.of_isAt hdelimiter hat
  have hbreak : delimiter ≠ .breakEnd := by
    rintro rfl
    cases hdelimiter
  refine start_returns hp fun node hnode => .ask ?_
  refine .bind (bump_returns hnode.ok hcurrent.started) fun _ p₁ hbump => ?_
  have h₁ := hnode.read hbump
  have hleft₁ := Nat.lt_of_lt_of_le (h₁.left_lt hp (begins_token p false)) hleft
  refine .bind (hr.markup h₁.ok (h₁.mode_eq.trans hmode) hleft₁ _ _ _) ?_
  rintro _ p₂ ⟨children, h₂, hneat, hlines, -⟩
  have hopening : p.started.range.stop ≤ p₂.source.length := by
    rw [h₂.source_eq, h₁.source_eq]
    exact hp.range_stop_le
  refine .bind (expectClosing_returns h₂.ok hdelimiter hopening) ?_
  rintro _ p₃ ⟨ds₃, h₃, _, htrue, hfalse⟩
  have henclosed := h₁.span (h₂.trans h₃.toSpans)
  have hbegins := (begins_token p false).append ([.node .markup false children] ++ ds₃)
  have hneat : NeatAll [.node kind false
      ([.token p.look false] ++ ([.node .markup false children] ++ ds₃))] :=
    neatAll_delimited (Bool.and_eq_true_iff.1 hkind).1 hholds
      (hp.isOfMarkup_of_isAt hat (by simp [hsolid, hbreak])) hneat
      (.of_found h₃.proper htrue hfalse (Kind.isNode_of_isOrdinary hdelimiter) hsolid)
      fun _ => hlines
  refine .bind (finishEnclosed_returns kind henclosed hkind (hbegins.joins hp hcurrent.isAtEnd _)
    fun hclean => ?_) fun _ _ h => .pure ⟨_, h, hbegins, hneat⟩
  have hclosing := (htrue (eq_true_of_clean hfalse hclean)).1
  exact shape_of_between hdelimiters (between_of_kinds (hp.kinds_look_of_isAt hbreak hat) hclosing)

/-! ## Headings and items -/

/-- What stands behind a marker: no other marker, and markup that does not start at the start of a
line. -/
structure Follows (drafts : List Draft) : Prop where
  neat : NeatAll drafts
  plain : ∀ kind ∈ kinds drafts, kind.isMarker = false
  bodies : ∀ wraps inner, .node .markup wraps inner ∈ drafts →
    Kind.LineStarts false (siblings inner)

namespace Follows

variable {drafts more : List Draft}

theorem append (h : Follows drafts) (hmore : Follows more) : Follows (drafts ++ more) := by
  refine ⟨(neatAll_append _ _).2 ⟨h.neat, hmore.neat⟩, ?_, fun wraps inner hmem => ?_⟩
  · rw [kinds_append]
    exact List.forall_mem_append.2 ⟨h.plain, hmore.plain⟩
  · rcases List.mem_append.1 hmem with hmem | hmem
    · exact h.bodies wraps inner hmem
    · exact hmore.bodies wraps inner hmem

theorem of_bare (h : Bare drafts) : Follows drafts := by
  have hplain (kind : Kind) (hkind : kind ∈ kinds drafts) :=
    Kind.isOfMarkup_eq_false.1 (h.plain kind hkind)
  refine ⟨h.neat, fun kind hkind => (hplain kind hkind).2.1, fun wraps inner hmem => ?_⟩
  exact absurd rfl (hplain .markup (kind_mem_kinds hmem rfl)).2.2.1

theorem of_blanks (h : ∀ draft ∈ drafts, draft.isNode = false ∧ draft.kind = .space) :
    Follows drafts := by
  refine ⟨neatAll_of_isNode fun draft hdraft => (h draft hdraft).1, fun kind hkind => ?_,
    fun wraps inner hmem => ?_⟩
  · obtain ⟨draft, hdraft, rfl⟩ := List.mem_map.1 hkind
    rw [(h draft (List.mem_filter.1 hdraft).1).2]
    rfl
  · cases (h _ hmem).1

theorem of_markup {children : List Draft} (hneat : NeatAll [.node .markup false children])
    (hlines : Kind.LineStarts false (siblings children)) :
    Follows [.node .markup false children] := by
  refine ⟨hneat, List.forall_mem_singleton.2 rfl, fun wraps inner hmem => ?_⟩
  cases List.mem_singleton.1 hmem
  exact hlines

end Follows

/-- What is known of the kinds that start with a marker. -/
theorem isNode_of_marker? {kind marker : Kind} (h : kind.marker? = some marker) :
    kind.isNode = true ∧ kind.isOpen = false ∧ kind ≠ .code ∧ kind ≠ .markup ∧ kind ≠ .math ∧
      marker.isTrivia = false := by
  cases kind <;> cases h <;> decide

/-- A marker and what stands behind it, which ends with markup. -/
theorem arranged_of_follows {kind : Kind} {marker : Look} {drafts : List Draft}
    (hmarker : kind.marker? = some marker.token.kind) (h : Follows drafts)
    (hlast : (kinds drafts).getLast? = some .markup) :
    Arranged kind ([.token marker false] ++ drafts) := by
  obtain ⟨-, hopen, hcode, hmarkup, -, htrivia⟩ := isNode_of_marker? hmarker
  refine ⟨fun _ => trimmed_of_last htrivia hlast rfl, fun hsolid => ?_, ?_,
    fun heq => absurd heq hmarkup, fun hholds => ?_, fun _ wraps inner hmem => ?_⟩
  · rcases hsolid with hsolid | hsolid
    · rw [hopen] at hsolid
      cases hsolid
    · exact absurd hsolid hcode
  · rw [hmarker]
    exact ⟨kinds drafts, rfl, h.plain⟩
  · simp [Kind.holdsMarkup, hmarker] at hholds
  · rcases List.mem_append.1 hmem with hmem | hmem
    · cases List.mem_singleton.1 hmem
    · exact h.bodies wraps inner hmem

/-- A marker and what stands behind it make a neat node. -/
theorem finishMarked_returns {node : Opening} {drafts : List Draft} (kind : Kind) (hp : p.Ok)
    (hmode : p.stream.mode = .markup) (hend : p.isAtEnd = false)
    (h : Encloses p ([.token p.look false] ++ drafts) node p')
    (hmarker : kind.marker? = some p.look.token.kind) (hfollows : Follows drafts)
    (hlast : (kinds drafts).getLast? = some .markup)
    (hindented : kind = .listItem ∨ kind = .enumItem →
      Indented p.source ([.token p.look false] ++ drafts)) :
    Returns (do let _ ← node.finish kind) p' fun _ p'' => ReadsNeat kind p p'' := by
  obtain ⟨hkind, hopen, -, hmarkup, hmath, -⟩ := isNode_of_marker? hmarker
  have hbegins := (begins_token p false).append drafts
  have hneat : NeatAll [.node kind false ([.token p.look false] ++ drafts)] :=
    neatAll_node (arranged_of_follows hmarker hfollows hlast)
      ((neatAll_append _ _).2 ⟨neatAll_token _ _, hfollows.neat⟩)
  have hlined {breaks : Breaks} : Lined p.source breaks p'.codeLook
      (.node kind false ([.token p.look false] ++ drafts)) := by
    have hinside : breaks.inside kind = .anywhere := by
      simp [Breaks.inside, hmarkup, hmath, hopen]
    exact lined_node.2 ⟨hinside ▸ h.lined, hindented⟩
  have hshape : Shape kind ([.token p.look false] ++ drafts) := by
    cases kind <;> trivial
  refine .bind (finishAs_returns kind h.toWithin hkind (fun hclean => ?_) hlined
    ⟨fun hne => absurd hmode hne, fun hbound => ?_⟩) ?_
  · have htidy := h.tidy hclean
    exact tidy_node _ hkind (htidy.formed hshape) htidy.sound htidy.ends htidy.keeps
  · exact linedAll_node (fun _ => hbegins.joins hp hend _ hbound) hlined
  · rintro _ p'' ⟨hread, -⟩
    exact .pure ⟨_, hread, hbegins, hneat⟩

/-- Behind a marker come blanks, and markup up to the end of its extent. -/
theorem body_returns {f : Closed → Parse β} {Q : β → Parser → Prop} (hr : rules.Adequate n)
    (hp : p.Ok) (hmode : p.stream.mode = .markup) (hleft : p.left < n) (extent : Extent)
    (stops : List Kind)
    (h : ∀ closed p' blanks children, Spans p (blanks ++ [.node .markup false children]) p' →
      Follows (blanks ++ [.node .markup false children]) →
      (∀ draft ∈ blanks, draft.isNode = false) → WithinExtent p.source extent children →
      Returns (f closed) p' Q) :
    Returns (blanks >>= fun _ => rules.markup false extent stops >>= f) p Q := by
  refine .bind (blanks_returns hp) ?_
  rintro _ p₁ ⟨ds₁, h₁, hblanks⟩
  have hleft₁ := Nat.lt_of_le_of_lt h₁.left_le hleft
  refine .bind (hr.markup h₁.ok (h₁.mode_eq.trans hmode) hleft₁ _ _ _) ?_
  rintro closed p₂ ⟨children, h₂, hneat, hlines, hwithin⟩
  rw [h₁.source_eq] at hwithin
  exact h closed p₂ ds₁ children (h₁.toSpans.trans h₂)
    ((Follows.of_blanks hblanks).append (.of_markup hneat hlines))
    (fun draft hdraft => (hblanks draft hdraft).1) hwithin

theorem getLast?_kinds_body (drafts : List Draft) (children : List Draft) :
    (kinds (drafts ++ [.node .markup false children])).getLast? = some .markup := by
  rw [kinds_append]
  exact List.getLast?_concat

theorem heading_returns (hr : rules.Adequate n) (hp : p.Ok) (hmode : p.stream.mode = .markup)
    (hat : p.isAt .headingMarker = true) (hleft : p.left ≤ n) :
    Returns (heading rules) p fun _ p' => ReadsNeat .heading p p' := by
  have hcurrent := Consumes.of_isAt rfl hat
  have hmarker := hp.kind_look_of_isAt (by simp) hat
  refine keyword_returns hp hcurrent hleft fun node p₁ h₁ hleft₁ => ?_
  have hmode₁ := h₁.mode_eq.trans hmode
  refine body_returns hr h₁.ok hmode₁ hleft₁ _ _ fun _ p₂ blanks body h₂ hfollows _ _ => ?_
  exact finishMarked_returns .heading hp hmode hcurrent.isAtEnd (h₁.span h₂) (by rw [hmarker]; rfl)
    hfollows (getLast?_kinds_body _ _) (by rintro (⟨⟨⟩⟩ | ⟨⟨⟩⟩))

theorem listItem_returns {kind marker : Kind} (hr : rules.Adequate n) (hp : p.Ok)
    (hmode : p.stream.mode = .markup) (hat : p.isAt marker = true)
    (hmarker : kind.marker? = some marker) (hordinary : marker.isOrdinary = true)
    (hleft : p.left ≤ n) :
    Returns (listItem rules kind) p fun _ p' => ReadsNeat kind p p' := by
  have hcurrent := Consumes.of_isAt hordinary hat
  have hlook : p.look.token.kind = marker := by
    refine hp.kind_look_of_isAt ?_ hat
    rintro rfl
    cases hordinary
  refine start_returns hp fun node hnode => .ask ?_
  refine .bind (bump_returns hnode.ok hcurrent.started) fun _ p₁ hbump => ?_
  have h₁ := hnode.read hbump
  have hmode₁ := h₁.mode_eq.trans hmode
  have hleft₁ := Nat.lt_of_lt_of_le (h₁.left_lt hp (begins_token p false)) hleft
  refine body_returns hr h₁.ok hmode₁ hleft₁ _ _ fun _ p₂ blanks body h₂ hfollows hblanks hwithin => ?_
  refine finishMarked_returns kind hp hmode hcurrent.isAtEnd (h₁.span h₂) (by rw [hlook, hmarker])
    hfollows (getLast?_kinds_body _ _) fun _ => ?_
  refine ⟨p.look, blanks, body, rfl, hblanks, fun l hl hspace hbreak => ?_⟩
  have hcolumn := of_decide_eq_false (hwithin l hl hspace hbreak)
  have hposition : p.started.position = p.look.token.range.start := hp.steady.position_eq
  rw [h₁.source_eq, hposition] at hcolumn
  exact Nat.lt_of_succ_le (Nat.le_of_not_lt hcolumn)

theorem termItem_returns (hr : rules.Adequate n) (hp : p.Ok) (hmode : p.stream.mode = .markup)
    (hat : p.isAt .termMarker = true) (hleft : p.left ≤ n) :
    Returns (termItem rules) p fun _ p' => ReadsNeat .termItem p p' := by
  have hcurrent := Consumes.of_isAt rfl hat
  have hmarker := hp.kind_look_of_isAt (by simp) hat
  refine start_returns hp fun node hnode => .ask ?_
  refine .bind (bump_returns hnode.ok hcurrent.started) fun _ p₁ hbump => ?_
  have h₁ := hnode.read hbump
  have hmode₁ := h₁.mode_eq.trans hmode
  have hleft₁ := Nat.lt_of_lt_of_le (h₁.left_lt hp (begins_token p false)) hleft
  -- The term, the colon, and what is said of the term.
  refine body_returns hr h₁.ok hmode₁ hleft₁ _ _ fun _ p₂ blanks₂ body₂ h₂ hfollows₂ _ _ => ?_
  refine .bind (expect_returns h₂.ok rfl _) ?_
  rintro _ p₃ ⟨ds₃, h₃, _, htrue, hfalse⟩
  have hfollows₃ := Follows.of_bare (.of_found h₃.proper htrue hfalse rfl rfl)
  have h₂₃ := h₂.trans h₃.toSpans
  have hmode₃ := h₂₃.mode_eq.trans hmode₁
  have hleft₃ := Nat.lt_of_le_of_lt h₂₃.left_le hleft₁
  refine body_returns hr h₃.ok hmode₃ hleft₃ _ _ fun _ p₄ blanks₄ body₄ h₄ hfollows₄ _ _ => ?_
  refine finishMarked_returns .termItem hp hmode hcurrent.isAtEnd (h₁.span (h₂₃.trans h₄))
    (by rw [hmarker]; rfl) ((hfollows₂.append hfollows₃).append hfollows₄) ?_
    (by rintro (⟨⟨⟩⟩ | ⟨⟨⟩⟩))
  rw [← List.append_assoc]
  exact getLast?_kinds_body _ _

theorem reference_returns (hr : rules.Adequate n) (hp : p.Ok) (hat : p.isAt .refMarker = true)
    (hleft : p.left ≤ n) :
    Returns (reference rules) p fun _ p' => ReadsNeat .ref p p' := by
  have hcurrent := Consumes.of_isAt rfl hat
  refine keyword_returns hp hcurrent hleft fun node p₁ h₁ hleft₁ => .ask ?_
  extract_lets next
  have hnext : ∀ p₂ ds, Reads p₁ ds p₂ → Bare ds →
      Returns (next ()) p₂ fun _ p' => ReadsNeat .ref p p' := by
    intro p₂ ds h₂ hds
    have hbare := (Bare.token false (hp.isOfMarkup_of_isAt hat rfl)).append hds
    exact .bind (finishNeat_returns .ref (h₁.read h₂) ((begins_token p false).append ds) rfl
      (fun _ => trivial) (hbare.arranged (by simp) rfl) hbare.neat) fun _ _ h => .pure h
  split
  · rename_i hat
    refine .bind (contentBlock_returns hr h₁.ok (isAt_of_isDirectlyAt hat) (Nat.le_of_lt hleft₁)) ?_
    rintro _ p₂ ⟨_, h₂, _, hneat⟩
    exact hnext p₂ _ h₂ ⟨hneat, List.forall_mem_singleton.2 rfl⟩
  · exact hnext p₁ _ (.refl h₁.ok) .nil

/-! ## Elements -/

/-- Where no line ends, white space has none. -/
theorem containsNewline_of_isAtLineEnd (hp : p.Ok) (h : isAtLineEnd p = false)
    (hend : p.isAtEnd = false) (hspace : p.look.token.kind.isSpace = true) :
    p.look.token.containsNewline = false := by
  obtain ⟨hparbreak, hblank⟩ := Bool.or_eq_false_iff.1 h
  have hkind : p.look.token.kind = p.current := by
    rw [← hp.kind_eq, kind_eq_current (isAtEnd_eq_false.1 hend).1]
  rw [hkind] at hspace
  have hcurrent : p.stream.current = p.look.token := hp.steady.current
  rw [hcurrent] at hblank
  have hisSpace : p.isAt .space = true := by
    rw [Parser.isAt, decide_eq_true_eq]
    have hne : p.current ≠ .parbreak := of_decide_eq_false hparbreak
    generalize p.current = kind at hspace hne
    cases kind <;> first | rfl | contradiction
  rw [hisSpace] at hblank
  exact hblank

/-- An element begins with the current token. -/
theorem markupElement_returns (hr : rules.Adequate n) (hp : p.Ok)
    (hmode : p.stream.mode = .markup) (hcurrent : p.Consumes) (hleft : p.left ≤ n)
    (hline : isAtLineEnd p = false) (atLineStart : Bool) (extent : Extent) :
    Returns (markupElement rules atLineStart) p fun stays p' =>
      ∃ ds, Reads p ds p' ∧ p.Begins ds ∧ IsMarkup p.source extent atLineStart stays ds := by
  have hkind : p.look.token.kind = p.current := by
    rw [← hp.kind_eq, kind_eq_current (isAtEnd_eq_false.1 hcurrent.isAtEnd).1]
  have hbreaks := containsNewline_of_isAtLineEnd hp hline hcurrent.isAtEnd
  have hnode {kind : Kind} {x : Parse Unit} (h : Returns x p fun _ p' => ReadsNeat kind p p')
      (hkind : kind.isNode = true) (hmarkup : kind ≠ .markup)
      (hstart : kind.marker?.isSome = true → atLineStart = true) :
      Returns (x >>= fun _ => pure false) p fun stays p' =>
        ∃ ds, Reads p ds p' ∧ p.Begins ds ∧ IsMarkup p.source extent atLineStart stays ds :=
    .bind h <| by
      rintro _ _ ⟨_, h, hbegins, hneat⟩
      exact .pure ⟨_, h, hbegins.node kind false, .of_node hneat hkind hmarkup hstart⟩
  have hbump {stays : Bool} (hmarker : p.current.isMarker = false)
      (hstays : stays = true → atLineStart = true ∧ p.current.isTrivia = true) :
      Returns (Parse.bump >>= fun _ => pure stays) p fun stays p' =>
        ∃ ds, Reads p ds p' ∧ p.Begins ds ∧ IsMarkup p.source extent atLineStart stays ds := by
    refine .bind (bump_returns hp hcurrent) fun _ _ h => .pure ⟨_, h, begins_token p false, ?_⟩
    have hlexical := hp.isLexical (kind_ne_eof hcurrent.isAtEnd)
    rw [hp.kind_eq] at hlexical
    rw [← hkind] at hmarker hstays
    refine .of_token hlexical hmarker (fun htrue => ?_) fun hspace hbreak => ?_
    · obtain ⟨hatStart, htrivia⟩ := hstays htrue
      exact Bool.or_eq_true_iff.2 (.inr (Bool.and_eq_true_iff.2 ⟨hatStart, htrivia⟩))
    · rw [hbreaks hspace] at hbreak
      cases hbreak
  refine .ask ?_
  split
  · rename_i hspace
    exact hbump (by rw [hspace]; rfl) fun hstart => ⟨hstart, by rw [hspace]; rfl⟩
  · rename_i hcomment
    exact hbump (by rw [hcomment]; rfl) fun hstart => ⟨hstart, by rw [hcomment]; rfl⟩
  · rename_i hcomment
    exact hbump (by rw [hcomment]; rfl) fun hstart => ⟨hstart, by rw [hcomment]; rfl⟩
  · rename_i hhash
    refine .bind (embeddedCode_returns hr hp (isAt_iff.2 hhash) hleft) ?_
    rintro _ _ ⟨_, h, hbegins, hbare, -⟩
    exact .pure ⟨_, h, hbegins, .of_bare hbare⟩
  · rename_i hstar
    exact hnode (delimited_returns .strong hr hp hmode (isAt_iff.2 hstar) hleft rfl rfl rfl
      rfl rfl) rfl (by simp) (fun h => nomatch h)
  · rename_i hunderscore
    exact hnode (delimited_returns .emph hr hp hmode (isAt_iff.2 hunderscore) hleft rfl rfl rfl
      rfl rfl) rfl (by simp) (fun h => nomatch h)
  · rename_i href
    exact hnode (reference_returns hr hp (isAt_iff.2 href) hleft) rfl (by simp) (fun h => nomatch h)
  · rename_i hdollar
    refine .bind (equation_returns hr hp (isAt_iff.2 hdollar) hleft) ?_
    rintro _ _ ⟨_, h, hbegins, hneat⟩
    exact .pure ⟨_, h, hbegins.node .equation false,
      .of_node hneat rfl (by simp) (fun h => nomatch h)⟩
  · split
    · rename_i hkind
      exact hnode (heading_returns hr hp hmode (isAt_iff.2 hkind) hleft) rfl (by simp) fun _ => rfl
    · rename_i hkind
      exact hnode (listItem_returns hr hp hmode (isAt_iff.2 hkind) rfl rfl hleft) rfl (by simp)
        fun _ => rfl
    · rename_i hkind
      exact hnode (listItem_returns hr hp hmode (isAt_iff.2 hkind) rfl rfl hleft) rfl (by simp)
        fun _ => rfl
    · rename_i hkind
      exact hnode (termItem_returns hr hp hmode (isAt_iff.2 hkind) hleft) rfl (by simp) fun _ => rfl
    · split
      · -- None of the strays is a string, raw text, a comment or white space.
        rename_i hstray
        have hall : ∀ kind ∈ strays, kind.mayBeFlawed = false ∧ kind.isSpace = false := by decide
        have hkind : p.stream.kind.mayBeFlawed = false ∧ p.stream.kind.isSpace = false := by
          rw [kind_eq_current (isAtEnd_eq_false.1 hcurrent.isAtEnd).1]
          exact hall _ (List.contains_iff_mem.1 hstray)
        exact .modified (.pure ⟨_, reads_bumpAs hp hcurrent (fun _ => hkind), begins_token p true,
          .of_text _⟩)
      · rename_i hstray
        refine hbump ?_ (fun h => nomatch h)
        generalize p.current = kind at hstray
        cases kind <;> first | rfl | exact absurd rfl hstray

/-! ## Sequences of elements -/

/-- Elements are read one after another in a node of markup. -/
def MarkupListing (atLineStart : Bool) (extent : Extent) (p : Parser) (node : Opening)
    (state : MarkupState) (p' : Parser) : Prop :=
  (∃ drafts, Inside p none drafts node p' ∧
    IsMarkup p.source extent atLineStart state.atLineStart drafts) ∧ Behind state.progress p'

/-- Elements were read up to a place where markup may stop. -/
def StopsMarkup (atLineStart : Bool) (extent : Extent) (stops : List Kind) (p : Parser)
    (node : Opening) (p' : Parser) : Prop :=
  (∃ drafts stays, Inside p none drafts node p' ∧
    IsMarkup p.source extent atLineStart stays drafts) ∧
    (p'.isAt .eof = true ∨ stops ≠ [] ∨ extent ≠ .unbounded)

/-- An element that begins with the current token is added. -/
theorem round_markup {p p₁ p₂ : Parser} {node : Opening} {drafts more : List Draft}
    {atLineStart : Bool} {extent : Extent} {state next : MarkupState}
    (h : Inside p none drafts node p₁)
    (hmarkup : IsMarkup p.source extent atLineStart state.atLineStart drafts)
    (hread : Reads p₁ more p₂) (hbegins : p₁.Begins more)
    (hmore : IsMarkup p₁.source extent state.atLineStart next.atLineStart more)
    (hprogress : next.progress = { last := some p₁.position }) :
    MarkupListing atLineStart extent p node next p₂ ∧ p₂.left < p₁.left := by
  rw [h.source_eq] at hmore
  refine ⟨⟨⟨_, h.read hread, hmarkup.append hmore⟩, ?_⟩, hread.left_lt h.ok hbegins⟩
  rw [hprogress]
  exact hread.behind h.ok hbegins

/-- Behind the end of a line that lies within the extent, a new line starts. -/
theorem isMarkup_of_isAtLineEnd (hp : p.Ok) (h : isAtLineEnd p = true) {extent : Extent}
    (hextent : endsExtent extent p = false) (atLineStart : Bool) :
    IsMarkup p.source extent atLineStart true [.token p.look false] := by
  have hcurrent : p.stream.current = p.look.token := hp.steady.current
  obtain ⟨hspace, hbreak⟩ : p.look.token.kind.isSpace = true ∧
      p.look.token.containsNewline = true := by
    rcases Bool.or_eq_true_iff.1 h with hat | hblank
    · have hkind := hp.kind_look_of_isAt (by simp) hat
      refine ⟨by rw [hkind]; rfl, ?_⟩
      have hne : p.look.token.kind ≠ .eof := by simp [hkind]
      exact (hp.steady.covers.isCut hne).containsNewline_of_parbreak hkind
    · obtain ⟨hat, hbreak⟩ := Bool.and_eq_true_iff.1 hblank
      rw [hcurrent] at hbreak
      exact ⟨by rw [hp.kind_look_of_isAt (by simp) hat]; rfl, hbreak⟩
  have hlexical : p.look.token.kind.isLexical = true := by
    generalize p.look.token.kind = kind at hspace
    cases kind <;> first | rfl | cases hspace
  refine .of_token hlexical (Kind.isMarker_of_isTrivia (Kind.isTrivia_of_isSpace hspace))
    (fun _ => ?_) fun _ _ => ?_
  · simp [Kind.staysAtStart, sibling, hspace, hbreak]
  · unfold endsExtent Parser.range at hextent
    rwa [hcurrent] at hextent

theorem nextMarkup_returns (hr : rules.Adequate n) (hmode : p.stream.mode = .markup)
    (hleft : p.left ≤ n) (atLineStart : Bool) (extent : Extent) (stops : List Kind)
    {node : Opening} {state : MarkupState} {p₁ : Parser}
    (h : MarkupListing atLineStart extent p node state p₁) :
    Returns (nextMarkup rules extent stops state) p₁
      (Returns.Round (MarkupListing atLineStart extent p node)
        (fun _ => StopsMarkup atLineStart extent stops p node) p₁) := by
  obtain ⟨⟨ds, h, hmarkup⟩, hbehind⟩ := h
  refine .ask ?_
  split
  · rename_i heof
    exact .pure ⟨⟨ds, _, h, hmarkup⟩, .inl heof⟩
  · rename_i heof
    have hmode₁ : p₁.stream.mode = .markup := h.mode_eq.trans hmode
    have hend : p₁.isAtEnd = false := by
      rw [Plain.isAtEnd_eq (.inl hmode₁) h.ok]
      exact Bool.eq_false_iff.2 heof
    have hcurrent : p₁.Consumes := ⟨hend, h.ok.kind_ne_leftParen (by simp [hmode₁])⟩
    refine advance_returns hbehind (.get ?_)
    split
    · -- Without stops the nesting is always known.
      rename_i hnone
      refine .pure ⟨⟨ds, _, h, hmarkup⟩, .inr (.inl ?_)⟩
      rintro rfl
      have hany : p₁.isAtAny [] = false := rfl
      rw [nestingBehind?, hany] at hnone
      split at hnone
      · cases hnone
      · split at hnone <;> cases hnone
    · split
      · rename_i hline
        split
        · -- A line break ends what has an extent.
          rename_i hends
          refine .pure ⟨⟨ds, _, h, hmarkup⟩, .inr (.inr ?_)⟩
          rintro rfl
          cases hends
        · rename_i hends
          refine .bind (bump_returns h.ok hcurrent) fun _ p₂ h₂ => ?_
          exact .pure (round_markup h hmarkup h₂ (begins_token p₁ false)
            (isMarkup_of_isAtLineEnd h.ok hline (Bool.eq_false_iff.2 hends) _) rfl)
      · rename_i hline
        refine .bind (markupElement_returns hr h.ok hmode₁ hcurrent
          (Nat.le_trans h.left_le hleft) (Bool.eq_false_iff.2 hline) _ extent) ?_
        rintro stays p₂ ⟨_, h₂, hbegins, hmore⟩
        exact .pure (round_markup h hmarkup h₂ hbegins hmore rfl)

theorem arranged_markup {source : List Char} {extent : Extent} {atStart stays : Bool}
    {drafts : List Draft} (h : IsMarkup source extent atStart stays drafts) :
    Arranged .markup drafts where
  trimmed hne := absurd rfl hne
  solid hsolid := by rcases hsolid with ⟨⟨⟩⟩ | ⟨⟨⟩⟩
  marked := ⟨kinds drafts, rfl, fun kind hkind => (h.plain kind hkind).1⟩
  lines _ := h.lines.mono fun _ => rfl
  plain hholds := by cases hholds
  bodies _ _ _ hmem := absurd rfl (h.plain .markup (kind_mem_kinds hmem rfl)).2

theorem markup_returns (hr : rules.Adequate n) (hp : p.Ok) (hmode : p.stream.mode = .markup)
    (hleft : p.left ≤ n) (atLineStart : Bool) (extent : Extent) (stops : List Kind) :
    Returns (markup rules atLineStart extent stops) p fun _ p' =>
      ReadsMarkup atLineStart extent p p' ∧
        (p'.isAt .eof = true ∨ stops ≠ [] ∨ extent ≠ .unbounded) := by
  refine start_returns hp fun node hnode => ?_
  have hstart : MarkupListing atLineStart extent p node { atLineStart } p.started :=
    ⟨⟨[], hnode, .nil⟩, behind_start _⟩
  refine .bind (.loop (MarkupListing atLineStart extent p node) hstart fun _ _ h =>
    nextMarkup_returns hr hmode hleft atLineStart extent stops h) ?_
  rintro _ p₁ ⟨⟨ds, stays, h₁, hmarkup⟩, hstop⟩
  -- In markup no line ends in front of a token, as it is a token itself.
  have hlined : Lined p.source .anywhere p₁.codeLook (.node .markup false ds) :=
    lined_node.2 ⟨h₁.placed.joined (.inl hmode), by rintro (⟨⟨⟩⟩ | ⟨⟨⟩⟩)⟩
  refine (finishWithin_returns .markup h₁.toWithin rfl hlined).mono ?_
  rintro _ p₂ ⟨htakes, -, hre⟩
  refine ⟨⟨ds, ⟨htakes, fun hclean => ?_, fun hne => absurd hmode hne⟩,
    neatAll_node (arranged_markup hmarkup) hmarkup.neat, hmarkup.lines, hmarkup.within⟩,
    hstop.imp_left fun heof => ?_⟩
  · rw [hre.findings_eq] at hclean
    have htidy := h₁.tidy hclean
    exact tidy_node _ rfl (htidy.formed trivial) htidy.sound htidy.ends htidy.keeps
  · simpa [Parser.isAt, hre.current_eq] using heof

end TypstFormat.Grammar
