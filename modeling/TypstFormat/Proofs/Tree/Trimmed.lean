import TypstFormat.Proofs.Tree.Lines
import TypstFormat.Proofs.Tree.LineStart

/-!
# Trivia and markers in nodes

In code and math, comments and white space are no tokens of the grammar, and there are no markers,
so that nothing of what is read there is trivia or a marker (`Draft.Bare`). In markup they are, and
nodes of markup may start and end with trivia, but no other node does. Markers stand only at the
start of headings and items, which in turn stand at the start of a line (`Draft.Arranged`).

## Key results

- `Draft.Bare.enclosed`: a node around what is bare is bare itself
- `Draft.trimmed_of_last`, `Draft.neatAll_of_kinds`: what is known from kinds alone
-/

namespace TypstFormat

/-- Kinds that neither start nor end with trivia. -/
structure Kind.Trimmed (kinds : List Kind) : Prop where
  head : ∀ kind ∈ kinds.head?, kind.isTrivia = false
  last : ∀ kind ∈ kinds.getLast?, kind.isTrivia = false

theorem Kind.Trimmed.of_all {kinds : List Kind} (h : ∀ kind ∈ kinds, kind.isTrivia = false) :
    Kind.Trimmed kinds :=
  ⟨fun kind hkind => h kind (List.mem_of_mem_head? hkind),
    fun kind hkind => h kind (List.mem_of_mem_getLast? hkind)⟩

/-- The kinds of nodes for which nothing special holds in markup or in math. -/
def Kind.isCommon (kind : Kind) : Bool :=
  kind.isNode && kind ≠ .markup && kind ≠ .math && kind.marker?.isNone

theorem Kind.isCommon_iff {kind : Kind} : kind.isCommon = true ↔
    kind.isNode = true ∧ kind ≠ .markup ∧ kind ≠ .math ∧ kind.marker? = none := by
  simp [isCommon, and_assoc]

theorem Kind.isOfMarkup_of_isCommon {kind : Kind} (h : kind.isCommon = true) :
    kind.isOfMarkup = false := by
  obtain ⟨hnode, hmarkup, -, hmarker⟩ := Kind.isCommon_iff.1 h
  exact Kind.isOfMarkup_eq_false.2
    ⟨Kind.isTrivia_of_isNode hnode, Kind.isMarker_of_isNode hnode, hmarkup, hmarker⟩

namespace Draft

/-- What holds of the children of a node, whatever was complained about. -/
structure Arranged (kind : Kind) (children : List Draft) : Prop where
  /-- Only markup starts or ends with trivia. -/
  trimmed : kind ≠ .markup → Kind.Trimmed (kinds children)
  /-- In code no trivia is a token of the grammar. -/
  solid : kind.isOpen = true ∨ kind = .code → ∀ own ∈ kinds children, own.isTrivia = false
  marked : Kind.Marked kind.marker? (kinds children)
  lines : kind = .markup → Kind.LineStarts true (siblings children)
  /-- Code and math hold nothing of markup. -/
  plain : kind.holdsMarkup = false → ∀ own ∈ kinds children, own.isOfMarkup = false
  /-- Only between brackets markup starts at the start of a line. -/
  bodies : kind ≠ .contentBlock → ∀ wraps inner, .node .markup wraps inner ∈ children →
    Kind.LineStarts false (siblings inner)

mutual

/-- All nodes are arranged. -/
def Neat : Draft → Prop
  | token .. => True
  | void => True
  | node kind _ children => Arranged kind children ∧ NeatAll children

/-- All of several drafts are neat. -/
def NeatAll : List Draft → Prop
  | [] => True
  | draft :: drafts => Neat draft ∧ NeatAll drafts

end

/-- Neat drafts, none of which is trivia, a marker or markup. -/
structure Bare (drafts : List Draft) : Prop where
  neat : NeatAll drafts
  plain : ∀ kind ∈ kinds drafts, kind.isOfMarkup = false

@[simp] theorem neatAll_append (drafts more : List Draft) :
    NeatAll (drafts ++ more) ↔ NeatAll drafts ∧ NeatAll more := by
  induction drafts with
  | nil => simp [NeatAll]
  | cons draft drafts ih => simp [NeatAll, ih, and_assoc]

theorem neatAll_token (look : Look) (asText : Bool) : NeatAll [.token look asText] :=
  ⟨trivial, trivial⟩

theorem neatAll_node {kind : Kind} {wraps : Bool} {children : List Draft}
    (h : Arranged kind children) (hchildren : NeatAll children) :
    NeatAll [.node kind wraps children] :=
  ⟨⟨h, hchildren⟩, trivial⟩

/-- What starts with a token that is no trivia is trimmed if it ends with no trivia either. -/
theorem trimmed_of_last {opening : Look} {drafts : List Draft} {last : Kind}
    (hopening : opening.token.kind.isTrivia = false) (hlast : (kinds drafts).getLast? = some last)
    (htrivia : last.isTrivia = false) :
    Kind.Trimmed (kinds ([.token opening false] ++ drafts)) := by
  refine ⟨?_, ?_⟩
  · rintro kind ⟨⟩
    exact hopening
  · rw [kinds_append, List.getLast?_append, hlast]
    rintro kind ⟨⟩
    exact htrivia

/-- Where no kind is that of a node, there is no node. -/
theorem neatAll_of_kinds {drafts : List Draft} (h : ProperAll drafts)
    (hkinds : ∀ kind ∈ kinds drafts, kind.isNode = false) : NeatAll drafts := by
  induction drafts with
  | nil => trivial
  | cons draft drafts ih =>
    cases draft with
    | void => exact ⟨trivial, ih h.2 hkinds⟩
    | token => exact ⟨trivial, ih h.2 fun kind hkind => hkinds kind (List.mem_cons_of_mem _ hkind)⟩
    | node kind wraps children =>
      have hfalse := hkinds kind (by simp)
      rw [h.1.1] at hfalse
      cases hfalse

theorem neatAll_of_isNode {drafts : List Draft} (h : ∀ draft ∈ drafts, draft.isNode = false) :
    NeatAll drafts := by
  induction drafts with
  | nil => trivial
  | cons draft drafts ih =>
    obtain ⟨hdraft, hdrafts⟩ := List.forall_mem_cons.1 h
    refine ⟨?_, ih hdrafts⟩
    cases draft with
    | token => trivial
    | void => trivial
    | node => cases hdraft

/-- Nothing special is to be said of a node in which no kind is that of trivia or of a marker. -/
theorem arranged_of_kinds {kind : Kind} {children : List Draft} (hmarkup : kind ≠ .markup)
    (hmarker : kind.marker? = none)
    (hkinds : ∀ own ∈ kinds children, own.isTrivia = false ∧ own.isMarker = false)
    (hplain : kind.holdsMarkup = false → ∀ own ∈ kinds children, own.isOfMarkup = false)
    (hbodies : kind ≠ .contentBlock → ∀ wraps inner, .node .markup wraps inner ∈ children →
      Kind.LineStarts false (siblings inner)) : Arranged kind children where
  trimmed _ := .of_all fun own hown => (hkinds own hown).1
  solid _ own hown := (hkinds own hown).1
  marked := by
    rw [hmarker]
    exact ⟨kinds children, rfl, fun own hown => (hkinds own hown).2⟩
  lines heq := absurd heq hmarkup
  plain := hplain
  bodies := hbodies

namespace Bare

variable {drafts more : List Draft}

/-- Nothing special is to be said of a node of what is bare. -/
theorem arranged (h : Bare drafts) {kind : Kind} (hmarkup : kind ≠ .markup)
    (hmarker : kind.marker? = none) : Arranged kind drafts := by
  refine arranged_of_kinds hmarkup hmarker (fun own hown => ?_) (fun _ => h.plain)
    fun _ wraps inner hmem => ?_
  · obtain ⟨htrivia, hmark, -⟩ := Kind.isOfMarkup_eq_false.1 (h.plain own hown)
    exact ⟨htrivia, hmark⟩
  · have hkind : Kind.markup ∈ kinds drafts :=
      List.mem_map.2 ⟨_, List.mem_filter.2 ⟨hmem, rfl⟩, rfl⟩
    exact absurd rfl (Kind.isOfMarkup_eq_false.1 (h.plain _ hkind)).2.2.1

/-- Nothing that is bare has to stand at the start of a line. -/
theorem lineStarts (h : Bare drafts) (atStart : Bool) :
    Kind.LineStarts atStart (siblings drafts) :=
  lineStarts_of_kinds fun kind hkind => (Kind.isOfMarkup_eq_false.1 (h.plain kind hkind)).2.2.2

theorem nil : Bare [] :=
  ⟨trivial, by simp⟩

theorem append (h : Bare drafts) (hmore : Bare more) : Bare (drafts ++ more) := by
  refine ⟨(neatAll_append _ _).2 ⟨h.neat, hmore.neat⟩, ?_⟩
  rw [kinds_append]
  exact List.forall_mem_append.2 ⟨h.plain, hmore.plain⟩

theorem token {look : Look} (asText : Bool) (h : look.token.kind.isOfMarkup = false) :
    Bare [.token look asText] := by
  refine ⟨neatAll_token look asText, List.forall_mem_singleton.2 ?_⟩
  cases asText with
  | true => rfl
  | false => exact h

theorem void : Bare [.void] :=
  ⟨⟨trivial, trivial⟩, by simp⟩

/-- A token is bare, unless only markup holds it. -/
theorem of_kinds {kind : Kind} (hproper : ProperAll drafts) (hkinds : kinds drafts = [kind])
    (hkind : kind.isNode = false) (hplain : kind.isOfMarkup = false) : Bare drafts := by
  refine ⟨neatAll_of_kinds hproper ?_, ?_⟩
  · rw [hkinds]
    exact List.forall_mem_singleton.2 hkind
  · rw [hkinds]
    exact List.forall_mem_singleton.2 hplain

/-- A token that was looked for, if it was found. -/
theorem of_found {found : Bool} {kind : Kind} {P Q : Prop} (hproper : ProperAll drafts)
    (htrue : found = true → kinds drafts = [kind] ∧ P) (hfalse : found = false → drafts = [] ∧ Q)
    (hkind : kind.isNode = false) (hplain : kind.isOfMarkup = false) : Bare drafts := by
  cases found with
  | true => exact .of_kinds hproper (htrue rfl).1 hkind hplain
  | false =>
    rw [(hfalse rfl).1]
    exact .nil

/-- Something bare in between changes nothing. -/
theorem insert {gap : List Draft} (hgap : Bare gap) (h : Bare (drafts ++ more)) :
    Bare (drafts ++ (gap ++ more)) := by
  obtain ⟨hneat, hneat'⟩ := (neatAll_append _ _).1 h.neat
  have hplain := h.plain
  rw [kinds_append] at hplain
  obtain ⟨hplain, hplain'⟩ := List.forall_mem_append.1 hplain
  exact .append ⟨hneat, hplain⟩ (.append hgap ⟨hneat', hplain'⟩)

/-- A node that is arranged is bare, unless only markup holds it. -/
theorem node {kind : Kind} {wraps : Bool} {children : List Draft} (hkind : kind.isOfMarkup = false)
    (h : Arranged kind children) (hchildren : NeatAll children) :
    Bare [.node kind wraps children] :=
  ⟨neatAll_node h hchildren, List.forall_mem_singleton.2 hkind⟩

/-- A node around what is bare is bare itself. -/
theorem enclosed (h : Bare drafts) {kind : Kind} (hkind : kind.isCommon = true) (wraps : Bool) :
    Bare [.node kind wraps drafts] := by
  obtain ⟨-, hmarkup, -, hmarker⟩ := Kind.isCommon_iff.1 hkind
  exact .node (Kind.isOfMarkup_of_isCommon hkind) (h.arranged hmarkup hmarker) h.neat

end Bare

/-! ## Line breaks in nodes -/

section

variable {source : List Char} {next : Look} {kind : Kind} {children : List Draft}

/-- Nothing special is to be said of the lines of a node. -/
theorem lined_of_isCommon (hkind : kind.isCommon = true) {breaks : Breaks}
    (h : LinedAll source .anywhere next children)
    (hopen : breaks ≠ .anywhere → kind.isOpen = true → LinedAll source .nowhere next children)
    (wraps : Bool) : Lined source breaks next (.node kind wraps children) := by
  obtain ⟨-, hmarkup, hmath, hmarker⟩ := Kind.isCommon_iff.1 hkind
  refine lined_node.2 ⟨?_, ?_⟩
  · unfold Breaks.inside
    rw [if_neg hmarkup, if_neg hmath]
    split
    · rename_i hnowhere
      exact hopen hnowhere.1 hnowhere.2
    · exact h
  · rintro (rfl | rfl) <;> cases hmarker

end

end Draft

end TypstFormat
