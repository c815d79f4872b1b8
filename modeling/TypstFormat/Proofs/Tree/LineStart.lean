import TypstFormat.Proofs.Tree.Draft

/-!
# Block markup

A heading or an item starts with its marker, and its marker stands nowhere else (`Kind.Marked`).
Among its siblings it comes first in its line: behind white space in which a line ends, only blanks
and comments may stand in front of it (`Kind.LineStarts`).

## Key results

- `Kind.lineStarts_append`: siblings one after another, by what they leave behind
- `Kind.LineStarts.insert`: blanks and comments in between change nothing
-/

namespace TypstFormat

namespace Kind

/-- The marker that a heading or an item starts with. -/
def marker? : Kind → Option Kind
  | .heading => some .headingMarker
  | .listItem => some .listMarker
  | .enumItem => some .enumMarker
  | .termItem => some .termMarker
  | _ => none

/-- What nothing but markup holds: trivia and markers as tokens of the grammar, headings and items,
and markup. -/
def isOfMarkup (kind : Kind) : Bool :=
  kind.isTrivia || kind.isMarker || kind = .markup || kind.marker?.isSome

/-- The nodes that markup stands in: markup itself, headings and items, and what is delimited. -/
def holdsMarkup (kind : Kind) : Bool :=
  kind = .markup || kind.marker?.isSome || kind = .contentBlock || kind = .strong || kind = .emph

/-- Of all markers only the one of a node stands in it, and it comes first. -/
def Marked (marker : Option Kind) (kinds : List Kind) : Prop :=
  ∃ rest, kinds = marker.toList ++ rest ∧ ∀ kind ∈ rest, kind.isMarker = false

/-- Whether block markup may stand behind a sibling, of which its kind is told and whether it is
white space in which a line ends. -/
def staysAtStart (atStart : Bool) (sibling : Kind × Bool) : Bool :=
  sibling.2 || (atStart && sibling.1.isTrivia)

/-- Headings and items stand at the start of a line. -/
def LineStarts : (atStart : Bool) → List (Kind × Bool) → Prop
  | _, [] => True
  | atStart, sibling :: siblings =>
    (sibling.1.marker?.isSome = true → atStart = true) ∧
      LineStarts (staysAtStart atStart sibling) siblings

theorem isOfMarkup_eq_false {kind : Kind} : kind.isOfMarkup = false ↔
    kind.isTrivia = false ∧ kind.isMarker = false ∧ kind ≠ .markup ∧ kind.marker? = none := by
  simp [isOfMarkup, and_assoc]

theorem isTrivia_of_isNode {kind : Kind} (h : kind.isNode = true) : kind.isTrivia = false := by
  cases kind <;> first | rfl | cases h

theorem isMarker_of_isNode {kind : Kind} (h : kind.isNode = true) : kind.isMarker = false := by
  cases kind <;> first | rfl | cases h

theorem isMarker_of_isTrivia {kind : Kind} (h : kind.isTrivia = true) : kind.isMarker = false := by
  cases kind <;> first | rfl | cases h

theorem marker?_of_isLexical {kind : Kind} (h : kind.isLexical = true) : kind.marker? = none := by
  cases kind <;> first | rfl | cases h

theorem marker?_of_isTrivia {kind : Kind} (h : kind.isTrivia = true) : kind.marker? = none := by
  cases kind <;> first | rfl | cases h

variable {atStart : Bool} {siblings more : List (Kind × Bool)}

theorem lineStarts_append : LineStarts atStart (siblings ++ more) ↔
    LineStarts atStart siblings ∧ LineStarts (siblings.foldl staysAtStart atStart) more := by
  induction siblings generalizing atStart with
  | nil => simp [LineStarts]
  | cons sibling siblings ih => simp [LineStarts, ih, and_assoc]

/-- Where there is no block markup, nothing has to stand at the start of a line. -/
theorem lineStarts_of_all (h : ∀ sibling ∈ siblings, sibling.1.marker? = none) :
    LineStarts atStart siblings := by
  induction siblings generalizing atStart with
  | nil => trivial
  | cons sibling siblings ih =>
    obtain ⟨hsibling, hsiblings⟩ := List.forall_mem_cons.1 h
    refine ⟨fun hmarker => ?_, ih hsiblings⟩
    rw [hsibling] at hmarker
    cases hmarker

theorem staysAtStart_mono {atStart' : Bool} (hstart : atStart = true → atStart' = true)
    {sibling : Kind × Bool} (h : staysAtStart atStart sibling = true) :
    staysAtStart atStart' sibling = true := by
  rcases Bool.or_eq_true_iff.1 h with hbreaks | htrivia
  · exact Bool.or_eq_true_iff.2 (.inl hbreaks)
  · obtain ⟨hatStart, htrivia⟩ := Bool.and_eq_true_iff.1 htrivia
    exact Bool.or_eq_true_iff.2 (.inr (Bool.and_eq_true_iff.2 ⟨hstart hatStart, htrivia⟩))

/-- What may stand behind anything may stand at the start of a line. -/
theorem LineStarts.mono (h : LineStarts atStart siblings) {atStart' : Bool}
    (hstart : atStart = true → atStart' = true) : LineStarts atStart' siblings := by
  induction siblings generalizing atStart atStart' with
  | nil => trivial
  | cons sibling siblings ih =>
    exact ⟨fun hmarker => hstart (h.1 hmarker), ih h.2 (staysAtStart_mono hstart)⟩

/-- Trivia in which no line ends stands anywhere, and changes nothing. -/
theorem LineStarts.insert {trivia : List (Kind × Bool)}
    (htrivia : ∀ sibling ∈ trivia, sibling.1.isTrivia = true ∧ sibling.2 = false)
    (h : LineStarts atStart siblings) : LineStarts atStart (trivia ++ siblings) := by
  induction trivia with
  | nil => exact h
  | cons sibling trivia ih =>
    obtain ⟨⟨hkind, hbreaks⟩, hrest⟩ := List.forall_mem_cons.1 htrivia
    refine ⟨fun hmarker => ?_, ?_⟩
    · rw [marker?_of_isTrivia hkind] at hmarker
      cases hmarker
    · have hsame : staysAtStart atStart sibling = atStart := by
        simp [staysAtStart, hkind, hbreaks]
      rw [hsame]
      exact ih hrest

theorem foldl_staysAtStart_mono {atStart' : Bool} (hstart : atStart = true → atStart' = true)
    (h : siblings.foldl staysAtStart atStart = true) :
    siblings.foldl staysAtStart atStart' = true := by
  induction siblings generalizing atStart atStart' with
  | nil => exact hstart h
  | cons sibling siblings ih => exact ih (staysAtStart_mono hstart) h

end Kind

namespace Draft

/-- The kind of a draft, and whether it is white space in which a line ends. -/
def sibling : Draft → Kind × Bool
  | token look asText =>
    ((token look asText).kind, !asText && look.token.kind.isSpace && look.token.containsNewline)
  | draft => (draft.kind, false)

/-- What is left of drafts in a tree, as siblings. -/
def siblings (drafts : List Draft) : List (Kind × Bool) :=
  (drafts.filter (!·.isVoid)).map sibling

@[simp] theorem siblings_nil : siblings [] = [] := rfl

@[simp] theorem siblings_append (drafts more : List Draft) :
    siblings (drafts ++ more) = siblings drafts ++ siblings more := by
  simp [siblings]

@[simp] theorem siblings_token (look : Look) (asText : Bool) (drafts : List Draft) :
    siblings (token look asText :: drafts) = (token look asText).sibling :: siblings drafts := rfl

@[simp] theorem siblings_node (kind : Kind) (wraps : Bool) (children drafts : List Draft) :
    siblings (node kind wraps children :: drafts) = (kind, false) :: siblings drafts := rfl

theorem map_fst_siblings (drafts : List Draft) : (siblings drafts).map Prod.fst = kinds drafts := by
  unfold siblings kinds
  rw [List.map_map]
  refine List.map_congr_left fun draft _ => ?_
  cases draft <;> rfl

theorem lineStarts_of_kinds {atStart : Bool} {drafts : List Draft}
    (h : ∀ kind ∈ kinds drafts, kind.marker? = none) : Kind.LineStarts atStart (siblings drafts) := by
  refine Kind.lineStarts_of_all fun sibling hsibling => h sibling.1 ?_
  rw [← map_fst_siblings]
  exact List.mem_map_of_mem hsibling

end Draft

end TypstFormat
