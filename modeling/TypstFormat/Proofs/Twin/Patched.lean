import TypstFormat.Proofs.Text.LineColumn
import TypstFormat.Proofs.Token.Behind
import TypstFormat.Proofs.Token.Replaced
import TypstFormat.Proofs.Twin.Parsed

/-!
# Sources that differ in white space

Two sources that differ in white space correspond at the offsets between two patches. The scanner
sees the same behind such offsets: token by token, but for a line comment that ends in front of white
space whose replacement does not begin with a line break. Both sources agree again behind that white
space, and no such comment is in the tree if the replacements behind its comments begin with line
breaks.

If the source holds markup, then its white space may only be tidied up, and nothing in its tree may end
where a token need not end on both sides. If there are items, then nothing is moved in its line
(`Patch.Suits`).

## Key results

- `Patch.look_agree`, `Patch.look_markup`: behind corresponding offsets the same is seen
- `Patch.sides_lawful`, `Patch.sides_apart`: the two sources are comparable as a whole
-/

namespace TypstFormat

open Text

namespace Patch

variable {ends : Char → Bool} {patches own behind : List Patch} {a a' b b' : Nat}

/-! ## Corresponding offsets -/

theorem Reach.stop (patches : List Patch) :
    Reach patches (olds patches).length (news patches).length :=
  ⟨patches, [], (List.append_nil _).symm, rfl, rfl⟩

/-- Patches stand for some text on both sides. -/
theorem length_pos (h : ∀ patch ∈ patches, patch.Fits ends) (hne : patches ≠ []) :
    0 < (olds patches).length ∧ 0 < (news patches).length := by
  obtain ⟨patch, rest, rfl⟩ := List.exists_cons_of_ne_nil hne
  obtain ⟨hold, hnew⟩ := (h patch List.mem_cons_self).length_pos
  constructor
  · show 0 < (patch.old ++ olds rest).length
    rw [List.length_append]
    omega
  · show 0 < (patch.new ++ news rest).length
    rw [List.length_append]
    omega

/-- Corresponding offsets come in the same order. -/
theorem Reach.lt_iff (h : ∀ patch ∈ patches, patch.Fits ends) (ha : Reach patches a a')
    (hb : Reach patches b b') : a < b ↔ a' < b' := by
  obtain ⟨own, behind, rfl, rfl, rfl⟩ := ha
  obtain ⟨own', behind', heq, rfl, rfl⟩ := hb
  have hlonger {own between behind : List Patch}
      (hfits : ∀ patch ∈ own ++ (between ++ behind), patch.Fits ends) (hne : between ≠ []) :
      (olds own).length < (olds (own ++ between)).length ∧
        (news own).length < (news (own ++ between)).length := by
    have hpos := length_pos (fun patch hpatch =>
      hfits patch (List.mem_append_right _ (List.mem_append_left _ hpatch))) hne
    rw [olds_append, news_append, List.length_append, List.length_append]
    omega
  rcases List.append_eq_append_iff.1 heq with ⟨between, rfl, rfl⟩ | ⟨between, rfl, rfl⟩
  · by_cases hne : between = []
    · subst hne
      simp
    · have := hlonger h hne
      omega
  · rw [List.append_assoc] at h
    by_cases hne : between = []
    · subst hne
      simp
    · have := hlonger h hne
      omega

/-- Only one offset corresponds to an offset. -/
theorem Reach.right_unique (h : ∀ patch ∈ patches, patch.Fits ends) (ha : Reach patches a a')
    (hb : Reach patches a b') : a' = b' := by
  have hlt := ha.lt_iff h hb
  have hgt := hb.lt_iff h ha
  omega

theorem Reach.le (h : Reach patches a a') : a ≤ (olds patches).length := by
  obtain ⟨own, behind, rfl, rfl, rfl⟩ := h
  rw [olds_append, List.length_append]
  exact Nat.le_add_right _ _

/-! ## Sources as a whole -/

/-- A piece of trivia after which the texts correspond: if white space follows a line comment, then
what takes its place begins with a line break. -/
def Stays (patches : List Patch) (piece : Trivia) : Prop :=
  ∀ own front back new behind, patches = own ++ space (front ++ back) new :: behind →
    back ≠ [] → piece.kind = .lineComment → piece.range.stop = (olds own ++ front).length →
    front = [] ∧ new.head?.any isLineBreak = true

/-- Two sources that differ in white space, and how the left one is read. -/
def sides (patches : List Patch) (parsed : Parsed) : Sides where
  left := olds patches
  right := news patches
  clean := parsed.diagnostics = []
  strict := False
  absent := parsed.tree.Lacks
  place := Reach patches
  stays := Stays patches
  first _ _ := False
  old old old' := old = [] ∧ old' = []
  spent _ := False
  front := []
  modes := []
  breakRules := []

variable {parsed : Parsed}

/-! ## The next token -/

/-- Tokens of the same kind at corresponding offsets, with the same flaws. -/
structure Alike (patches : List Patch) (parsed : Parsed) (mode : Mode) (a a' : Nat) : Prop where
  kind : (tokenBehind (news patches) mode a').kind = (tokenBehind (olds patches) mode a).kind
  containsNewline : (tokenBehind (news patches) mode a').containsNewline =
    (tokenBehind (olds patches) mode a).containsNewline
  stop : Reach patches (tokenBehind (olds patches) mode a).range.stop
    (tokenBehind (news patches) mode a').range.stop
  flaws : List.Forall₂ (sides patches parsed).Finding (flawsAt (olds patches) mode a)
    (flawsAt (news patches) mode a')

/-- A line comment that ends where the texts need not correspond. -/
structure IsComment (source : List Char) (mode : Mode) (offset : Nat) : Prop where
  kind : (tokenBehind source mode offset).kind = .lineComment
  containsNewline : (tokenBehind source mode offset).containsNewline = false
  flaws : flawsAt source mode offset = []

/-- White space is no letter in front of what comes behind it. -/
private theorem before_eq (h : ∀ patch ∈ own, patch.Fits isSpace) :
    (news own).getLast?.any isAlphanumeric = (olds own).getLast?.any isAlphanumeric := by
  rcases List.eq_nil_or_concat own with rfl | ⟨own, patch, rfl⟩
  · rfl
  · have hpatch := h patch (by simp)
    rw [List.concat_eq_append, olds_append, news_append]
    cases patch with
    | keep c =>
      show ((news own ++ [c]).getLast?).any _ = ((olds own ++ [c]).getLast?).any _
      rw [List.getLast?_append, List.getLast?_append]
      rfl
    | space old new =>
      have hlast {own spaces : List Char} (hne : spaces ≠ [])
          (hspace : ∀ c ∈ spaces, isSpace c = true) :
          (own ++ spaces).getLast?.any isAlphanumeric = false := by
        rw [List.getLast?_append, List.getLast?_eq_some_getLast hne, Option.some_or, Option.any_some]
        exact isAlphanumeric_of_isSpace (hspace _ (List.getLast_mem hne))
      rw [show olds [space old new] = old from List.append_nil _,
        show news [space old new] = new from List.append_nil _,
        hlast hpatch.old_ne_nil hpatch.old_ends, hlast hpatch.new_ne_nil hpatch.new_ends]

/-- Lexemes that are alike make tokens that are. -/
private theorem alike_of_lexeme {mode : Mode} {c c' : Char} {rest rest' : List Char}
    (hold : olds behind = c :: rest) (hnew : news behind = c' :: rest')
    (h : Lexeme.Alike behind (Lexeme.scan mode (olds own).getLast? c rest)
      (Lexeme.scan mode (news own).getLast? c' rest')) :
    Alike (own ++ behind) parsed mode (olds own).length (news own).length := by
  have hstop : Reach (own ++ behind) _ _ := h.reach.append own
  refine ⟨?_, ?_, ?_, ?_⟩
  · rw [olds_append, news_append, hold, hnew, tokenBehind_append, tokenBehind_append]
    exact h.kind_eq
  · rw [olds_append, news_append, hold, hnew, tokenBehind_append, tokenBehind_append]
    exact h.containsNewline_eq
  · rw [olds_append own behind, news_append own behind, hold, hnew, tokenBehind_append,
      tokenBehind_append]
    exact hstop
  · rw [olds_append own behind, news_append own behind, hold, hnew, flawsAt_append, flawsAt_append]
    unfold Scanner.findingsAt
    rw [h.flaw_eq]
    cases (Lexeme.scan mode (olds own).getLast? c rest).flaw with
    | none => exact .nil
    | some flaw => exact .cons ⟨rfl, rfl, ⟨own, behind, rfl, rfl, rfl⟩, hstop⟩ .nil

/-- Line comments that end where the texts need not correspond, in front of white space behind which
they do again. -/
structure Overlaps (patches : List Patch) (parsed : Parsed) (mode : Mode) (a a' : Nat) : Prop where
  left : IsComment (olds patches) mode a
  right : IsComment (news patches) mode a'
  stays : Stays patches (tokenBehind (olds patches) mode a).toTrivia →
    Reach patches (tokenBehind (olds patches) mode a).range.stop
      (tokenBehind (news patches) mode a').range.stop
  space : (tokenBehind (olds patches) mode
    (tokenBehind (olds patches) mode a).range.stop).kind = .space
  behind : Alike patches parsed mode (tokenBehind (olds patches) mode a).range.stop
    (tokenBehind (news patches) mode a').range.stop

/-- A piece that takes the back of the white space that is replaced goes on up to the end of the
patch at least, where both texts correspond. -/
private theorem reach_back {tail : List Patch} {front back front' back' : List Char} {n n' : Nat}
    (h : Reach (space back back' :: tail) (n + 1) (n' + 1)) :
    Reach (own ++ space (front ++ back) (front' ++ back') :: tail)
      ((olds own ++ front).length + (n + 1)) ((news own ++ front').length + (n' + 1)) := by
  obtain ⟨more, behind, heq, hlength, hlength'⟩ := h
  cases more with
  | nil => cases hlength
  | cons patch more =>
    obtain ⟨rfl, rfl⟩ := List.cons.inj heq
    refine ⟨own ++ space (front ++ back) (front' ++ back') :: more, behind, by simp, ?_, ?_⟩
    · rw [hlength]
      simp [Nat.add_assoc]
    · rw [hlength']
      simp [Nat.add_assoc]

/-- White space that begins with a line break, behind the front of the white space that is replaced. -/
private theorem alike_back {mode : Mode} (hmode : mode ≠ .markup) {tail : List Patch}
    {front back front' back' : List Char} {c c' : Char}
    (hfits : ∀ patch ∈ own ++ space (front ++ c :: back) (front' ++ c' :: back') :: tail,
      patch.Fits isSpace) (hc : isLineBreak c = true) (hc' : isLineBreak c' = true) :
    (tokenBehind (olds (own ++ space (front ++ c :: back) (front' ++ c' :: back') :: tail)) mode
      (olds own ++ front).length).kind = .space ∧
    Alike (own ++ space (front ++ c :: back) (front' ++ c' :: back') :: tail) parsed mode
      (olds own ++ front).length (news own ++ front').length := by
  obtain ⟨hspace, htail⟩ := List.forall_mem_cons.1 (List.forall_mem_append.1 hfits).2
  have hback : (space (c :: back) (c' :: back')).Fits isSpace :=
    ⟨List.cons_ne_nil _ _, List.cons_ne_nil _ _,
      fun d hd => hspace.old_ends d (List.mem_append_right _ hd),
      fun d hd => hspace.new_ends d (List.mem_append_right _ hd), by simp [hc, hc']⟩
  have hblank {d : Char} (hd : isLineBreak d = true) : mode.isBlank d = true :=
    Mode.isBlank_of_isLineBreak hd
  have hscan : Lexeme.Alike (space (c :: back) (c' :: back') :: tail)
      (Lexeme.scan mode (olds own ++ front).getLast? c (back ++ olds tail))
      (Lexeme.scan mode (news own ++ front').getLast? c' (back' ++ news tail)) :=
    Lexeme.whitespace_alike hmode (List.forall_mem_cons.2 ⟨hback, htail⟩) rfl rfl (hblank hc) _ _
  have hspaces {before : Option Char} {d : Char} {rest : List Char} (hd : isLineBreak d = true) :
      Lexeme.scan mode before d rest = Lexeme.whitespace mode d rest := if_pos (hblank hd)
  have hold : olds (own ++ space (front ++ c :: back) (front' ++ c' :: back') :: tail) =
      (olds own ++ front) ++ c :: (back ++ olds tail) := by simp
  have hnew : news (own ++ space (front ++ c :: back) (front' ++ c' :: back') :: tail) =
      (news own ++ front') ++ c' :: (back' ++ news tail) := by simp
  refine ⟨?_, ?_, ?_, ?_, ?_⟩
  · rw [hold, tokenBehind_append, hspaces hc]
    exact if_neg fun h => hmode h.1
  · rw [hold, hnew, tokenBehind_append, tokenBehind_append]
    exact hscan.kind_eq
  · rw [hold, hnew, tokenBehind_append, tokenBehind_append]
    exact hscan.containsNewline_eq
  · rw [hold, hnew, tokenBehind_append, tokenBehind_append]
    exact reach_back hscan.reach
  · rw [hold, hnew, flawsAt_append, flawsAt_append, hspaces hc, hspaces hc']
    exact .nil

private theorem isComment_append {own : List Char} {mode : Mode} {c : Char} {rest : List Char}
    {tail : Nat} (h : Lexeme.scan mode own.getLast? c rest = { kind := .lineComment, tail }) :
    IsComment (own ++ c :: rest) mode own.length := by
  refine ⟨?_, ?_, ?_⟩
  · rw [tokenBehind_append, h]
    rfl
  · rw [tokenBehind_append, h]
    rfl
  · rw [flawsAt_append, h]
    rfl

private theorem overlaps_of_lexeme {mode : Mode} (hmode : mode ≠ .markup)
    (hfits : ∀ patch ∈ own ++ behind, patch.Fits isSpace) {c c' : Char} {rest rest' : List Char}
    (hold : olds behind = c :: rest) (hnew : news behind = c' :: rest')
    (h : Lexeme.Overlap behind (Lexeme.scan mode (olds own).getLast? c rest)
      (Lexeme.scan mode (news own).getLast? c' rest')) :
    Overlaps (own ++ behind) parsed mode (olds own).length (news own).length := by
  obtain ⟨inner, tail, front, back, front', back', hbehind, hfront, hback, hback', hcomment,
    hcomment', hstop, hstop'⟩ := h
  cases back with
  | nil => cases hback
  | cons d back =>
    cases back' with
    | nil => cases hback'
    | cons d' back' =>
      have hpatches : own ++ behind =
          (own ++ inner) ++ space (front ++ d :: back) (front' ++ d' :: back') :: tail := by
        rw [hbehind, List.append_assoc]
      have hleft : olds (own ++ behind) = olds own ++ c :: rest := by rw [olds_append, hold]
      have hright : news (own ++ behind) = news own ++ c' :: rest' := by rw [news_append, hnew]
      have hend : (tokenBehind (olds (own ++ behind)) mode (olds own).length).range.stop =
          (olds (own ++ inner) ++ front).length := by
        rw [hleft, tokenBehind_append, olds_append, List.append_assoc, List.length_append, ← hstop]
        rfl
      have hend' : (tokenBehind (news (own ++ behind)) mode (news own).length).range.stop =
          (news (own ++ inner) ++ front').length := by
        rw [hright, tokenBehind_append, news_append, List.append_assoc, List.length_append, ← hstop']
        rfl
      obtain ⟨hspace, halike⟩ := alike_back hmode (hpatches ▸ hfits) hback hback'
      rw [← hpatches, ← hend] at hspace
      rw [← hpatches, ← hend, ← hend'] at halike
      have hcomment : IsComment (olds (own ++ behind)) mode (olds own).length :=
        hleft ▸ isComment_append hcomment
      refine ⟨hcomment, hright ▸ isComment_append hcomment', fun hstays => ?_, hspace, halike⟩
      -- The comment stands in front of the whole patch, on both sides.
      obtain ⟨rfl, hbreak⟩ := hstays _ _ _ _ _ hpatches (List.cons_ne_nil _ _) hcomment.kind hend
      cases front' with
      | cons e front' =>
        rw [List.any_cons, Bool.or_eq_false_iff] at hfront
        have hbreak : isLineBreak e = true := hbreak
        rw [hfront.1] at hbreak
        cases hbreak
      | nil =>
        rw [hend, hend']
        exact ⟨own ++ inner, _, hpatches, by rw [List.append_nil], by rw [List.append_nil]⟩

/-- In front of the end of the texts, both go on. -/
private theorem exists_next (hfits : ∀ patch ∈ patches, patch.Fits isSpace)
    (h : Reach patches a a') (ha : a < (olds patches).length) :
    ∃ own behind c c' rest rest', patches = own ++ behind ∧ a = (olds own).length ∧
      a' = (news own).length ∧ olds behind = c :: rest ∧ news behind = c' :: rest' := by
  obtain ⟨own, behind, rfl, rfl, rfl⟩ := h
  have hbehind : behind ≠ [] := by
    rintro rfl
    rw [List.append_nil] at ha
    exact Nat.lt_irrefl _ ha
  obtain ⟨hpos, hpos'⟩ := length_pos (List.forall_mem_append.1 hfits).2 hbehind
  obtain ⟨c, rest, hold⟩ := List.exists_cons_of_length_pos hpos
  obtain ⟨c', rest', hnew⟩ := List.exists_cons_of_length_pos hpos'
  exact ⟨own, behind, c, c', rest, rest', rfl, rfl, rfl, hold, hnew⟩

/-- Behind corresponding offsets stand tokens that are alike, or line comments that end in front of
the same white space. -/
theorem next_cases (hfits : ∀ patch ∈ patches, patch.Fits isSpace) {mode : Mode}
    (hmode : mode ≠ .markup) (h : Reach patches a a') (ha : a < (olds patches).length) :
    Alike patches parsed mode a a' ∨ Overlaps patches parsed mode a a' := by
  obtain ⟨own, behind, c, c', rest, rest', rfl, rfl, rfl, hold, hnew⟩ := exists_next hfits h ha
  rcases Lexeme.scan_alike hmode (List.forall_mem_append.1 hfits).2 hold hnew (olds own).getLast?
    (news own).getLast? with halike | hoverlap
  · exact .inl (alike_of_lexeme hold hnew halike)
  · exact .inr (overlaps_of_lexeme hmode hfits hold hnew hoverlap)

/-- Runs of text or line comments that need not end at corresponding offsets. -/
structure Foreign (patches : List Patch) (mode : Mode) (a a' : Nat) : Prop where
  kind_mem : (tokenBehind (olds patches) mode a).kind ∈ [Kind.text, .lineComment]
  kind : (tokenBehind (news patches) mode a').kind = (tokenBehind (olds patches) mode a).kind
  containsNewline : (tokenBehind (news patches) mode a').containsNewline =
    (tokenBehind (olds patches) mode a).containsNewline
  cut : ∀ kind, kind = (tokenBehind (olds patches) mode a).kind ∨ kind = .text →
    Cut patches kind (tokenBehind (olds patches) mode a).range.stop

private theorem foreign_of_lexeme {mode : Mode} {c c' : Char} {rest rest' : List Char}
    (hold : olds behind = c :: rest) (hnew : news behind = c' :: rest')
    (h : Lexeme.Foreign behind (Lexeme.scan mode (olds own).getLast? c rest)
      (Lexeme.scan mode (news own).getLast? c' rest')) :
    Foreign (own ++ behind) mode (olds own).length (news own).length := by
  have hleft : tokenBehind (olds (own ++ behind)) mode (olds own).length = Scanner.tokenAt
      (olds own).length (Lexeme.scan mode (olds own).getLast? c rest) := by
    rw [olds_append, hold, tokenBehind_append]
  have hright : tokenBehind (news (own ++ behind)) mode (news own).length = Scanner.tokenAt
      (news own).length (Lexeme.scan mode (news own).getLast? c' rest') := by
    rw [news_append, hnew, tokenBehind_append]
  refine ⟨?_, ?_, ?_, fun kind hkind => ?_⟩
  · rw [hleft]
    exact h.kind_mem
  · rw [hleft, hright]
    exact h.kind_eq
  · rw [hleft, hright]
    exact h.containsNewline_eq
  · rw [hleft] at hkind ⊢
    exact (h.cut kind hkind).append own

/-- Behind corresponding offsets of markup stand tokens that are alike, or that end next to white
space that is tidied up. -/
theorem next_markup (htidy : ∀ patch ∈ patches, patch.IsTidy) (h : Reach patches a a')
    (ha : a < (olds patches).length) :
    Alike patches parsed .markup a a' ∨ Foreign patches .markup a a' := by
  have hfits := fun patch hpatch => (htidy patch hpatch).fits_isSpace
  obtain ⟨own, behind, c, c', rest, rest', rfl, rfl, rfl, hold, hnew⟩ := exists_next hfits h ha
  exact (Lexeme.scan_alike_markup (List.forall_mem_append.1 htidy).2 hold hnew
    (before_eq (List.forall_mem_append.1 hfits).1)).imp
    (alike_of_lexeme hold hnew) (foreign_of_lexeme hold hnew)

/-! ## What lies ahead -/

/-- Looks at the same, of which the trivia corresponds if it may be in the tree. -/
structure Agree (patches : List Patch) (parsed : Parsed) (l l' : Look) : Prop where
  kind : l'.token.kind = l.token.kind
  containsNewline : l'.token.containsNewline = l.token.containsNewline
  start : Reach patches l.token.range.start l'.token.range.start
  stop : Reach patches l.token.range.stop l'.token.range.stop
  afterTrivia : l'.trivia.isEmpty = l.trivia.isEmpty
  afterLineBreak : l'.trivia.any (·.containsNewline) = l.trivia.any (·.containsNewline)
  trivia : (∀ piece ∈ l.trivia, Stays patches piece) →
    List.Forall₂ (sides patches parsed).Piece l.trivia l'.trivia
  findings : List.Forall₂ (sides patches parsed).Finding l.findings l'.findings

/-- In front of the next token, and at the end of the text, there is nothing else. -/
private theorem agree_of_token {mode : Mode} (h : Reach patches a a')
    (halike : Alike patches parsed mode a a')
    (hplain : mode ≠ .markup → (tokenBehind (olds patches) mode a).kind.isTrivia = false) :
    Agree patches parsed (look (olds patches) mode a) (look (news patches) mode a') := by
  have hplain' : mode ≠ .markup → (tokenBehind (news patches) mode a').kind.isTrivia = false :=
    halike.kind ▸ hplain
  rw [look_of_token hplain, look_of_token hplain']
  refine ⟨halike.kind, halike.containsNewline, ?_, halike.stop, rfl, rfl, fun _ => .nil,
    halike.flaws⟩
  show Reach patches (tokenBehind _ mode a).range.start (tokenBehind _ mode a').range.start
  rw [start_tokenBehind, start_tokenBehind]
  exact h

/-- The end of the text is seen on both sides. -/
private theorem alike_stop (mode : Mode) (patches : List Patch) :
    Alike patches parsed mode (olds patches).length (news patches).length := by
  refine ⟨?_, ?_, ?_, ?_⟩
  · simp only [tokenBehind, next_length, Token.eof]
  · simp only [tokenBehind, next_length, Token.eof]
  · simp only [tokenBehind, next_length]
    exact Reach.stop patches
  · simp only [flawsAt, next_length]
    exact .nil

/-- Pieces of trivia in front of what is looked at. -/
private theorem Agree.prepend {l l' : Look} (h : Agree patches parsed l l') {mode : Mode}
    {pieces pieces' : List Trivia} {found found' : List Diagnostic}
    (hempty : pieces'.isEmpty = pieces.isEmpty)
    (hbreaks : pieces'.any (·.containsNewline) = pieces.any (·.containsNewline))
    (htrivia : (∀ piece ∈ pieces, Stays patches piece) →
      List.Forall₂ (sides patches parsed).Piece pieces pieces')
    (hfound : List.Forall₂ (sides patches parsed).Finding found found') :
    Agree patches parsed ⟨mode, pieces ++ l.trivia, l.token, l.findings ++ found⟩
      ⟨mode, pieces' ++ l'.trivia, l'.token, l'.findings ++ found'⟩ where
  kind := h.kind
  containsNewline := h.containsNewline
  start := h.start
  stop := h.stop
  afterTrivia := by
    have hbehind := h.afterTrivia
    rw [Bool.eq_iff_iff, List.isEmpty_iff, List.isEmpty_iff] at hempty hbehind ⊢
    rw [List.append_eq_nil_iff, List.append_eq_nil_iff]
    exact and_congr hempty hbehind
  afterLineBreak := by
    rw [List.any_append, List.any_append, hbreaks, h.afterLineBreak]
  trivia hstays := by
    obtain ⟨hpieces, hrest⟩ := List.forall_mem_append.1 hstays
    exact List.rel_append (htrivia hpieces) (h.trivia hrest)
  findings := List.rel_append h.findings hfound

/-- Trivia on both sides, behind corresponding offsets. -/
private theorem agree_of_trivia {mode : Mode} (hmode : mode ≠ .markup) (h : Reach patches a a')
    (halike : Alike patches parsed mode a a')
    (htrivia : (tokenBehind (olds patches) mode a).kind.isTrivia = true)
    (hbehind : Agree patches parsed
      (look (olds patches) mode (tokenBehind (olds patches) mode a).range.stop)
      (look (news patches) mode (tokenBehind (news patches) mode a').range.stop)) :
    Agree patches parsed (look (olds patches) mode a) (look (news patches) mode a') := by
  have hbreaks : [(tokenBehind (news patches) mode a').toTrivia].any (·.containsNewline) =
      [(tokenBehind (olds patches) mode a).toTrivia].any (·.containsNewline) :=
    congrArg (· || false) halike.containsNewline
  have hpiece : (sides patches parsed).Piece (tokenBehind (olds patches) mode a).toTrivia
      (tokenBehind (news patches) mode a').toTrivia := by
    refine ⟨halike.kind, ?_, halike.stop⟩
    show Reach patches (tokenBehind _ mode a).range.start (tokenBehind _ mode a').range.start
    rw [start_tokenBehind, start_tokenBehind]
    exact h
  have htrivia' : (tokenBehind (news patches) mode a').kind.isTrivia = true :=
    halike.kind ▸ htrivia
  rw [look_trivia hmode htrivia, look_trivia hmode htrivia']
  refine hbehind.prepend ?_ hbreaks (fun _ => .cons hpiece .nil) halike.flaws
  rfl

/-- Line comments in front of white space that is replaced. -/
private theorem agree_of_overlaps {mode : Mode} (hmode : mode ≠ .markup) (h : Reach patches a a')
    (hoverlap : Overlaps patches parsed mode a a') {b b' : Nat}
    (hb : b = (tokenBehind (olds patches) mode a).range.stop)
    (hb' : b' = (tokenBehind (news patches) mode a').range.stop)
    (hbehind : Agree patches parsed
      (look (olds patches) mode (tokenBehind (olds patches) mode b).range.stop)
      (look (news patches) mode (tokenBehind (news patches) mode b').range.stop)) :
    Agree patches parsed (look (olds patches) mode a) (look (news patches) mode a') := by
  obtain ⟨hleft, hright, hstays, hspace, halike⟩ := hoverlap
  rw [← hb] at hstays hspace halike
  rw [← hb'] at hstays halike
  have hcomment : (tokenBehind (olds patches) mode a).kind.isTrivia = true := by
    rw [hleft.kind]
    rfl
  have hcomment' : (tokenBehind (news patches) mode a').kind.isTrivia = true := by
    rw [hright.kind]
    rfl
  have htrivia : (tokenBehind (olds patches) mode b).kind.isTrivia = true := by
    rw [hspace]
    rfl
  have htrivia' : (tokenBehind (news patches) mode b').kind.isTrivia = true :=
    halike.kind ▸ htrivia
  have hbreaks : [(tokenBehind (news patches) mode a').toTrivia,
        (tokenBehind (news patches) mode b').toTrivia].any (·.containsNewline) =
      [(tokenBehind (olds patches) mode a).toTrivia,
        (tokenBehind (olds patches) mode b).toTrivia].any (·.containsNewline) :=
    congrArg₂ (fun x y => x || (y || false))
      (hright.containsNewline.trans hleft.containsNewline.symm) halike.containsNewline
  have hpieces (hall : ∀ piece ∈ [(tokenBehind (olds patches) mode a).toTrivia,
      (tokenBehind (olds patches) mode b).toTrivia], Stays patches piece) :
      List.Forall₂ (sides patches parsed).Piece
        [(tokenBehind (olds patches) mode a).toTrivia, (tokenBehind (olds patches) mode b).toTrivia]
        [(tokenBehind (news patches) mode a').toTrivia,
          (tokenBehind (news patches) mode b').toTrivia] := by
    have hstop := hstays (hall _ List.mem_cons_self)
    refine .cons ⟨hright.kind.trans hleft.kind.symm, ?_, ?_⟩ (.cons ⟨halike.kind, ?_, halike.stop⟩ .nil)
    · show Reach patches (tokenBehind _ mode a).range.start (tokenBehind _ mode a').range.start
      rw [start_tokenBehind, start_tokenBehind]
      exact h
    · show Reach patches (tokenBehind _ mode a).range.stop (tokenBehind _ mode a').range.stop
      rw [← hb, ← hb']
      exact hstop
    · show Reach patches (tokenBehind _ mode b).range.start (tokenBehind _ mode b').range.start
      rw [start_tokenBehind, start_tokenBehind]
      exact hstop
  rw [look_trivia hmode hcomment, ← hb, look_trivia hmode hcomment', ← hb',
    look_trivia hmode htrivia, look_trivia hmode htrivia', hleft.flaws, hright.flaws,
    List.append_nil, List.append_nil]
  refine hbehind.prepend ?_ hbreaks hpieces halike.flaws
  rfl

/-- The end of the texts is seen on both sides. -/
private theorem agree_stop (hfits : ∀ patch ∈ patches, patch.Fits isSpace) (mode : Mode)
    (h : Reach patches a a') (ha : (olds patches).length ≤ a) :
    Agree patches parsed (look (olds patches) mode a) (look (news patches) mode a') := by
  have hle := (h.lt_iff hfits (Reach.stop patches)).not.1 (Nat.not_lt.2 ha)
  obtain ⟨own, behind, rfl, rfl, rfl⟩ := h
  rw [olds_append, List.length_append] at ha
  rw [news_append, List.length_append] at hle
  have hstop : (olds own).length = (olds (own ++ behind)).length := by
    rw [olds_append, List.length_append]
    omega
  have hstop' : (news own).length = (news (own ++ behind)).length := by
    rw [news_append, List.length_append]
    omega
  rw [hstop, hstop']
  refine agree_of_token (Reach.stop _) (alike_stop mode _) fun _ => ?_
  unfold tokenBehind
  rw [next_length]
  rfl

/-- Behind corresponding offsets the same is seen. -/
theorem look_agree (hfits : ∀ patch ∈ patches, patch.Fits isSpace) {mode : Mode}
    (hmode : mode ≠ .markup) (h : Reach patches a a') :
    Agree patches parsed (look (olds patches) mode a) (look (news patches) mode a') := by
  induction hn : (olds patches).length - a using Nat.strong_induction_on generalizing a a' with
  | _ n ih =>
    subst hn
    have hlonger {b : Nat} (htrivia : (tokenBehind (olds patches) mode b).kind.isTrivia = true) :
        b < (tokenBehind (olds patches) mode b).range.stop ∧
          (tokenBehind (olds patches) mode b).range.stop ≤ (olds patches).length := by
      have hne : (tokenBehind (olds patches) mode b).kind ≠ .eof := by
        intro heof
        rw [heof] at htrivia
        cases htrivia
      exact (Scanner.range_next hne).2
    rcases Nat.lt_or_ge a (olds patches).length with hlt | hge
    · rcases next_cases hfits hmode h hlt with halike | hoverlap
      · cases htrivia : (tokenBehind (olds patches) mode a).kind.isTrivia with
        | true =>
          have hstop := hlonger htrivia
          exact agree_of_trivia hmode h halike htrivia (ih _ (by omega) halike.stop rfl)
        | false => exact agree_of_token h halike fun _ => htrivia
      · have hspace := hoverlap.space
        have hcomment := hlonger (b := a) (by rw [hoverlap.left.kind]; rfl)
        have hstop := hlonger (by rw [hspace]; rfl)
        exact agree_of_overlaps hmode h hoverlap rfl rfl (ih _ (by omega) hoverlap.behind.stop rfl)
    · exact agree_stop hfits mode h hge

/-- Behind corresponding offsets of markup the same is seen, but for tokens that end next to white
space that is tidied up. -/
theorem look_markup (htidy : ∀ patch ∈ patches, patch.IsTidy) (h : Reach patches a a') :
    Agree patches parsed (look (olds patches) .markup a) (look (news patches) .markup a') ∨
      Foreign patches .markup a a' := by
  rcases Nat.lt_or_ge a (olds patches).length with hlt | hge
  · exact (next_markup htidy h hlt).imp_left fun halike => agree_of_token h halike (absurd rfl)
  · have hfits := fun patch hpatch => (htidy patch hpatch).fits_isSpace
    exact .inl (agree_stop hfits .markup h hge)

/-! ## Comparable sources -/

/-- The white space does not move what stands behind it in its line. -/
def Level (old new : List Char) : Prop :=
  ('\n' ∈ new ↔ '\n' ∈ old) ∧ lastLineLength new = lastLineLength old

instance (old new : List Char) : Decidable (Level old new) :=
  inferInstanceAs (Decidable (_ ∧ _))

/-- Nothing is moved in its line. -/
def IsLevel : Patch → Prop
  | keep _ => True
  | space old new => Level old new

/-- Where nothing is moved in its line, corresponding offsets stand in the same column. -/
theorem Reach.column_eq (h : Reach patches a a') (hlevel : ∀ patch ∈ patches, patch.IsLevel) :
    column (news patches) a' = column (olds patches) a := by
  obtain ⟨own, behind, rfl, rfl, rfl⟩ := h
  rw [olds_append, news_append, column_eq_lastLineLength (by simp),
    column_eq_lastLineLength (by simp), List.take_left, List.take_left]
  have hown := (List.forall_mem_append.1 hlevel).1
  clear hlevel
  induction own using List.reverseRecOn with
  | nil => rfl
  | append_singleton own patch ih =>
    obtain ⟨hinit, hpatch⟩ := List.forall_mem_append.1 hown
    have ih := ih hinit
    have hpatch := hpatch patch List.mem_cons_self
    rw [olds_append, news_append]
    cases patch with
    | keep c =>
      show lastLineLength (news own ++ [c]) = lastLineLength (olds own ++ [c])
      by_cases hc : c = '\n'
      · subst hc
        rw [lastLineLength_append_newline, lastLineLength_append_newline]
      · rw [lastLineLength_append_of_ne _ hc, lastLineLength_append_of_ne _ hc, ih]
    | space old new =>
      obtain ⟨hfeed, hlength⟩ := hpatch
      show lastLineLength (news own ++ (new ++ [])) = lastLineLength (olds own ++ (old ++ []))
      rw [List.append_nil, List.append_nil]
      by_cases hmem : '\n' ∈ old
      · rw [lastLineLength_append_of_mem _ hmem, lastLineLength_append_of_mem _ (hfeed.2 hmem),
          hlength]
      · rw [lastLineLength_append _ hmem, lastLineLength_append _ (mt hfeed.1 hmem), ih,
          ← lastLineLength_of_not_mem hmem, ← lastLineLength_of_not_mem (mt hfeed.1 hmem), hlength]

/-- What has to be true of the white space that is replaced in a source that is read as a tree. -/
structure Suits (patches : List Patch) (parsed : Parsed) : Prop where
  fits : ∀ patch ∈ patches, patch.Fits isSpace
  tidy : Kind.markup ∈ parsed.tree.nodes.map (·.1) → ∀ patch ∈ patches, patch.IsTidy
  lacks : Kind.markup ∈ parsed.tree.nodes.map (·.1) → ∀ kind n, Cut patches kind n →
    parsed.diagnostics = [] ∧ parsed.tree.Lacks (.token kind n)
  level : Kind.markup ∈ parsed.tree.nodes.map (·.1) →
    (∃ token ∈ parsed.tree.tokens, token.1 ∈ Sides.itemMarkers) → ∀ patch ∈ patches, patch.IsLevel

/-- Markup only matters if there is some in the tree. -/
private theorem mem_nodes_of_not_barred (h : ¬(sides patches parsed).barred) :
    Kind.markup ∈ parsed.tree.nodes.map (·.1) := by
  by_contra hnone
  exact h fun _ => ⟨by decide, hnone⟩

/-- Items only matter if there are some in the tree. -/
private theorem exists_marker_of_not_unlisted (h : ¬(sides patches parsed).unlisted) :
    ∃ token ∈ parsed.tree.tokens, token.1 ∈ Sides.itemMarkers := by
  by_contra hnone
  refine h fun kind hkind stop before text behind htokens _ => hnone ⟨(kind, text), ?_, hkind⟩
  rw [htokens]
  exact List.mem_append_right _ List.mem_cons_self

/-- Tokens that end elsewhere on the other side are not in the tree. -/
private theorem Foreign.sight (h : Foreign patches .markup a a') (hplace : Reach patches a a')
    (hlacks : ∀ kind n, Cut patches kind n →
      parsed.diagnostics = [] ∧ parsed.tree.Lacks (.token kind n)) :
    (sides patches parsed).Sight .markup a a' (look (olds patches) .markup a)
      (look (news patches) .markup a') := by
  rw [look_of_token (absurd rfl), look_of_token (absurd rfl)]
  have hclean := (hlacks _ _ (h.cut _ (.inl rfl))).1
  refine .foreign hclean ⟨h.kind, h.containsNewline, ?_, fun _ => rfl, fun _ => rfl⟩ h.kind_mem
    fun kind hkind => (hlacks kind _ (h.cut kind hkind)).2
  show Reach patches (tokenBehind _ .markup a).range.start (tokenBehind _ .markup a').range.start
  rw [start_tokenBehind, start_tokenBehind]
  exact hplace

/-- The scanner sees the same on both sides. -/
theorem sides_lawful (hsuits : Suits patches parsed) : (sides patches parsed).Lawful where
  place_lt := fun ha hb => ha.lt_iff hsuits.fits hb
  clean_of_strict := fun h => h.elim
  column := fun hbarred hunlisted _ _ h => h.column_eq
    (hsuits.level (mem_nodes_of_not_barred hbarred) (exists_marker_of_not_unlisted hunlisted))
  strict_of_first := fun h => h.elim
  first_zero := fun h => h.elim
  old_first := fun h => h.elim
  spent_step := fun h => h.elim
  spent_closing := fun h => h.elim
  sight := by
    intro a a' mode hbarred hbehind _ _ _
    have hplace : Reach patches a a' := hbehind.resolve_right id
    have hagree (h : Agree patches parsed (look (olds patches) mode a) (look (news patches) mode a')) :
        (sides patches parsed).Sight mode a a' (look (olds patches) mode a)
          (look (news patches) mode a') :=
      .agree ⟨h.kind, h.containsNewline, h.start, fun _ => h.afterTrivia, fun _ => h.afterLineBreak⟩
        h.stop (fun _ => h.trivia) h.findings fun hstrict => hstrict.elim
    by_cases hmode : mode = .markup
    · subst hmode
      have hmarkup := mem_nodes_of_not_barred fun h => hbarred h rfl
      rcases look_markup (hsuits.tidy hmarkup) hplace with h | h
      · exact hagree h
      · exact h.sight hplace (hsuits.lacks hmarkup)
    · exact hagree (look_agree hsuits.fits hmode hplace)
  breakRules := by
    intro rule hrule
    cases hrule

theorem sides_apart (patches : List Patch) (parsed : Parsed) : (sides patches parsed).Apart :=
  ⟨id, Reach.zero patches, .rfl, rfl, rfl, rfl⟩

end Patch

end TypstFormat
