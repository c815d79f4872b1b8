import TypstFormat.Proofs.Text.LineColumn
import TypstFormat.Proofs.Token.Continued
import TypstFormat.Proofs.Token.Spent
import TypstFormat.Proofs.Twin.Sides

/-!
# A text and the block of code that holds it

A text of code is compared with the block of code that it makes on lines of its own, embedded in
markup. Behind corresponding offsets the scanner sees the same, as long as nothing is left open at
the end of the text. In front of the first token the block has a line break more, and where the text
ends the block goes on with a line break and the closing brace.

## Key results

- `Enclosed.next_cases`: what becomes of a token of the text in the block
- `Enclosed.sight`, `Enclosed.sight_first`: what is seen behind corresponding offsets
- `Sides.enclosed_lawful`: the two sources are comparable
-/

namespace TypstFormat

open Text

/-- A text on lines of its own in a block of code, which is embedded in markup. -/
def enclosed (text : List Char) : List Char :=
  '#' :: '{' :: '\n' :: (text ++ ['\n', '}'])

namespace Sides

/-- A text of code, and the block that holds it. The right parser has read the opening brace when
the comparison begins. -/
def enclosed (text : List Char) : Sides where
  left := text
  right := TypstFormat.enclosed text
  clean := True
  strict := True
  absent _ := False
  place a a' := a ≤ text.length ∧ a' = a + 3
  stays _ := True
  first a a' := a = 0 ∧ a' = 2
  old old old' := old = (look text .code 0).trivia.reverse ∧
    old' = (look (TypstFormat.enclosed text) .code 2).trivia.reverse
  spent a := a ≤ text.length ∧ Spent text a
  front := [.tombstone, .token .hash 1, .tombstone, .tombstone, .token .leftBrace 2]
  modes := [.markup]
  breakRules := [(.ignored, 1), (.ends, 1)]

/-- A piece of trivia in front of what is seen. -/
theorem Sight.cons {S : Sides} {mode : Mode} {a a' b b' : Nat} {l l' : Look}
    (h : S.Sight mode b b' l l') (hb : S.place b b') (hspent : S.spent b → S.spent a)
    {piece piece' : Trivia} (hpiece : S.Piece piece piece')
    (hbreak : piece'.containsNewline = piece.containsNewline) {found found' : List Diagnostic}
    (hfound : List.Forall₂ S.Finding found found') :
    S.Sight mode a a' ⟨mode, piece :: l.trivia, l.token, l.findings ++ found⟩
      ⟨mode, piece' :: l'.trivia, l'.token, l'.findings ++ found'⟩ := by
  have halike (halike : S.Alike b b' l l') :
      S.Alike a a' ⟨mode, piece :: l.trivia, l.token, l.findings ++ found⟩
        ⟨mode, piece' :: l'.trivia, l'.token, l'.findings ++ found'⟩ := by
    refine ⟨halike.kind, halike.containsNewline, halike.start, fun _ => rfl, fun _ => ?_⟩
    rw [List.any_cons, List.any_cons, hbreak, halike.afterLineBreak hb]
  cases h with
  | agree hbehind hstop htrivia hfindings heof =>
    exact .agree (halike hbehind) hstop
      (fun _ hstays => .cons hpiece (htrivia hb (List.forall_mem_cons.1 hstays).2))
      (List.rel_append hfindings hfound) heof
  | ending hstrict hbehind hkind hopen =>
    exact .ending hstrict (halike hbehind) hkind
      (hopen.imp_left fun hne hnil => hne (List.append_eq_nil_iff.1 hnil).1)
  | foreign hclean hbehind hkind habsent => exact .foreign hclean (halike hbehind) hkind habsent
  | gap hstrict hmode hkind hkind' hnewline hfindings =>
    refine .gap hstrict hmode hkind hkind' ?_ (List.rel_append hfindings hfound)
    rw [List.any_cons, hnewline, Bool.or_true]
  | lost hstrict hmode hkind hkind' hne =>
    exact .lost hstrict hmode hkind hkind' fun hnil => hne (List.append_eq_nil_iff.1 hnil).1
  | spent hstrict hmode hb => exact .spent hstrict hmode (hspent hb)

/-- Other trivia in front of what is seen, where offsets do not correspond. -/
theorem Sight.of_behind {S : Sides} {a a' b b' : Nat} {l l' m m' : Look}
    (h : S.Sight .code b b' m m') (hnot : ¬S.place a a') (htoken : l.token = m.token)
    (htoken' : l'.token = m'.token) (hfindings : l.findings = m.findings)
    (hfindings' : l'.findings = m'.findings)
    (hbreak : l'.trivia.any (·.containsNewline) = true) : S.Sight .code a a' l l' := by
  have halike (halike : S.Alike b b' m m') : S.Alike a a' l l' := by
    refine ⟨?_, ?_, ?_, fun hplace => absurd hplace hnot, fun hplace => absurd hplace hnot⟩
    · rw [htoken, htoken']
      exact halike.kind
    · rw [htoken, htoken']
      exact halike.containsNewline
    · rw [htoken, htoken']
      exact halike.start
  cases h with
  | agree hbehind hstop _ hfound heof =>
    refine .agree (halike hbehind) ?_ (fun hplace => absurd hplace hnot) ?_ ?_
    · rwa [htoken, htoken']
    · rwa [hfindings, hfindings']
    · rwa [htoken]
  | ending hstrict hbehind hkind hopen =>
    refine .ending hstrict (halike hbehind) ?_ ?_
    · rwa [htoken]
    · rwa [htoken, hfindings]
  | foreign hclean hbehind hkind habsent =>
    refine .foreign hclean (halike hbehind) ?_ ?_
    · rwa [htoken]
    · rwa [htoken]
  | gap hstrict hmode hkind hkind' _ hfound =>
    refine .gap hstrict hmode ?_ ?_ hbreak ?_
    · rwa [htoken]
    · rwa [htoken']
    · rwa [hfindings, hfindings']
  | lost hstrict hmode hkind hkind' hne =>
    refine .lost hstrict hmode ?_ ?_ ?_
    · rwa [htoken]
    · rwa [htoken']
    · rwa [hfindings]
  | spent _ hmode => exact absurd rfl hmode

end Sides

/-! ## The next token -/

namespace Enclosed

variable {text : List Char} {mode : Mode} {a : Nat}

/-- The token behind an offset of a text, as it stands in the block. -/
structure Alike (text : List Char) (mode : Mode) (a : Nat) : Prop where
  kind : (tokenBehind (enclosed text) mode (a + 3)).kind = (tokenBehind text mode a).kind
  containsNewline : (tokenBehind (enclosed text) mode (a + 3)).containsNewline =
    (tokenBehind text mode a).containsNewline
  stop : (tokenBehind (enclosed text) mode (a + 3)).range.stop =
    (tokenBehind text mode a).range.stop + 3
  flaws : List.Forall₂ (Sides.enclosed text).Finding (flawsAt text mode a)
    (flawsAt (enclosed text) mode (a + 3))

/-- A comment that is not closed takes the rest of the text, and of the block as well. -/
structure Swallowed (text : List Char) (a : Nat) : Prop where
  kind : (tokenBehind text .code a).kind = .blockComment
  stop : (tokenBehind text .code a).range.stop = text.length
  flaws : flawsAt text .code a ≠ []
  kind' : (tokenBehind (enclosed text) .code (a + 3)).kind = .blockComment
  stop' : (tokenBehind (enclosed text) .code (a + 3)).range.stop = (enclosed text).length

/-- A token that reaches up to the end of a text because it is not closed. -/
structure Open (text : List Char) (mode : Mode) (a : Nat) : Prop where
  kind : (tokenBehind (enclosed text) mode (a + 3)).kind = (tokenBehind text mode a).kind
  containsNewline : (tokenBehind (enclosed text) mode (a + 3)).containsNewline =
    (tokenBehind text mode a).containsNewline
  stop : (tokenBehind text mode a).range.stop = text.length
  mem : (tokenBehind text mode a).kind ∈ [Kind.str, .raw, .escape]
  cause : flawsAt text mode a ≠ [] ∨ mode ≠ .code

private theorem enclosed_append (own : List Char) (c : Char) (rest : List Char) :
    enclosed (own ++ c :: rest) = (['#', '{', '\n'] ++ own) ++ c :: (rest ++ ['\n', '}']) := by
  simp [enclosed]

private theorem length_front (own : List Char) :
    (['#', '{', '\n'] ++ own).length = own.length + 3 := by
  simp

/-- The line break in front of a text is no letter. -/
private theorem before_eq (own : List Char) :
    (['#', '{', '\n'] ++ own).getLast?.any isAlphanumeric = own.getLast?.any isAlphanumeric := by
  rw [List.getLast?_append]
  cases own.getLast? with
  | none => rfl
  | some c => rfl

private theorem findings_of_flaw {lexeme : Lexeme} (h : lexeme.flaw ≠ none) (offset : Nat) :
    Scanner.findingsAt offset lexeme ≠ [] := by
  unfold Scanner.findingsAt
  cases hflaw : lexeme.flaw with
  | none => exact absurd hflaw h
  | some flaw => simp

private theorem tokenBehind_enclosed (own : List Char) (mode : Mode) (c : Char) (rest : List Char) :
    tokenBehind (enclosed (own ++ c :: rest)) mode (own.length + 3) =
      Scanner.tokenAt (own.length + 3)
        (Lexeme.scan mode (['#', '{', '\n'] ++ own).getLast? c (rest ++ ['\n', '}'])) := by
  rw [enclosed_append, ← length_front, tokenBehind_append]

private theorem flawsAt_enclosed (own : List Char) (mode : Mode) (c : Char) (rest : List Char) :
    flawsAt (enclosed (own ++ c :: rest)) mode (own.length + 3) =
      Scanner.findingsAt (own.length + 3)
        (Lexeme.scan mode (['#', '{', '\n'] ++ own).getLast? c (rest ++ ['\n', '}'])) := by
  rw [enclosed_append, ← length_front, flawsAt_append]

/-- The same lexeme makes the same token, with the same wrong in it. -/
private theorem alike_of_lexeme {own rest : List Char} {c : Char} {lexeme : Lexeme}
    (h : Lexeme.scan mode own.getLast? c rest = lexeme)
    (h' : Lexeme.scan mode (['#', '{', '\n'] ++ own).getLast? c (rest ++ ['\n', '}']) = lexeme) :
    Alike (own ++ c :: rest) mode own.length := by
  have hlt : own.length < (own ++ c :: rest).length := by simp
  have hleft := tokenBehind_append own mode c rest
  have hright := tokenBehind_enclosed own mode c rest
  have hstop := (range_tokenBehind hlt mode).2.2
  rw [h] at hleft
  rw [h'] at hright
  rw [hleft] at hstop
  refine ⟨by rw [hleft, hright]; rfl, by rw [hleft, hright]; rfl, ?_, ?_⟩
  · rw [hleft, hright]
    exact Nat.add_right_comm _ _ _
  · rw [flawsAt_append, flawsAt_enclosed, h, h']
    unfold Scanner.findingsAt
    cases lexeme.flaw with
    | none => exact .nil
    | some flaw =>
      exact .cons ⟨rfl, rfl, ⟨Nat.le_of_lt hlt, rfl⟩, ⟨hstop, Nat.add_right_comm _ _ _⟩⟩ .nil

/-- A comment that is not closed in the text is not closed in the block. -/
private theorem swallowed_of_comment {own rest : List Char} (hrest : rest.head? = some '*')
    (hflaw : (Lexeme.blockComment rest).flaw ≠ none)
    (htail : (Lexeme.blockComment rest).tail = rest.length)
    (htail' : (Lexeme.blockComment (rest ++ ['\n', '}'])).tail = (rest ++ ['\n', '}']).length) :
    Swallowed (own ++ '/' :: rest) own.length := by
  have hrest' : (rest ++ ['\n', '}']).head? = some '*' := by
    rw [List.head?_append, hrest]
    rfl
  have hleft := tokenBehind_append own .code '/' rest
  have hright := tokenBehind_enclosed own .code '/' rest
  rw [Lexeme.scan_blockComment hrest] at hleft
  rw [Lexeme.scan_blockComment hrest'] at hright
  refine ⟨?_, ?_, ?_, ?_, ?_⟩
  · rw [hleft]
    rfl
  · rw [hleft, List.length_append, List.length_cons, ← htail]
    rfl
  · rw [flawsAt_append, Lexeme.scan_blockComment hrest]
    exact findings_of_flaw hflaw _
  · rw [hright]
    rfl
  · rw [hright, enclosed_append, List.length_append, List.length_cons, ← htail', length_front]
    rfl

/-- Behind an offset of a text stands the same token, unless it reaches up to the end of the text as
white space or because it is not closed. -/
theorem next_cases (mode : Mode) (hlt : a < text.length) :
    Alike text mode a ∨
      (∃ own blanks, text = own ++ blanks ∧ a = own.length ∧ ∀ c ∈ blanks, isSpace c = true) ∨
      Swallowed text a ∨ Open text mode a := by
  obtain ⟨own, c, rest, rfl, rfl⟩ := Spent.exists_split hlt
  have hleft := tokenBehind_append own mode c rest
  have hright := tokenBehind_enclosed own mode c rest
  have hflaws := flawsAt_append own mode c rest
  have hlength : own.length + (rest.length + 1) = (own ++ c :: rest).length := by simp
  have hcontinued : Lexeme.Continued mode c rest ['\n', '}'] _ _ :=
    Lexeme.continued_scan rfl (by simp) (before_eq own) c
  generalize hlexeme : Lexeme.scan mode own.getLast? c rest = lexeme at hleft hflaws hcontinued
  generalize hlexeme' : Lexeme.scan mode _ c (rest ++ _) = lexeme' at hright hcontinued
  cases hcontinued with
  | same heq => exact .inl (alike_of_lexeme hlexeme (hlexeme'.trans heq))
  | blank hblank => exact .inr (.inl ⟨own, c :: rest, rfl, rfl, hblank⟩)
  | comment hc hrest hflaw htail htail' =>
    subst hc
    exact .inr (.inr (.inl (swallowed_of_comment hrest hflaw htail htail')))
  | unclosed hmem hkind hnone hnone' hflaw htail =>
    -- It goes on in the block, where something may be wrong with it or not.
    refine .inr (.inr (.inr ⟨?_, ?_, ?_, ?_, .inl ?_⟩))
    · rw [hleft, hright]
      exact hkind
    · rw [hleft, hright]
      exact hnone'.trans hnone.symm
    · rw [hleft, ← hlength, ← htail]
      rfl
    · rw [hleft]
      exact List.mem_append_left [.escape] hmem
    · rw [hflaws]
      exact findings_of_flaw hflaw _
  | escape hmode hkind hkind' hnone hnone' htail =>
    refine .inr (.inr (.inr ⟨?_, ?_, ?_, ?_, .inr hmode⟩))
    · rw [hleft, hright]
      exact hkind'.trans hkind.symm
    · rw [hleft, hright]
      exact hnone'.trans hnone.symm
    · rw [hleft, ← hlength, ← htail]
      rfl
    · rw [hleft]
      show lexeme.kind ∈ _
      rw [hkind]
      decide

/-! ## What is seen -/

/-- The closing brace, which stands behind the line break that was put behind the text. -/
def brace (text : List Char) : Token :=
  { kind := .rightBrace, range := Range.ofLength (text.length + 4) 1 }

theorem look_brace (text : List Char) :
    look (enclosed text) .code (text.length + 4) =
      { mode := .code, trivia := [], token := brace text, findings := [] } := by
  have hsource : enclosed text = ('#' :: '{' :: '\n' :: (text ++ ['\n'])) ++ '}' :: [] := by
    simp [enclosed]
  have hlength : text.length + 4 = ('#' :: '{' :: '\n' :: (text ++ ['\n'])).length := by simp
  have hscan (before : Option Char) :
      Lexeme.scan .code before '}' [] = { kind := .rightBrace, tail := 0 } := by
    unfold Lexeme.scan
    rfl
  have htoken : tokenBehind (enclosed text) .code (text.length + 4) = brace text := by
    rw [hsource, hlength, tokenBehind_append, hscan, ← hlength]
    rfl
  rw [look_of_token fun _ => by
    show (tokenBehind (enclosed text) .code (text.length + 4)).kind.isTrivia = false
    rw [htoken]
    rfl]
  refine congrArg₂ (Look.mk .code []) htoken ?_
  rw [hsource, hlength, flawsAt_append, hscan]
  rfl

/-- Nothing is wrong with white space up to the end of a text. -/
private theorem findings_of_blanks (own : List Char) {blanks : List Char}
    (h : ∀ c ∈ blanks, isSpace c = true) :
    (look (own ++ blanks) .code own.length).findings = [] := by
  by_cases hne : blanks = []
  · subst hne
    rw [List.append_nil, look_length]
  · rw [look_blanks own blanks [] (by rw [List.append_nil]) rfl hne h rfl, ← List.length_append,
      look_length]

/-- White space that goes on to the closing brace, with a line break in it. -/
private theorem look_up_to_brace (own blanks : List Char) {offset : Nat}
    (hsource : enclosed text = own ++ (blanks ++ ['}'])) (hoffset : offset = own.length)
    (h : ∀ c ∈ blanks, isSpace c = true) (hbreak : '\n' ∈ blanks) :
    (look (enclosed text) .code offset).token = brace text ∧
      (look (enclosed text) .code offset).trivia.any (·.containsNewline) = true ∧
      (look (enclosed text) .code offset).findings = [] := by
  have hlength : offset + blanks.length = text.length + 4 := by
    have := congrArg List.length hsource
    simp only [enclosed, List.length_cons, List.length_append, List.length_nil] at this
    omega
  have hbreaks : 0 < Lexeme.lineBreaks blanks :=
    Lexeme.lineBreaks_pos_iff.2 ⟨'\n', hbreak, by decide⟩
  rw [look_blanks own blanks ['}'] hsource hoffset (List.ne_nil_of_mem hbreak) h rfl, hlength,
    look_brace]
  exact ⟨rfl, by simp [hbreaks], rfl⟩

/-- A piece of trivia that is the same on both sides, in front of what is seen behind it. -/
private theorem sight_of_trivia (hmode : mode ≠ .markup) (h : Alike text mode a)
    (hlt : a < text.length) (htrivia : (tokenBehind text mode a).kind.isTrivia = true)
    (hspent : Spent text (tokenBehind text mode a).range.stop → Spent text a)
    (hbehind : (Sides.enclosed text).Sight mode (tokenBehind text mode a).range.stop
      ((tokenBehind text mode a).range.stop + 3)
      (look text mode (tokenBehind text mode a).range.stop)
      (look (enclosed text) mode ((tokenBehind text mode a).range.stop + 3))) :
    (Sides.enclosed text).Sight mode a (a + 3) (look text mode a)
      (look (enclosed text) mode (a + 3)) := by
  have hstop := (range_tokenBehind hlt mode).2.2
  have htrivia' : (tokenBehind (enclosed text) mode (a + 3)).kind.isTrivia = true :=
    h.kind ▸ htrivia
  have hpiece : (Sides.enclosed text).Piece (tokenBehind text mode a).toTrivia
      (tokenBehind (enclosed text) mode (a + 3)).toTrivia := by
    refine ⟨h.kind, ?_, ⟨hstop, h.stop⟩⟩
    show (Sides.enclosed text).place (tokenBehind text mode a).range.start
      (tokenBehind (enclosed text) mode (a + 3)).range.start
    rw [start_tokenBehind, start_tokenBehind]
    exact ⟨Nat.le_of_lt hlt, rfl⟩
  rw [look_trivia hmode htrivia, look_trivia hmode htrivia', h.stop]
  exact hbehind.cons ⟨hstop, rfl⟩ (fun hspent' => ⟨Nat.le_of_lt hlt, hspent hspent'.2⟩) hpiece
    h.containsNewline h.flaws

/-- What is seen of the end of the block where the text ends. -/
inductive Ending (text : List Char) (l l' : Look) : Prop
  /-- The closing brace. -/
  | brace : l'.token = brace text → l'.trivia.any (·.containsNewline) = true →
    List.Forall₂ (Sides.enclosed text).Finding l.findings l'.findings → Ending text l l'
  /-- Nothing, since a comment is not closed. -/
  | lost : l'.token.kind = .eof → l.findings ≠ [] → Ending text l l'

theorem Ending.sight {l l' : Look} {a' : Nat} (h : Ending text l l') (heof : l.token.kind = .eof) :
    (Sides.enclosed text).Sight .code a a' l l' := by
  cases h with
  | brace htoken hbreak hfound =>
    exact .gap trivial rfl heof (by rw [htoken]; rfl) hbreak hfound
  | lost hkind hne => exact .lost trivial rfl heof hkind hne

/-- Where nothing but trivia of code is left of the text, the block ends as well. -/
theorem ending_of_spent (h : Spent text a) (hle : a ≤ text.length) :
    Ending text (look text .code a) (look (enclosed text) .code (a + 3)) := by
  induction hn : text.length - a using Nat.strong_induction_on generalizing a with
  | _ n ih =>
    subst hn
    have hblanks {own blanks : List Char} (heq : text = own ++ blanks) (ha : a = own.length)
        (hspace : ∀ c ∈ blanks, isSpace c = true) :
        Ending text (look text .code a) (look (enclosed text) .code (a + 3)) := by
      subst heq ha
      have hsource : enclosed (own ++ blanks) =
          (['#', '{', '\n'] ++ own) ++ ((blanks ++ ['\n']) ++ ['}']) := by simp [enclosed]
      obtain ⟨htoken, hbreak, hfindings⟩ := look_up_to_brace _ _ hsource (length_front own).symm
        (List.forall_mem_append.2 ⟨hspace, List.forall_mem_singleton.2 rfl⟩) (by simp)
      refine .brace htoken hbreak ?_
      rw [findings_of_blanks own hspace, hfindings]
      exact .nil
    rcases Nat.eq_or_lt_of_le hle with heq | hlt
    · exact hblanks (List.append_nil text).symm heq (by simp)
    have htrivia := h.isTrivia hlt
    have hbehind := (Spent.iff_stop htrivia).1 h
    rcases next_cases .code hlt with halike | ⟨own, blanks, heq, ha, hspace⟩ | hswallowed | hopen
    · obtain ⟨-, hlonger, hstop⟩ := range_tokenBehind hlt .code
      have htrivia' : (tokenBehind (enclosed text) .code (a + 3)).kind.isTrivia = true :=
        halike.kind ▸ htrivia
      have hending := ih _ (by omega) hbehind hstop rfl
      rw [look_trivia (by decide) htrivia, look_trivia (by decide) htrivia', halike.stop]
      cases hending with
      | brace htoken hbreak hfound =>
        refine .brace htoken ?_ (List.rel_append hfound halike.flaws)
        rw [List.any_cons, hbreak, Bool.or_true]
      | lost hkind hne => exact .lost hkind fun hnil => hne (List.append_eq_nil_iff.1 hnil).1
    · exact hblanks heq ha hspace
    · -- The comment takes the block as well.
      have htrivia' : (tokenBehind (enclosed text) .code (a + 3)).kind.isTrivia = true := by
        rw [hswallowed.kind']
        rfl
      rw [look_trivia (by decide) htrivia, look_trivia (by decide) htrivia', hswallowed.stop,
        hswallowed.stop', look_length, look_length]
      exact .lost rfl hswallowed.flaws
    · have hkind := hopen.mem
      simp only [List.mem_cons, List.not_mem_nil, or_false] at hkind
      rcases hkind with hkind | hkind | hkind <;> rw [hkind] at htrivia <;> cases htrivia

/-- Trivia that something else comes behind is the same on both sides. -/
private theorem sight_at_trivia (hmode : mode ≠ .markup) (hspent : ¬Spent text a)
    (hlt : a < text.length) (htrivia : (tokenBehind text mode a).kind.isTrivia = true)
    (hbehind : (Sides.enclosed text).Sight mode (tokenBehind text mode a).range.stop
      ((tokenBehind text mode a).range.stop + 3)
      (look text mode (tokenBehind text mode a).range.stop)
      (look (enclosed text) mode ((tokenBehind text mode a).range.stop + 3))) :
    (Sides.enclosed text).Sight mode a (a + 3) (look text mode a)
      (look (enclosed text) mode (a + 3)) := by
  have hcode : tokenBehind text mode a = tokenBehind text .code a := by
    cases mode with
    | markup => exact absurd rfl hmode
    | code => rfl
    | math =>
      obtain ⟨own, c, rest, rfl, rfl⟩ := Spent.exists_split hlt
      rw [tokenBehind_append] at htrivia
      rw [tokenBehind_append, tokenBehind_append, Lexeme.scan_code_of_isTrivia htrivia]
  have hiff : Spent text a ↔ Spent text (tokenBehind text mode a).range.stop := by
    have hiff := Spent.iff_stop (hcode ▸ htrivia)
    rwa [← hcode] at hiff
  -- Trivia that reaches up to the end of the text would leave nothing behind it.
  have hwithin : (tokenBehind text mode a).range.stop ≠ text.length := by
    intro heq
    rw [heq] at hiff
    exact hspent (hiff.2 (.length text))
  rcases next_cases mode hlt with halike | ⟨own, blanks, heq, ha, hspace⟩ | hswallowed | hopen
  · exact sight_of_trivia hmode halike hlt htrivia hiff.2 hbehind
  · subst heq ha
    exact absurd (.of_blanks own hspace) hspent
  · rw [hcode] at hwithin
    exact absurd hswallowed.stop hwithin
  · exact absurd hopen.stop hwithin

/-- A token that is no trivia is the same on both sides, if it is closed. -/
private theorem sight_at_token (hspent : ¬Spent text a) (hlt : a < text.length)
    (hplain : mode ≠ .markup → (tokenBehind text mode a).kind.isTrivia = false) :
    (Sides.enclosed text).Sight mode a (a + 3) (look text mode a)
      (look (enclosed text) mode (a + 3)) := by
  obtain ⟨hne, -, hstop⟩ := range_tokenBehind hlt mode
  have hlook : look text mode a = ⟨mode, [], tokenBehind text mode a, flawsAt text mode a⟩ :=
    look_of_token hplain
  have halike (hkind : (tokenBehind (enclosed text) mode (a + 3)).kind =
        (tokenBehind text mode a).kind)
      (hnewline : (tokenBehind (enclosed text) mode (a + 3)).containsNewline =
        (tokenBehind text mode a).containsNewline) :
      look (enclosed text) mode (a + 3) = ⟨mode, [], tokenBehind (enclosed text) mode (a + 3),
          flawsAt (enclosed text) mode (a + 3)⟩ ∧
        (Sides.enclosed text).Alike a (a + 3) (look text mode a)
          (look (enclosed text) mode (a + 3)) := by
    have hlook' : look (enclosed text) mode (a + 3) =
        ⟨mode, [], tokenBehind (enclosed text) mode (a + 3),
          flawsAt (enclosed text) mode (a + 3)⟩ :=
      look_of_token fun hmode => hkind ▸ hplain hmode
    refine ⟨hlook', ?_⟩
    rw [hlook, hlook']
    refine ⟨hkind, hnewline, ?_, fun _ => rfl, fun _ => rfl⟩
    show (Sides.enclosed text).place (tokenBehind text mode a).range.start
      (tokenBehind (enclosed text) mode (a + 3)).range.start
    rw [start_tokenBehind, start_tokenBehind]
    exact ⟨Nat.le_of_lt hlt, rfl⟩
  rcases next_cases mode hlt with hsame | ⟨own, blanks, heq, ha, hspace⟩ | hswallowed | hopen
  · obtain ⟨hlook', hsight⟩ := halike hsame.kind hsame.containsNewline
    refine .agree hsight ?_ ?_ ?_ ?_
    · rw [hlook, hlook']
      exact ⟨hstop, hsame.stop⟩
    · rw [hlook, hlook']
      exact fun _ _ => .nil
    · rw [hlook, hlook']
      exact hsame.flaws
    · rw [hlook]
      exact fun _ => hne
  · subst heq ha
    exact absurd (.of_blanks own hspace) hspent
  · refine absurd ((Spent.iff_stop (by rw [hswallowed.kind]; rfl)).2 ?_) hspent
    rw [hswallowed.stop]
    exact .length text
  · obtain ⟨-, hsight⟩ := halike hopen.kind hopen.containsNewline
    refine .ending trivial hsight ?_ ?_
    · rw [hlook]
      exact List.mem_append_left [.eof] hopen.mem
    · rw [hlook]
      exact hopen.cause.imp_right fun hmode => ⟨hmode, by
        rw [hopen.stop]
        exact ⟨Nat.le_refl _, .length text⟩⟩

/-- Behind corresponding offsets the scanner sees the same, up to the end of the text. -/
theorem sight (mode : Mode) (hle : a ≤ text.length) :
    (Sides.enclosed text).Sight mode a (a + 3) (look text mode a)
      (look (enclosed text) mode (a + 3)) := by
  induction hn : text.length - a using Nat.strong_induction_on generalizing a with
  | _ n ih =>
    subst hn
    -- Where nothing but trivia is left, only code is compared to the end of the text.
    by_cases hspent : Spent text a
    · by_cases hmode : mode = .code
      · subst hmode
        exact (ending_of_spent hspent hle).sight hspent
      · exact .spent trivial hmode ⟨hle, hspent⟩
    have hlt : a < text.length := by
      refine Nat.lt_of_le_of_ne hle ?_
      rintro rfl
      exact hspent (.length text)
    obtain ⟨-, hlonger, hstop⟩ := range_tokenBehind hlt mode
    by_cases htrivia : mode ≠ .markup ∧ (tokenBehind text mode a).kind.isTrivia = true
    · exact sight_at_trivia htrivia.1 hspent hlt htrivia.2 (ih _ (by omega) hstop rfl)
    · exact sight_at_token hspent hlt fun hmode =>
        Bool.eq_false_iff.2 fun hkind => htrivia ⟨hmode, hkind⟩

/-- White space in front of a text is skipped, with nothing wrong in it. -/
private theorem look_skip (text : List Char) :
    (look text .code 0).token = (look text .code (text.takeWhile isSpace).length).token ∧
      (look text .code 0).findings =
        (look text .code (text.takeWhile isSpace).length).findings := by
  by_cases hne : text.takeWhile isSpace = []
  · rw [hne]
    exact ⟨rfl, rfl⟩
  · have hsource : text = [] ++ (text.takeWhile isSpace ++ text.dropWhile isSpace) :=
      List.takeWhile_append_dropWhile.symm
    rw [look_blanks [] _ _ hsource (Eq.refl 0) hne (fun _ => List.mem_takeWhile_imp)
      (head?_dropWhile_isSpace text), Nat.zero_add]
    exact ⟨rfl, rfl⟩

/-- The white space that goes on to the closing brace, if the text is nothing else. -/
private theorem ending_of_blank (hall : ∀ c ∈ text, isSpace c = true) :
    Ending text (look text .code 0) (look (enclosed text) .code 2) := by
  have hsource : enclosed text = ['#', '{'] ++ (('\n' :: (text ++ ['\n'])) ++ ['}']) := by
    simp [enclosed]
  obtain ⟨htoken, hbreak, hfindings⟩ := look_up_to_brace _ _ hsource (Eq.refl 2)
    (List.forall_mem_cons.2
      ⟨rfl, List.forall_mem_append.2 ⟨hall, List.forall_mem_singleton.2 rfl⟩⟩)
    List.mem_cons_self
  have hfindings' : (look text .code 0).findings = [] := findings_of_blanks [] hall
  refine .brace htoken hbreak ?_
  rw [hfindings, hfindings']
  exact .nil

/-- What is seen of the block behind its opening brace is what is seen behind the white space in
front of the text, with a line break more. -/
private theorem look_first (hnot : ¬∀ c ∈ text, isSpace c = true) :
    (look (enclosed text) .code 2).token =
        (look (enclosed text) .code ((text.takeWhile isSpace).length + 3)).token ∧
      (look (enclosed text) .code 2).findings =
        (look (enclosed text) .code ((text.takeWhile isSpace).length + 3)).findings ∧
      (look (enclosed text) .code 2).trivia.any (·.containsNewline) = true := by
  have hne : text.dropWhile isSpace ≠ [] := fun hnil => hnot (List.dropWhile_eq_nil_iff.1 hnil)
  have hsource : enclosed text = ['#', '{'] ++ ('\n' :: text.takeWhile isSpace ++
      (text.dropWhile isSpace ++ ['\n', '}'])) := by
    rw [List.cons_append (a := '\n'), ← List.append_assoc (text.takeWhile isSpace),
      List.takeWhile_append_dropWhile]
    rfl
  have hrest : (text.dropWhile isSpace ++ ['\n', '}']).head?.any isSpace = false := by
    rw [List.head?_append_of_ne_nil _ hne]
    exact head?_dropWhile_isSpace text
  have hlook := look_blanks _ _ _ hsource (Eq.refl 2) (List.cons_ne_nil _ _)
    (List.forall_mem_cons.2 ⟨rfl, fun _ => List.mem_takeWhile_imp⟩) hrest
  have hstop : 2 + ('\n' :: text.takeWhile isSpace).length =
      (text.takeWhile isSpace).length + 3 := by
    rw [List.length_cons]
    omega
  have hbreaks : 0 < Lexeme.lineBreaks ('\n' :: text.takeWhile isSpace) :=
    Lexeme.lineBreaks_pos_iff.2 ⟨'\n', List.mem_cons_self, by decide⟩
  rw [hlook, hstop]
  exact ⟨rfl, rfl, by simp [hbreaks]⟩

/-- In front of the first token of the block, a line ends, and then the same is seen. -/
theorem sight_first (text : List Char) :
    (Sides.enclosed text).Sight .code 0 2 (look text .code 0) (look (enclosed text) .code 2) := by
  by_cases hall : ∀ c ∈ text, isSpace c = true
  · exact (ending_of_blank hall).sight (Spent.of_blanks [] hall)
  · have hnot : ¬(Sides.enclosed text).place 0 2 := fun hplace => absurd hplace.2 (by decide)
    obtain ⟨htoken', hfindings', hbreak⟩ := look_first hall
    obtain ⟨htoken, hfindings⟩ := look_skip text
    exact (sight .code (List.takeWhile_sublist isSpace (l := text)).length_le).of_behind hnot
      htoken htoken' hfindings hfindings' hbreak

/-- If nothing but trivia stands in a text, the block ends behind its opening brace. -/
theorem ending_first (h : Spent text 0) :
    Ending text (look text .code 0) (look (enclosed text) .code 2) := by
  by_cases hall : ∀ c ∈ text, isSpace c = true
  · exact ending_of_blank hall
  · obtain ⟨htoken', hfindings', hbreak⟩ := look_first hall
    obtain ⟨htoken, hfindings⟩ := look_skip text
    have hspent : Spent text (text.takeWhile isSpace).length := by
      unfold Spent at h ⊢
      rwa [← htoken]
    cases ending_of_spent hspent (List.takeWhile_sublist isSpace (l := text)).length_le with
    | brace hbrace _ hfound =>
      exact .brace (htoken'.trans hbrace) hbreak (by rwa [hfindings, hfindings'])
    | lost hkind hne => exact .lost (by rwa [htoken']) (by rwa [hfindings])

/-- Corresponding offsets stand in the same column. -/
theorem column_eq (hle : a ≤ text.length) :
    column (enclosed text) (a + 3) = column text a := by
  have htake : (enclosed text).take (a + 3) = ['#', '{', '\n'] ++ text.take a := by
    simp [enclosed, List.take_append_of_le_length hle]
  have hlast (own : List Char) : lastLineLength (['#', '{', '\n'] ++ own) = lastLineLength own := by
    unfold lastLineLength
    rw [List.reverse_append, List.takeWhile_append]
    split
    · rename_i hall
      rw [List.length_append, hall]
      rfl
    · rfl
  rw [column_eq_lastLineLength hle, column_eq_lastLineLength (by simp [enclosed]; omega), htake,
    hlast]

end Enclosed

namespace Sides

/-- A text and the block that holds it are comparable. -/
theorem enclosed_lawful (text : List Char) : (enclosed text).Lawful where
  place_lt := by
    rintro a a' b b' ⟨-, rfl⟩ ⟨-, rfl⟩
    exact (Nat.add_lt_add_iff_right).symm
  clean_of_strict _ := trivial
  column := by
    rintro - - a a' ⟨hle, rfl⟩
    exact Enclosed.column_eq hle
  strict_of_first _ := trivial
  first_zero h := h.1
  old_first := by
    rintro a a' ⟨rfl, rfl⟩
    exact ⟨rfl, rfl⟩
  spent_step := by
    rintro a - ⟨hle, hspent⟩ mode hne
    exact ⟨(covers_look hle mode).stop_le, hspent.step hle hne⟩
  spent_closing := by
    rintro a - ⟨hle, hspent⟩ mode
    exact hspent.closing hle mode
  sight := by
    rintro a a' mode - (⟨hle, rfl⟩ | ⟨rfl, rfl⟩) hfirst - -
    · exact Enclosed.sight mode hle
    · obtain rfl := hfirst ⟨rfl, rfl⟩
      exact Enclosed.sight_first text
  breakRules := by
    rintro rule ⟨⟩
    rfl

end Sides

end TypstFormat
