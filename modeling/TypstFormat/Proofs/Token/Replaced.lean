import TypstFormat.Proofs.Token.Patch

/-!
# Lexemes of texts that differ in white space

Two texts that differ in white space start with lexemes of the same kind that end at corresponding
places (`Lexeme.Alike`). In code and math there is one exception: a line comment ends in front of a
line break, which may stand in the middle of the white space that is replaced (`Lexeme.Overlap`). The
white space behind the comment ends at corresponding places again.

In markup a paragraph ends where two lines do, and a single space between two words is part of the
text, so white space may only be tidied up (`Patch.IsTidy`). A run of text or a line comment that ends
next to white space may still end elsewhere on the other side (`Lexeme.Foreign`): "a  b" is two runs
of text, and "a b" is one.

## Key results

- `scan_alike`: the lexemes of code and of math
- `whitespace_alike`: white space behind a line comment
- `Patch.reach_text`: where a run of text ends
- `scan_alike_markup`: the lexemes of markup
-/

namespace TypstFormat

open Text Patch Lexeme

/-- Lexemes of the same kind that end at corresponding places. -/
structure Lexeme.Alike (patches : List Patch) (lexeme lexeme' : Lexeme) : Prop where
  kind_eq : lexeme'.kind = lexeme.kind
  containsNewline_eq : lexeme'.containsNewline = lexeme.containsNewline
  flaw_eq : lexeme'.flaw = lexeme.flaw
  reach : Reach patches (lexeme.tail + 1) (lexeme'.tail + 1)

/-- Line comments that end inside of white space, in front of the first line break in it. -/
def Lexeme.Overlap (patches : List Patch) (lexeme lexeme' : Lexeme) : Prop :=
  ∃ own behind front back front' back',
    patches = own ++ .space (front ++ back) (front' ++ back') :: behind ∧
    front'.any isLineBreak = false ∧
    back.head?.any isLineBreak = true ∧ back'.head?.any isLineBreak = true ∧
    lexeme = { kind := .lineComment, tail := lexeme.tail } ∧
    lexeme' = { kind := .lineComment, tail := lexeme'.tail } ∧
    lexeme.tail + 1 = (olds own ++ front).length ∧ lexeme'.tail + 1 = (news own ++ front').length

namespace Lexeme

variable {ends : Char → Bool} {patches : List Patch} {lexeme lexeme' : Lexeme}

/-- Rules that take the same piece without white space. -/
private theorem Alike.word (h : ∀ patch ∈ patches, patch.Fits ends) {c : Char}
    (heq : lexeme' = lexeme)
    (htail : lexeme.tail ≤ ((olds patches).takeWhile (!ends ·)).length) :
    Alike (.keep c :: patches) lexeme lexeme' := by
  subst heq
  exact ⟨rfl, rfl, rfl, (reach_word h htail).keep c⟩

/-! ## White space -/

/-- White space that is not followed by anything is the same run of it. -/
private theorem blanks {mode : Mode} (hends : ∀ c, ends c = true → mode.isBlank c = true)
    (h : ∀ patch ∈ patches, patch.Fits ends) {c c' : Char} {rest rest' : List Char}
    (hold : olds patches = c :: rest) (hnew : news patches = c' :: rest')
    (hc : mode.isBlank c = true) :
    mode.isBlank c' = true ∧ ∃ own behind, patches = own ++ behind ∧
      c :: rest.takeWhile mode.isBlank = olds own ∧
      c' :: rest'.takeWhile mode.isBlank = news own := by
  obtain ⟨own, behind, heq, htake, htake'⟩ :=
    reach_takeWhile h fun c d hc hd => (hends c hc).trans (hends d hd).symm
  rw [hold, List.takeWhile_cons_of_pos hc] at htake
  -- The first patch is part of the run, so that there is white space on the other side, too.
  cases own with
  | nil => cases htake
  | cons patch own =>
    have hpos := (h patch (by rw [heq]; exact List.mem_cons_self)).length_pos.2
    have hne : (news patches).takeWhile mode.isBlank ≠ [] := by
      rw [htake']
      refine List.ne_nil_of_length_pos ?_
      show 0 < (patch.new ++ news own).length
      rw [List.length_append]
      omega
    rw [hnew] at hne htake'
    have hc' : mode.isBlank c' = true := by
      by_contra hc'
      exact hne (List.takeWhile_cons_of_neg hc')
    rw [List.takeWhile_cons_of_pos hc'] at htake'
    exact ⟨hc', patch :: own, behind, heq, htake, htake'⟩

private theorem alike_whitespace {mode : Mode} {own behind : List Patch} {c c' : Char}
    {rest rest' : List Char} (hold : c :: rest.takeWhile mode.isBlank = olds own)
    (hnew : c' :: rest'.takeWhile mode.isBlank = news own)
    (hkind : (whitespace mode c' rest').kind = (whitespace mode c rest).kind)
    (hbreaks : (news own).any isLineBreak = (olds own).any isLineBreak) :
    Alike (own ++ behind) (whitespace mode c rest) (whitespace mode c' rest') := by
  refine ⟨hkind, ?_, rfl, own, behind, rfl, congrArg List.length hold, congrArg List.length hnew⟩
  unfold whitespace
  dsimp only
  rw [hold, hnew, decide_eq_decide, lineBreaks_pos_iff, lineBreaks_pos_iff,
    ← List.any_eq_true, ← List.any_eq_true, hbreaks]

/-- Where white space stands on one side, it stands on the other one as well. -/
theorem whitespace_alike {mode : Mode} (hmode : mode ≠ .markup)
    (h : ∀ patch ∈ patches, patch.Fits isSpace) {c c' : Char} {rest rest' : List Char}
    (hold : olds patches = c :: rest) (hnew : news patches = c' :: rest')
    (hc : mode.isBlank c = true) (before before' : Option Char) :
    Alike patches (scan mode before c rest) (scan mode before' c' rest') := by
  have hends : ∀ c, isSpace c = true → mode.isBlank c = true := by
    cases mode with
    | markup => exact absurd rfl hmode
    | code => exact fun _ hc => hc
    | math => exact fun _ hc => hc
  obtain ⟨hc', own, behind, rfl, htake, htake'⟩ := blanks hends h hold hnew hc
  have hscan {before : Option Char} {c : Char} {rest : List Char} (hc : mode.isBlank c = true) :
      scan mode before c rest = whitespace mode c rest := if_pos hc
  rw [hscan hc, hscan hc']
  refine alike_whitespace htake htake' ?_
    (any_isLineBreak fun patch hpatch => h patch (List.mem_append_left _ hpatch))
  unfold whitespace
  simp [hmode]

/-! ## What has to be closed -/

section Closed

variable (hends : ∀ c, ends c = true → isSpace c = true) (h : ∀ patch ∈ patches, patch.Fits ends)

include hends h

private theorem alike_blockComment :
    Alike (.keep '/' :: .keep '*' :: patches) (blockComment ('*' :: olds patches))
      (blockComment ('*' :: news patches)) := by
  have hspans := reach_comment hends h 0
  refine ⟨rfl, rfl, hspans.flaw_eq _, ?_⟩
  unfold blockComment
  dsimp only [List.drop_succ_cons, List.drop_zero]
  rw [Nat.add_comm 1, Nat.add_comm 1]
  exact (hspans.reach.keep '*').keep '/'

private theorem alike_string (c : Char) :
    Alike (.keep c :: patches) (string (olds patches)) (string (news patches)) := by
  have hspans := reach_string hends h
  exact ⟨rfl, rfl, hspans.flaw_eq _, hspans.reach.keep c⟩

private theorem alike_raw (c : Char) :
    Alike (.keep c :: patches) (raw (olds patches)) (raw (news patches)) := by
  have hfence : ∀ c, ends c = true → decide (c = '\x60') = false := by
    intro c hc
    refine decide_eq_false ?_
    rintro rfl
    exact absurd (hends _ hc) (by decide)
  have hsame := (sameUpTo h).takeWhile_eq hfence
  obtain ⟨own, behind, rfl, hold, hnew⟩ :=
    reach_takeWhile h fun c d hc hd => (hfence c hc).trans (hfence d hd).symm
  rw [hold, hnew] at hsame
  rw [olds_append] at hold
  rw [news_append] at hnew
  unfold raw
  simp only [olds_append, news_append, hold, hnew, List.drop_left]
  rw [hsame]
  split
  · rename_i hone
    have hreach := ((Reach.zero behind).append own).keep c
    rw [hsame, hone] at hreach
    exact ⟨rfl, rfl, rfl, hreach⟩
  · have hspans := reach_raw hends (fun patch hpatch => h patch (List.mem_append_right _ hpatch))
      (Nat.succ_ne_zero (olds own).length) 0
    have hreach := (hspans.reach.append own).keep c
    rw [hsame] at hreach
    exact ⟨rfl, rfl, hspans.flaw_eq _, hreach⟩

private theorem alike_backslash (mode : Mode)
    (hblank : ∀ c, ends c = true → mode.isBlank c = true) (c : Char) :
    Alike (.keep c :: patches) (backslash mode (olds patches)) (backslash mode (news patches)) := by
  have hfalse {d : Char} (hd : isSpace d = false) : ends d = false := by
    cases hc : ends d with
    | false => rfl
    | true => rw [hends d hc] at hd; cases hd
  have hbrace := (sameUpTo h).isPrefixOf_eq ['u', '{']
    (by simp [hfalse (d := 'u') (by decide), hfalse (d := '{') (by decide)])
  by_cases hprefix : ['u', '{'].isPrefixOf (olds patches) = true
  · -- A code point in braces, which may be anything.
    obtain ⟨text, htext⟩ := List.isPrefixOf_iff_prefix.1 hprefix
    obtain ⟨more, rfl⟩ :=
      eq_keep_of_head? h (hfalse (d := 'u') (by decide)) (by rw [← htext]; rfl)
    have hmore := (List.forall_mem_cons.1 h).2
    obtain ⟨more, rfl⟩ := eq_keep_of_head? hmore (hfalse (d := '{') (by decide))
      (by rw [olds_keep] at htext; rw [← (List.cons.inj htext).2]; rfl)
    have hmore := (List.forall_mem_cons.1 hmore).2
    have hdigit : ∀ d, ends d = true → decide (d ≠ '}') = true := by
      intro d hd
      refine decide_eq_true ?_
      rintro rfl
      rw [hfalse (d := '}') (by decide)] at hd
      cases hd
    obtain ⟨own, behind, rfl, hold, hnew⟩ :=
      reach_takeWhile hmore fun c d hc hd => (hdigit c hc).trans (hdigit d hd).symm
    have hreach : Reach behind ((olds behind).take 1).length ((news behind).take 1).length := by
      cases behind with
      | nil => exact .zero _
      | cons patch behind =>
        have hnot := List.head?_dropWhile_not (fun d => decide (d ≠ '}')) (olds (own ++ patch :: behind))
        have hdrop : (olds (own ++ patch :: behind)).dropWhile (fun d => decide (d ≠ '}')) =
            olds (patch :: behind) := by
          have happend := List.takeWhile_append_dropWhile (p := fun d => decide (d ≠ '}'))
            (l := olds (own ++ patch :: behind))
          rw [hold] at happend
          exact List.append_cancel_left (happend.trans (olds_append own (patch :: behind)))
        rw [hdrop] at hnot
        have hpatch := hmore patch (by simp)
        cases patch with
        | keep d => exact (Reach.zero behind).keep d
        | space old new =>
          obtain ⟨d, old, rfl⟩ := List.exists_cons_of_ne_nil hpatch.old_ne_nil
          simp [hdigit d (hpatch.old_ends d List.mem_cons_self)] at hnot
    have hreach := (((hreach.append own).keep '{').keep 'u').keep c
    have heq (text : List Char) : backslash mode ('u' :: '{' :: text) =
        { kind := .escape
          tail := 2 + (text.takeWhile (· ≠ '}')).length +
            ((text.drop (text.takeWhile (· ≠ '}')).length).take 1).length
          hasEscape := true } := rfl
    refine ⟨rfl, rfl, rfl, ?_⟩
    simp only [olds_keep, news_keep, heq, hold, hnew]
    simp only [olds_append, news_append, List.drop_left]
    have hcount (n m : Nat) : 2 + n + m + 1 = n + m + 1 + 1 + 1 := by omega
    rw [hcount, hcount]
    exact hreach
  · refine .word h ((backslash_congr (sameUpTo h) hblank hprefix (by rwa [hbrace]))) ?_
    unfold backslash
    split
    · exact Nat.zero_le _
    · rename_i heq
      rw [heq] at hprefix
      simp at hprefix
    · rename_i d text _ heq
      split
      · exact Nat.zero_le _
      · rename_i hd
        have hd : ends d = false := by
          cases hc : ends d with
          | false => rfl
          | true => exact absurd (hblank d hc) hd
        rw [heq, List.takeWhile_cons_of_pos (by rw [hd]; rfl)]
        exact Nat.succ_le_succ (Nat.zero_le _)

end Closed

/-! ## Line comments -/

/-- A line ends between two patches, or inside of white space on both sides. -/
private def LineCut (patches : List Patch) : Prop :=
  (∃ own behind, patches = own ++ behind ∧
    (olds patches).takeWhile (!isLineBreak ·) = olds own ∧
    (news patches).takeWhile (!isLineBreak ·) = news own) ∨
  ∃ own behind front back front' back',
    patches = own ++ .space (front ++ back) (front' ++ back') :: behind ∧
    front'.any isLineBreak = false ∧
    back.head?.any isLineBreak = true ∧ back'.head?.any isLineBreak = true ∧
    (olds patches).takeWhile (!isLineBreak ·) = olds own ++ front ∧
    (news patches).takeWhile (!isLineBreak ·) = news own ++ front'

/-- What stands in front of the first line break is the line. -/
private theorem takeWhile_line {text : List Char} (hany : text.any isLineBreak = true)
    (rest : List Char) :
    (text.dropWhile (!isLineBreak ·)).head?.any isLineBreak = true ∧
      (text ++ rest).takeWhile (!isLineBreak ·) = text.takeWhile (!isLineBreak ·) := by
  obtain ⟨c, hc, hbreak⟩ := List.any_eq_true.1 hany
  have hne : text.dropWhile (!isLineBreak ·) ≠ [] := by
    intro hnil
    have := List.dropWhile_eq_nil_iff.1 hnil c hc
    rw [hbreak] at this
    cases this
  obtain ⟨d, back, hback⟩ := List.exists_cons_of_ne_nil hne
  have hd := List.head?_dropWhile_not (!isLineBreak ·) text
  rw [hback] at hd
  have hd : isLineBreak d = true := by simpa using hd
  have hsplit : text = text.takeWhile (!isLineBreak ·) ++ d :: back := by
    rw [← hback, List.takeWhile_append_dropWhile]
  refine ⟨by rw [hback]; exact hd, ?_⟩
  calc (text ++ rest).takeWhile (!isLineBreak ·)
      = (text.takeWhile (!isLineBreak ·) ++ (d :: (back ++ rest))).takeWhile (!isLineBreak ·) := by
        rw [← List.cons_append, ← List.append_assoc, ← hsplit]
    _ = text.takeWhile (!isLineBreak ·) := by
        rw [List.takeWhile_append_of_pos fun e he =>
            List.mem_takeWhile_imp (p := (!isLineBreak ·)) he,
          List.takeWhile_cons_of_neg (by rw [hd]; decide), List.append_nil]

private theorem lineCut (h : ∀ patch ∈ patches, patch.Fits ends) : LineCut patches := by
  induction patches with
  | nil => exact .inl ⟨[], [], rfl, rfl, rfl⟩
  | cons patch patches ih =>
    obtain ⟨hpatch, hfits⟩ := List.forall_mem_cons.1 h
    -- A patch that holds no line break is part of the line.
    have hinside (hold : ∀ c ∈ patch.old, (!isLineBreak c) = true)
        (hnew : ∀ c ∈ patch.new, (!isLineBreak c) = true) : LineCut (patch :: patches) := by
      have htake : (patch.old ++ olds patches).takeWhile (!isLineBreak ·) =
          patch.old ++ (olds patches).takeWhile (!isLineBreak ·) :=
        List.takeWhile_append_of_pos hold
      have htake' : (patch.new ++ news patches).takeWhile (!isLineBreak ·) =
          patch.new ++ (news patches).takeWhile (!isLineBreak ·) :=
        List.takeWhile_append_of_pos hnew
      rcases ih hfits with ⟨own, behind, heq, h, h'⟩ |
        ⟨own, behind, front, back, front', back', heq, hfront, hback, hback', h, h'⟩
      · exact Or.inl ⟨patch :: own, behind, by rw [heq]; rfl, htake.trans (by rw [h]; rfl),
          htake'.trans (by rw [h']; rfl)⟩
      · refine Or.inr ⟨patch :: own, behind, front, back, front', back', by rw [heq]; rfl, hfront,
          hback, hback', htake.trans ?_, htake'.trans ?_⟩
        · rw [h]
          exact (List.append_assoc ..).symm
        · rw [h']
          exact (List.append_assoc ..).symm
    cases patch with
    | keep c =>
      cases hc : isLineBreak c with
      | false => exact hinside (by simp [old, hc]) (by simp [new, hc])
      | true =>
        exact .inl ⟨[], _, rfl, List.takeWhile_cons_of_neg (by rw [hc]; decide),
          List.takeWhile_cons_of_neg (by rw [hc]; decide)⟩
    | space old new =>
      have hbreaks := hpatch.breaks_eq
      cases hold : old.any isLineBreak with
      | false =>
        rw [hold] at hbreaks
        have hnone {text : List Char} (hany : text.any isLineBreak = false) :
            ∀ c ∈ text, (!isLineBreak c) = true := by
          intro c hc
          rw [Bool.not_eq_true']
          exact Bool.eq_false_iff.2 (List.any_eq_false.1 hany c hc)
        exact hinside (hnone hold) (hnone hbreaks)
      | true =>
        rw [hold] at hbreaks
        refine .inr ⟨[], patches, old.takeWhile (!isLineBreak ·), old.dropWhile (!isLineBreak ·),
          new.takeWhile (!isLineBreak ·), new.dropWhile (!isLineBreak ·), ?_,
          ?_, (takeWhile_line hold []).1, (takeWhile_line hbreaks []).1, (takeWhile_line hold _).2,
          (takeWhile_line hbreaks _).2⟩
        · rw [List.takeWhile_append_dropWhile, List.takeWhile_append_dropWhile]
          rfl
        · rw [List.any_eq_false]
          intro c hc
          have := List.mem_takeWhile_imp (p := (!isLineBreak ·)) hc
          simpa using this

private theorem lineComment_tail (rest : List Char) : (lineComment ('/' :: rest)).tail + 1 =
    (rest.takeWhile (!isLineBreak ·)).length + 1 + 1 :=
  congrArg (· + 1) (Nat.add_comm 1 _)

private theorem alike_lineComment (h : ∀ patch ∈ patches, patch.Fits ends) :
    Alike (.keep '/' :: .keep '/' :: patches) (lineComment ('/' :: olds patches))
      (lineComment ('/' :: news patches)) ∨
    Overlap (.keep '/' :: .keep '/' :: patches) (lineComment ('/' :: olds patches))
      (lineComment ('/' :: news patches)) := by
  rcases lineCut h with ⟨own, behind, heq, hold, hnew⟩ |
    ⟨own, behind, front, back, front', back', heq, hfront, hback, hback', hold, hnew⟩
  · refine .inl ⟨rfl, rfl, rfl, ?_⟩
    rw [lineComment_tail, lineComment_tail, hold, hnew]
    exact (Reach.keep ⟨own, behind, heq, rfl, rfl⟩ '/').keep '/'
  · refine .inr ⟨.keep '/' :: .keep '/' :: own, behind, front, back, front', back',
      by rw [heq]; rfl, hfront, hback, hback', rfl, rfl, ?_, ?_⟩
    · rw [lineComment_tail, hold]
      rfl
    · rw [lineComment_tail, hnew]
      rfl

/-! ## All lexemes -/

private theorem scan_line (mode : Mode) (before : Option Char) (rest : List Char) :
    scan mode before '/' ('/' :: rest) = lineComment ('/' :: rest) := by
  unfold scan
  rw [if_neg (by rw [Mode.isBlank_slash]; decide), if_pos ⟨rfl, rfl⟩]

private theorem scan_block (mode : Mode) (before : Option Char) (rest : List Char) :
    scan mode before '/' ('*' :: rest) = blockComment ('*' :: rest) := by
  unfold scan
  rw [if_neg (by rw [Mode.isBlank_slash]; decide), if_neg (fun h => absurd h.2 (by simp)),
    if_pos ⟨rfl, rfl⟩]

/-- A comment starts on both sides or on none. -/
private theorem start_cases {ends : Char → Bool} (hends : ∀ c, ends c = true → isSpace c = true)
    (h : ∀ patch ∈ patches, patch.Fits ends) (c : Char) :
    (c = '/' ∧ ∃ more, patches = .keep '/' :: more) ∨
    (c = '/' ∧ ∃ more, patches = .keep '*' :: more) ∨
    ((¬(c = '/' ∧ (olds patches).head? = some '/') ∧
      ¬(c = '/' ∧ (olds patches).head? = some '*')) ∧
      (¬(c = '/' ∧ (news patches).head? = some '/') ∧
        ¬(c = '/' ∧ (news patches).head? = some '*'))) := by
  have hfalse {d : Char} (hd : isSpace d = false) : ends d = false := by
    cases hc : ends d with
    | false => rfl
    | true => rw [hends d hc] at hd; cases hd
  have hslash := (sameUpTo h).head?_eq_iff (hfalse (d := '/') (by decide))
  have hstar := (sameUpTo h).head?_eq_iff (hfalse (d := '*') (by decide))
  rw [hslash, hstar]
  by_cases hline : c = '/' ∧ (olds patches).head? = some '/'
  · exact .inl ⟨hline.1, eq_keep_of_head? h (hfalse (by decide)) hline.2⟩
  · by_cases hblock : c = '/' ∧ (olds patches).head? = some '*'
    · exact .inr (.inl ⟨hblock.1, eq_keep_of_head? h (hfalse (by decide)) hblock.2⟩)
    · exact .inr (.inr ⟨⟨hline, hblock⟩, hline, hblock⟩)

private theorem alike_code (h : ∀ patch ∈ patches, patch.Fits isSpace) {c : Char}
    (hc : isSpace c = false) :
    Alike (.keep c :: patches) (code c (olds patches)) (code c (news patches)) := by
  by_cases hstring : c = '\x22'
  · subst hstring
    exact alike_string (fun _ => id) h _
  · by_cases hraw : c = '\x60'
    · subst hraw
      exact alike_raw (fun _ => id) h _
    · refine .word h (code_congr (sameUpTo h) hc hstring hraw) ?_
      rw [← code_congr (SameUpTo.takeWhile_self isSpace _) hc hstring hraw]
      exact code_tail_le c _

private theorem alike_math (h : ∀ patch ∈ patches, patch.Fits isSpace) (c : Char) :
    Alike (.keep c :: patches) (math c (olds patches)) (math c (news patches)) := by
  by_cases hbackslash : c = '\\'
  · subst hbackslash
    exact alike_backslash (fun _ => id) h .math (fun _ => id) _
  · by_cases hstring : c = '\x22'
    · subst hstring
      exact alike_string (fun _ => id) h _
    · refine .word h (math_congr (sameUpTo h) hstring hbackslash) ?_
      rw [← math_congr (SameUpTo.takeWhile_self isSpace _) hstring hbackslash]
      exact math_tail_le c _

/-- Two texts that differ in white space start with the same lexeme of code or math. -/
theorem scan_alike {mode : Mode} (hmode : mode ≠ .markup)
    (h : ∀ patch ∈ patches, patch.Fits isSpace) {c c' : Char} {rest rest' : List Char}
    (hold : olds patches = c :: rest) (hnew : news patches = c' :: rest')
    (before before' : Option Char) :
    Alike patches (scan mode before c rest) (scan mode before' c' rest') ∨
      Overlap patches (scan mode before c rest) (scan mode before' c' rest') := by
  have hblank : mode.isBlank = isSpace := by
    cases mode with
    | markup => exact absurd rfl hmode
    | code => rfl
    | math => rfl
  by_cases hc : isSpace c = true
  · exact .inl (whitespace_alike hmode h hold hnew (by rwa [hblank]) before before')
  · have hc : isSpace c = false := Bool.eq_false_iff.2 hc
    obtain ⟨more, rfl⟩ := eq_keep_of_head? h hc (by rw [hold]; rfl)
    obtain ⟨-, rfl⟩ := List.cons.inj (olds_keep c more ▸ hold)
    obtain ⟨rfl, rfl⟩ := List.cons.inj (news_keep c more ▸ hnew)
    have hmore := (List.forall_mem_cons.1 h).2
    rcases start_cases (fun _ => id) hmore c with
      ⟨rfl, more, rfl⟩ | ⟨rfl, more, rfl⟩ | ⟨⟨hline, hblock⟩, hline', hblock'⟩
    · rw [olds_keep, news_keep, scan_line, scan_line]
      exact alike_lineComment (List.forall_mem_cons.1 hmore).2
    · rw [olds_keep, news_keep, scan_block, scan_block]
      exact .inl (alike_blockComment (fun _ => id) (List.forall_mem_cons.1 hmore).2)
    · have hc' : mode.isBlank c = false := by rw [hblank, hc]
      unfold scan
      simp only [hc', hline, hblock, hline', hblock', if_false, Bool.false_eq_true]
      cases mode with
      | markup => exact absurd rfl hmode
      | code => exact .inl (alike_code hmore hc)
      | math => exact .inl (alike_math hmore c)

end Lexeme

/-! ## Markup -/

/-- White space of markup, and what takes its place when it is tidied up: one space, or line breaks
in front of anything else, as many of them as count. None of them goes on behind the white space. -/
structure Tidied (old new : List Char) : Prop extends Spacing Mode.markup.isBlank old new where
  old_last : old.getLast? ≠ some '\r'
  new_last : new.getLast? ≠ some '\r'
  lineBreaks_eq : min (lineBreaks new) 2 = min (lineBreaks old) 2
  new_eq : old.any isLineBreak = false → new = [' ']
  new_head? : old.any isLineBreak = true → new.head?.any isLineBreak = true

namespace Patch

/-- White space of markup that is tidied up, or any character that stays but a carriage return. -/
def IsTidy : Patch → Prop
  | keep c => c ≠ '\r'
  | space old new => Tidied old new

theorem IsTidy.fits {patch : Patch} (h : patch.IsTidy) : patch.Fits Mode.markup.isBlank := by
  cases patch with
  | keep c => trivial
  | space old new => exact h.toSpacing

theorem IsTidy.fits_isSpace {patch : Patch} (h : patch.IsTidy) : patch.Fits isSpace :=
  h.fits.mono fun _ => Mode.isSpace_of_isBlank

/-- A place next to white space where a token need not end on both sides. -/
inductive Cut (patches : List Patch) (kind : Kind) (n : Nat) : Prop where
  /-- A word ends, but on the other side there is a single space and text goes on. -/
  | word {own behind : List Patch} {old new : List Char} :
    patches = own ++ space old new :: behind → n = (olds own).length → kind = .text →
    old ≠ [' '] → old.any isLineBreak = false → (olds behind).head?.any isAlphanumeric = true →
    Cut patches kind n
  /-- The token ends inside of the white space. -/
  | inside {own behind : List Patch} {front back new : List Char} :
    patches = own ++ space (front ++ back) new :: behind → n = (olds own ++ front).length →
    front ≠ [] → back ≠ [] → Cut patches kind n

variable {patches : List Patch} {kind : Kind} {n : Nat}

theorem Cut.append (h : Cut patches kind n) (own : List Patch) :
    Cut (own ++ patches) kind ((olds own).length + n) := by
  cases h with
  | @word inner behind old new heq hn hkind hold hplain hword =>
    have hpatches : own ++ patches = (own ++ inner) ++ space old new :: behind := by
      rw [heq, List.append_assoc]
    refine .word hpatches ?_ hkind hold hplain hword
    rw [hn, olds_append, List.length_append]
  | @inside inner behind front back new heq hn hfront hback =>
    have hpatches : own ++ patches = (own ++ inner) ++ space (front ++ back) new :: behind := by
      rw [heq, List.append_assoc]
    refine .inside hpatches ?_ hfront hback
    rw [hn, olds_append, List.append_assoc, ← List.length_append]

theorem Cut.keep (h : Cut patches kind n) (c : Char) : Cut (.keep c :: patches) kind (n + 1) := by
  rw [Nat.add_comm]
  exact h.append [.keep c]

/-- As many lines end on both sides as count. -/
theorem lineBreaks_eq (h : ∀ patch ∈ patches, patch.IsTidy) :
    min (lineBreaks (news patches)) 2 = min (lineBreaks (olds patches)) 2 := by
  induction patches with
  | nil => rfl
  | cons patch patches ih =>
    obtain ⟨hpatch, hrest⟩ := List.forall_mem_cons.1 h
    have ih := ih hrest
    cases patch with
    | keep c =>
      have hlast : [c].getLast? ≠ some '\r' := fun hc => hpatch (Option.some.inj hc)
      have heq (text : List Char) : lineBreaks (c :: text) = lineBreaks [c] + lineBreaks text :=
        lineBreaks_append hlast text
      rw [olds_keep, news_keep, heq (olds patches), heq (news patches)]
      omega
    | space old new =>
      rw [olds_space, news_space, lineBreaks_append hpatch.old_last,
        lineBreaks_append hpatch.new_last]
      have hown := hpatch.lineBreaks_eq
      omega

/-- Only a single space in front of a word goes on with a run of text. -/
private theorem textSpan_spaces {spaces : List Char} (hne : spaces ≠ [])
    (hblank : ∀ c ∈ spaces, Mode.markup.isBlank c = true) (rest : List Char) :
    textSpan (spaces ++ rest) =
      if spaces = [' '] ∧ rest.head?.any isAlphanumeric = true then textSpan rest + 1 else 0 := by
  obtain ⟨c, spaces, rfl⟩ := List.exists_cons_of_ne_nil hne
  obtain ⟨hc, hspaces⟩ := List.forall_mem_cons.1 hblank
  rw [List.cons_append, textSpan]
  by_cases hspace : c = ' '
  · subst hspace
    have hcontinues (rest : List Char) : continuesText ' ' rest = rest.head?.any isAlphanumeric := rfl
    rw [hcontinues]
    cases spaces with
    | nil => simp
    | cons d spaces =>
      have hd := isAlphanumeric_of_isSpace (Mode.isSpace_of_isBlank (hspaces d List.mem_cons_self))
      simp [hd]
  · have hcontinues : continuesText c (spaces ++ rest) = false := by
      unfold continuesText
      rw [if_pos (by rw [isMarkupSpecial, hc, Bool.true_or])]
      split <;> first | rfl | exact absurd rfl hspace | exact absurd hc (by decide)
    rw [hcontinues, if_neg Bool.false_ne_true, if_neg fun hone => hspace (List.cons.inj hone.1).1]

/-- A run of text ends at corresponding places, or in front of white space that becomes a single
space. -/
theorem reach_text (h : ∀ patch ∈ patches, patch.IsTidy) :
    Reach patches (textSpan (olds patches)) (textSpan (news patches)) ∨
      Cut patches .text (textSpan (olds patches)) := by
  induction patches with
  | nil => exact .inl (.zero [])
  | cons patch patches ih =>
    obtain ⟨hpatch, hrest⟩ := List.forall_mem_cons.1 h
    have hsame := sameUpTo fun patch hpatch => (hrest patch hpatch).fits
    have hword : (news patches).head?.any isAlphanumeric = (olds patches).head?.any isAlphanumeric :=
      hsame.any_eq fun c hc => isAlphanumeric_of_isSpace (Mode.isSpace_of_isBlank hc)
    cases patch with
    | keep c =>
      rw [olds_keep, news_keep, textSpan, textSpan, continuesText_congr hsame fun _ => id]
      split
      · exact (ih hrest).imp (Reach.keep · c) (Cut.keep · c)
      · exact .inl (.zero _)
    | space old new =>
      rw [olds_space, news_space, textSpan_spaces hpatch.old_ne_nil hpatch.old_ends,
        textSpan_spaces hpatch.new_ne_nil hpatch.new_ends, hword]
      by_cases hnext : (olds patches).head?.any isAlphanumeric = true
      · by_cases hone : old = [' ']
        · have hnew := hpatch.new_eq (by rw [hone]; decide)
          rw [if_pos ⟨hone, hnext⟩, if_pos ⟨hnew, hnext⟩]
          have hlength : old.length = 1 ∧ new.length = 1 := by rw [hone, hnew]; exact ⟨rfl, rfl⟩
          refine (ih hrest).imp (fun hreach => ?_) fun hcut => ?_
          · have hspace := hreach.space old new
            rwa [hlength.1, hlength.2] at hspace
          · have hspace := hcut.append [.space old new]
            rwa [olds_space, olds_nil, List.append_nil, hlength.1, Nat.add_comm] at hspace
        · rw [if_neg fun hnot => hone hnot.1]
          by_cases hnew : new = [' ']
          · have hplain : old.any isLineBreak = false := by
              rw [← hpatch.breaks_eq, hnew]
              decide
            have hpatches : space old new :: patches = [] ++ space old new :: patches := rfl
            exact .inr (.word hpatches rfl rfl hone hplain hnext)
          · rw [if_neg fun hnot => hnew hnot.1]
            exact .inl (.zero _)
      · rw [if_neg fun hnot => hnext hnot.2, if_neg fun hnot => hnext hnot.2]
        exact .inl (.zero _)

end Patch

/-- A run of text or a line comment that need not end at corresponding places. -/
structure Lexeme.Foreign (patches : List Patch) (lexeme lexeme' : Lexeme) : Prop where
  kind_mem : lexeme.kind ∈ [Kind.text, .lineComment]
  kind_eq : lexeme'.kind = lexeme.kind
  containsNewline_eq : lexeme'.containsNewline = lexeme.containsNewline
  cut : ∀ kind, kind = lexeme.kind ∨ kind = .text → Cut patches kind (lexeme.tail + 1)

namespace Lexeme

variable {patches : List Patch} {lexeme lexeme' : Lexeme}

/-- Where line breaks come first, a line comment in front of the white space ends in front of it on
both sides. -/
private theorem Overlap.tidy (h : ∀ patch ∈ patches, patch.IsTidy)
    (hoverlap : Overlap patches lexeme lexeme') :
    Alike patches lexeme lexeme' ∨ Foreign patches lexeme lexeme' := by
  obtain ⟨own, behind, front, back, front', back', hpatches, hfront, hback, hback', heq, heq',
    hstop, hstop'⟩ := hoverlap
  have hspace : Tidied (front ++ back) (front' ++ back') :=
    h (.space _ _) (by rw [hpatches]; exact List.mem_append_right _ List.mem_cons_self)
  have hne : back ≠ [] := by
    rintro rfl
    cases hback
  by_cases hnil : front = []
  · have hbreak : (front ++ back).any isLineBreak = true := by
      obtain ⟨c, hc, hbreak⟩ := (Option.any_eq_true _ _).1 hback
      exact List.any_eq_true.2 ⟨c, List.mem_append_right _ (List.mem_of_mem_head? hc), hbreak⟩
    have hfirst := hspace.new_head? hbreak
    have hnil' : front' = [] := by
      cases front' with
      | nil => rfl
      | cons c front' =>
        have hc : isLineBreak c = true := hfirst
        rw [List.any_cons, hc, Bool.true_or] at hfront
        cases hfront
    subst hnil hnil'
    rw [List.append_nil] at hstop hstop'
    exact .inl ⟨by rw [heq, heq'], by rw [heq, heq'], by rw [heq, heq'],
      own, _, hpatches, hstop, hstop'⟩
  · refine .inr ⟨by rw [heq]; exact .tail _ (.head _), by rw [heq, heq'], by rw [heq, heq'], fun _ _ => ?_⟩
    exact .inside hpatches hstop hnil hne

private theorem text_alike (h : ∀ patch ∈ patches, patch.IsTidy) {q : Char → Bool}
    (hq : ∀ c, Mode.markup.isBlank c = true → q c = false) (c : Char) :
    Alike (.keep c :: patches) (text ((olds patches).takeWhile q).length (olds patches))
      (text ((olds patches).takeWhile q).length (news patches)) ∨
    Foreign (.keep c :: patches) (text ((olds patches).takeWhile q).length (olds patches))
      (text ((olds patches).takeWhile q).length (news patches)) := by
  have hfits := fun patch hpatch => (h patch hpatch).fits
  have hsame := (sameUpTo hfits).takeWhile_eq hq
  obtain ⟨own, behind, rfl, hold, hnew⟩ :=
    reach_takeWhile hfits fun c d hc hd => (hq c hc).trans (hq d hd).symm
  have hlength : (olds own).length = (news own).length := by rw [← hold, ← hnew, hsame]
  have hleft : (text (olds own).length (olds (own ++ behind))).tail + 1 =
      (olds own).length + textSpan (olds behind) + 1 := by
    unfold text
    rw [olds_append, List.drop_left]
  have hright : (text (olds own).length (news (own ++ behind))).tail + 1 =
      (news own).length + textSpan (news behind) + 1 := by
    unfold text
    rw [hlength, news_append, List.drop_left]
  rw [hold]
  refine (reach_text (List.forall_mem_append.1 h).2).imp (fun hreach => ⟨rfl, rfl, rfl, ?_⟩)
    fun hcut => ⟨.head _, rfl, rfl, fun kind hkind => ?_⟩
  · rw [hleft, hright]
    exact (hreach.append own).keep c
  · rw [hkind.elim id id, hleft]
    exact (hcut.append own).keep c

private theorem markup_alike (h : ∀ patch ∈ patches, patch.IsTidy) {before before' : Option Char}
    (hbefore : before'.any isAlphanumeric = before.any isAlphanumeric) (c : Char) :
    Alike (.keep c :: patches) (markup before c (olds patches)) (markup before' c (news patches)) ∨
    Foreign (.keep c :: patches) (markup before c (olds patches))
      (markup before' c (news patches)) := by
  have hfits := fun patch hpatch => (h patch hpatch).fits
  have hspace : ∀ c, Mode.markup.isBlank c = true → isSpace c = true := fun _ =>
    Mode.isSpace_of_isBlank
  by_cases hbackslash : c = '\\'
  · subst hbackslash
    exact .inl (alike_backslash hspace hfits .markup (fun _ => id) _)
  · by_cases hraw : c = '\x60'
    · subst hraw
      exact .inl (alike_raw hspace hfits _)
    · cases markup_cases (sameUpTo hfits) (fun _ => id) hbefore hbackslash hraw with
      | same hkind heq =>
        refine .inl (.word hfits heq ?_)
        -- The lexeme is the same if there is nothing behind the next blank.
        have hself : SameOrText Mode.markup.isBlank (olds patches) _ (markup before c (olds patches))
            (markup before c ((olds patches).takeWhile (!Mode.markup.isBlank ·))) :=
          markup_cases (.takeWhile_self _ _) (fun _ => id) rfl hbackslash hraw
        cases hself with
        | same _ heq =>
          rw [← heq]
          exact markup_tail_le before c _
        | text _ heq =>
          rw [heq] at hkind
          exact absurd rfl hkind
      | text hq heq heq' =>
        rw [heq, heq']
        exact text_alike h hq c

/-- Two texts whose white space is tidied up start with the same lexeme of markup. -/
theorem scan_alike_markup (h : ∀ patch ∈ patches, patch.IsTidy) {c c' : Char}
    {rest rest' : List Char} (hold : olds patches = c :: rest) (hnew : news patches = c' :: rest')
    {before before' : Option Char}
    (hbefore : before'.any isAlphanumeric = before.any isAlphanumeric) :
    Alike patches (scan .markup before c rest) (scan .markup before' c' rest') ∨
      Foreign patches (scan .markup before c rest) (scan .markup before' c' rest') := by
  have hfits := fun patch hpatch => (h patch hpatch).fits
  have hspace : ∀ c, Mode.markup.isBlank c = true → isSpace c = true := fun _ =>
    Mode.isSpace_of_isBlank
  by_cases hc : Mode.markup.isBlank c = true
  · obtain ⟨hc', own, behind, rfl, htake, htake'⟩ := blanks (fun _ => id) hfits hold hnew hc
    have hown := (List.forall_mem_append.1 h).1
    have hscan {before : Option Char} {c : Char} {rest : List Char}
        (hc : Mode.markup.isBlank c = true) :
        scan .markup before c rest = whitespace .markup c rest := if_pos hc
    rw [hscan hc, hscan hc']
    refine .inl (alike_whitespace htake htake' ?_
      (any_isLineBreak fun patch hpatch => (hown patch hpatch).fits))
    have hbreaks := lineBreaks_eq hown
    unfold whitespace
    dsimp only
    rw [htake, htake']
    refine if_congr (and_congr_right fun _ => ?_) rfl rfl
    omega
  · obtain ⟨more, rfl⟩ := eq_keep_of_head? hfits (Bool.eq_false_iff.2 hc) (by rw [hold]; rfl)
    obtain ⟨-, rfl⟩ := List.cons.inj (olds_keep c more ▸ hold)
    obtain ⟨rfl, rfl⟩ := List.cons.inj (news_keep c more ▸ hnew)
    have hmore := (List.forall_mem_cons.1 hfits).2
    rcases start_cases hspace hmore c with
      ⟨rfl, more, rfl⟩ | ⟨rfl, more, rfl⟩ | ⟨⟨hline, hblock⟩, hline', hblock'⟩
    · rw [olds_keep, news_keep, scan_line, scan_line]
      exact (alike_lineComment (List.forall_mem_cons.1 hmore).2).elim .inl (Overlap.tidy h)
    · rw [olds_keep, news_keep, scan_block, scan_block]
      exact .inl (alike_blockComment hspace (List.forall_mem_cons.1 hmore).2)
    · have hc' : Mode.markup.isBlank c = false := Bool.eq_false_iff.2 hc
      unfold scan
      simp only [hc', hline, hblock, hline', hblock', if_false, Bool.false_eq_true]
      exact markup_alike (List.forall_mem_cons.1 h).2 hbefore c

end Lexeme

end TypstFormat
