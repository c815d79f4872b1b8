import TypstFormat.Grammar.Keyword
import TypstFormat.Proofs.Grammar.Item

/-!
# What keywords read

Bindings, rules, control flow, imports and jumps. Each of them is a node that begins with its
keyword, so that all that is read behind the keyword may use the recursive rules.

## Key results

- `keyword_returns`: a node is started and its keyword consumed
- one theorem for each keyword, from `letBinding_returns` to `loneKeyword_returns`
-/

namespace TypstFormat

open Draft Parse TypstFormat.Parser

namespace Grammar

variable {rules : Rules} {n : Nat} {p p' : Parser}

/-- A node is started and its keyword consumed. -/
theorem keyword_returns {f : Opening → Parse β} {Q : β → Parser → Prop} (hp : p.Ok)
    (hcurrent : p.Consumes) (hleft : p.left ≤ n)
    (h : ∀ node p₁, Inside p none [.token p.look false] node p₁ → p₁.left < n →
      Returns (f node) p₁ Q) :
    Returns (start >>= fun node => bump >>= fun _ => f node) p Q := by
  refine start_returns hp fun node hnode => ?_
  refine .bind (bump_returns hnode.ok hcurrent.started) fun _ p₁ h₁ => ?_
  have hinside := hnode.read h₁
  exact h node p₁ hinside (Nat.lt_of_lt_of_le (hinside.left_lt hp (begins_token p false)) hleft)

/-- A block is read, or complained about. -/
theorem block_returns (hr : rules.Adequate n) (hp : p.Ok) (hleft : p.left ≤ n) :
    Returns (block rules) p fun _ p' => ∃ ds, Reads p ds p' := by
  refine .ask ?_
  split
  · rename_i hat
    refine .bind (contentBlock_returns hr hp hat hleft) ?_
    rintro _ p₁ ⟨_, h₁, _⟩
    exact .pure ⟨_, h₁⟩
  · refine .ask ?_
    split
    · rename_i hat
      refine .bind (codeBlock_returns hr hp hat hleft) ?_
      rintro _ p₁ ⟨_, h₁, _⟩
      exact .pure ⟨_, h₁⟩
    · refine .bind (expect_returns hp rfl _) ?_
      rintro _ p₁ ⟨_, h₁, _⟩
      exact .pure ⟨_, h₁⟩

theorem initializer_returns (hr : rules.Adequate n) (hp : p.Ok) (hleft : p.left ≤ n)
    (isRequired : Bool) :
    Returns (initializer rules isRequired) p fun _ p' => ∃ ds, Reads p ds p' ∧
      (isRequired = true → p.current = .breakEnd → p'.findings ≠ []) := by
  -- The two ways to look for the equals sign differ in the diagnostic only.
  have hrest : ∀ found p₁ ds, Reads p ds p₁ → (found = true → p.Begins ds) →
      (isRequired = true → p.current = .breakEnd → p₁.findings ≠ []) →
      Returns (if found = true then rules.expression false 0 else pure ()) p₁
        fun _ p' => ∃ ds, Reads p ds p' ∧
          (isRequired = true → p.current = .breakEnd → p'.findings ≠ []) := by
    intro found p₁ ds h₁ hbegins hends
    split
    · rename_i hfound
      have hleft₁ := Nat.lt_of_lt_of_le (h₁.left_lt hp (hbegins hfound)) hleft
      refine (hr.expression h₁.ok hleft₁ _ _).mono ?_
      rintro _ p₂ ⟨_, h₂, _⟩
      exact ⟨_, h₁.trans h₂, fun hreq hcur hclean => hends hreq hcur (h₂.clean hclean)⟩
    · exact .pure ⟨ds, h₁, hends⟩
  unfold initializer
  split
  · refine .bind (expect_returns hp rfl _) ?_
    rintro found p₁ ⟨ds, h₁, hfound, htrue, hfalse⟩
    refine hrest found p₁ ds h₁ (fun hfound => (htrue hfound).2) fun _ hcurrent => ?_
    refine (hfalse ?_).2
    rw [hfound, Parser.isAt, hcurrent]
    rfl
  · rename_i hnot
    refine .bind (eat_returns hp rfl) ?_
    rintro found p₁ ⟨ds, h₁, _, htrue, _⟩
    exact hrest found p₁ ds h₁ (fun hfound => (htrue hfound).2) fun hreq => absurd hreq hnot

/-- What is bound was read, unless the code ends too early, and then a value is needed. -/
theorem bound_returns (hr : rules.Adequate n) (hp : p.Ok) (hleft : p.left ≤ n) :
    Returns (bound rules) p fun r p' => ∃ ds, Takes p ds p' ∧ Placed p p'.codeLook ds ∧
      (Reads p ds p' ∨ p'.current = .breakEnd ∧ r.2 = true) ∧ (r.1 = true → p.Begins ds) := by
  refine .ask ?_
  split
  · rename_i hname
    refine .bind (bump_returns hp (.of_isAt rfl hname)) fun _ p₁ h₁ => ?_
    refine .ask ?_
    split
    · rename_i hat
      refine .bind (collection_returns hr h₁.ok (isAt_of_isDirectlyAt hat)
        (Nat.le_trans h₁.left_le hleft) params_mem_listKinds) ?_
      rintro _ p₂ ⟨_, _, hlist, _⟩
      have hplaced := h₁.placed.append h₁.toMoves h₁.toAgrees (hlist.placed h₁.ok hlist.mem)
        hlist.takes.toMoves
      refine .pure ⟨_, h₁.toTakes.trans hlist.takes, hplaced,
        or_iff_not_imp_right.2 fun hends => ?_, fun _ => (begins_token p false).append _⟩
      exact h₁.trans (hlist.reads_of_current h₁.ok fun hcurrent => hends ⟨hcurrent, rfl⟩)
    · exact .pure ⟨_, h₁.toTakes, h₁.placed, .inl h₁, by simp⟩
  · refine .bind (pattern_returns hr hp hleft) ?_
    rintro _ p₁ ⟨ds, h₁, hplaced, hends⟩
    exact .pure ⟨ds, h₁, hplaced, hends.imp_right fun hcurrent => ⟨hcurrent, rfl⟩, by simp⟩

theorem letBinding_returns (hr : rules.Adequate n) (hp : p.Ok) (hcurrent : p.Consumes)
    (hleft : p.left ≤ n) :
    Returns (letBinding rules) p fun _ p' => ReadsNode .letBinding p p' := by
  refine keyword_returns hp hcurrent hleft fun node p₁ h₁ hleft₁ => ?_
  refine start_returns h₁.ok fun closure hclosure => ?_
  refine .bind (bound_returns hr hclosure.ok (Nat.le_of_lt hleft₁)) ?_
  rintro ⟨isClosure, needsValue⟩ p₂ ⟨ds₂, h₂, hplaced, hends, hbegins⟩
  have hleft₂ := Nat.lt_of_le_of_lt h₂.left_le hleft₁
  refine .bind (initializer_returns hr h₂.ok (Nat.le_of_lt hleft₂) _) ?_
  rintro _ p₃ ⟨ds₃, h₃, hvalue⟩
  -- Where the code ends too early, the value is missing.
  have hread : Reads p₁.started (ds₂ ++ ds₃) p₃ := by
    rcases hends with hread | ⟨hcurrent, hneeds⟩
    · exact hread.trans h₃
    · exact (h₂.trans h₃.toTakes).complained
        (hplaced.append h₂.toMoves h₂.toAgrees h₃.placed h₃.toMoves) (hvalue hneeds hcurrent)
  have hinside := hclosure.read hread
  extract_lets next
  have hnext : ∀ p₄ ds, Reads p₁ ds p₄ →
      Returns (next ()) p₄ fun _ p' => ReadsNode .letBinding p p' := fun p₄ ds h₄ =>
    .bind (finishNode_returns .letBinding (h₁.read h₄) rfl rfl fun _ => trivial)
      fun _ _ h => .pure h
  split
  · rename_i hclosure
    have hsome := ((hbegins hclosure).append ds₃).ne_nil
    refine .bind (finish_returns .closure hinside rfl hsome fun _ => trivial) ?_
    rintro _ p₄ ⟨h₄, _⟩
    exact hnext p₄ _ h₄
  · refine .bind (dissolve_returns hinside) ?_
    rintro _ p₄ ⟨_, _, h₄, _⟩
    exact hnext p₄ _ h₄

/-- The function of a set rule is read, with a node around it for each field access. -/
theorem setTarget_returns (hp : p.Ok) :
    Returns setTarget p fun _ p' => ∃ ds, Reads p ds p' := by
  refine start_returns hp fun target htarget => ?_
  refine .bind (expect_returns htarget.ok rfl _) ?_
  rintro _ p₁ ⟨_, h₁, _⟩
  refine .bind (R := fun target p' => ∃ inner ds, Inside p inner ds target p')
    (.loop (fun target p' => ∃ inner ds, Inside p inner ds target p') ⟨none, _, htarget.read h₁⟩
      ?_) ?_
  · -- Each dot finishes the node so far as a field access, inside a new one.
    rintro target p₂ ⟨inner, ds, h₂⟩
    refine .bind (eat_returns h₂.ok rfl) ?_
    rintro found p₃ ⟨ds₃, h₃, _, htrue, _⟩
    split
    · rename_i hfound
      have hbegins := (htrue hfound).2
      refine .bind (expect_returns h₃.ok rfl _) ?_
      rintro _ p₄ ⟨ds₄, h₄, _⟩
      have hlt := (h₃.trans h₄).left_lt h₂.ok (hbegins.append _)
      have hsome : leavesAll (inner.toList ++ (ds ++ ds₃ ++ ds₄)) ≠ [] := by
        simp [hbegins.ne_nil]
      refine .bind (finish_returns .fieldAccess ((h₂.read h₃).read h₄) rfl hsome
        fun _ => trivial) ?_
      rintro closed p₅ ⟨h₅, hindex, hre⟩
      refine .bind (wrap_returns h₅ rfl hindex) ?_
      rintro node p₆ ⟨h₆, hre'⟩
      refine .pure ⟨⟨_, _, h₆⟩, ?_⟩
      rw [(hre.trans hre').left_eq]
      exact hlt
    · exact .pure ⟨_, _, h₂.read h₃⟩
  · rintro target p₂ ⟨_, _, h₂⟩
    refine (dissolve_returns h₂).mono ?_
    rintro _ p₃ ⟨_, ds, h₃, _⟩
    exact ⟨ds, h₃⟩

theorem setRule_returns (hr : rules.Adequate n) (hp : p.Ok) (hat : p.isAt .kwSet = true)
    (hleft : p.left ≤ n) : Returns (setRule rules) p fun _ p' => ReadsNode .setRule p p' := by
  have hmode := hp.mode_eq_code rfl hat
  have hcurrent := Consumes.of_isAt rfl hat
  refine keyword_returns hp hcurrent hleft fun node p₁ h₁ hleft₁ => ?_
  refine .bind (setTarget_returns h₁.ok) ?_
  rintro _ p₂ ⟨_, h₂⟩
  refine .ask (.ask ?_)
  have hleft₂ := Nat.lt_of_le_of_lt h₂.left_le hleft₁
  extract_lets last next
  have hlast : ∀ p' ds, Reads p₁ ds p' →
      Returns (last ()) p' fun _ p' => ReadsNode .setRule p p' := fun p' ds h =>
    .bind (finishNode_returns .setRule (h₁.read h) rfl rfl fun _ => trivial) fun _ _ h => .pure h
  have hnext : ∀ p₃ ds, Reads p₁ ds p₃ →
      Returns (next ()) p₃ fun _ p' => ReadsNode .setRule p p' := by
    intro p₃ ds h₃
    refine .bind (eat_returns h₃.ok rfl) ?_
    rintro _ p₄ ⟨_, h₄, _⟩
    have hleft₄ := Nat.lt_of_le_of_lt ((h₃.trans h₄).left_le) hleft₁
    split
    · refine .bind (hr.expression h₄.ok hleft₄ _ _) ?_
      rintro _ p₅ ⟨_, h₅, _⟩
      exact hlast p₅ _ ((h₃.trans h₄).trans h₅)
    · exact hlast p₄ _ (h₃.trans h₄)
  split
  · rename_i hat
    have hend : p₂.isAtEnd = false := by
      rcases Bool.or_eq_true_iff.1 hat with hat | hat
      · exact isAtEnd_of_isAt rfl hat
      · exact isAtEnd_of_isAt rfl hat
    have hmode₂ : p₂.stream.mode = .code := h₂.mode_eq.trans (h₁.mode_eq.trans hmode)
    refine .bind (args_returns hr h₂.ok hend (.inl hmode₂) (Nat.le_of_lt hleft₂)) ?_
    rintro _ p₃ ⟨_, h₃, _⟩
    exact hnext p₃ _ (h₂.trans h₃)
  · rename_i hnone
    have hat : p₂.isAt .leftParen = false :=
      Bool.eq_false_iff.2 fun h => hnone (Bool.or_eq_true_iff.2 (.inl h))
    refine .bind (expect_absent_returns h₂.ok hat _) ?_
    rintro _ p₃ ⟨_, h₃, _⟩
    exact hnext p₃ _ (h₂.trans h₃)

theorem showRule_returns (hr : rules.Adequate n) (hp : p.Ok) (hcurrent : p.Consumes)
    (hleft : p.left ≤ n) : Returns (showRule rules) p fun _ p' => ReadsNode .showRule p p' := by
  refine keyword_returns hp hcurrent hleft fun node p₁ h₁ hleft₁ => .ask ?_
  extract_lets last next
  have hlast : ∀ p' ds, Reads p₁ ds p' →
      Returns (last ()) p' fun _ p' => ReadsNode .showRule p p' := fun p' ds h =>
    .bind (finishNode_returns .showRule (h₁.read h) rfl rfl fun _ => trivial) fun _ _ h => .pure h
  have hnext : ∀ p₂ ds, Reads p₁ ds p₂ →
      Returns (next ()) p₂ fun _ p' => ReadsNode .showRule p p' := by
    intro p₂ ds h₂
    refine .bind (expect_returns h₂.ok rfl _) ?_
    rintro _ p₃ ⟨_, h₃, _⟩
    have hleft₃ := Nat.lt_of_le_of_lt ((h₂.trans h₃).left_le) hleft₁
    split
    · refine .bind (hr.expression h₃.ok hleft₃ _ _) ?_
      rintro _ p₄ ⟨_, h₄, _⟩
      exact hlast p₄ _ ((h₂.trans h₃).trans h₄)
    · exact hlast p₃ _ (h₂.trans h₃)
  split
  · exact hnext p₁ _ (.refl h₁.ok)
  · refine .bind (hr.expression h₁.ok hleft₁ _ _) ?_
    rintro _ p₂ ⟨_, h₂, _⟩
    exact hnext p₂ _ h₂

theorem contextual_returns (hr : rules.Adequate n) (hp : p.Ok) (hcurrent : p.Consumes)
    (hleft : p.left ≤ n) (atomic : Bool) :
    Returns (contextual rules atomic) p fun _ p' => ReadsNode .contextual p p' := by
  refine keyword_returns hp hcurrent hleft fun node p₁ h₁ hleft₁ => ?_
  refine .bind (hr.expression h₁.ok hleft₁ _ _) ?_
  rintro _ p₂ ⟨_, h₂, _⟩
  exact .bind (finishNode_returns .contextual (h₁.read h₂) rfl rfl fun _ => trivial)
    fun _ _ h => .pure h

theorem conditional_returns (hr : rules.Adequate n) (hp : p.Ok) (hcurrent : p.Consumes)
    (hleft : p.left ≤ n) :
    Returns (conditional rules) p fun _ p' => ReadsNode .conditional p p' := by
  refine keyword_returns hp hcurrent hleft fun node p₁ h₁ hleft₁ => ?_
  refine .bind (hr.expression h₁.ok hleft₁ _ _) ?_
  rintro _ p₂ ⟨_, h₂, _⟩
  have hleft₂ := Nat.lt_of_le_of_lt h₂.left_le hleft₁
  refine .bind (block_returns hr h₂.ok (Nat.le_of_lt hleft₂)) ?_
  rintro _ p₃ ⟨_, h₃⟩
  have hleft₃ := Nat.lt_of_le_of_lt h₃.left_le hleft₂
  refine .bind (eat_returns h₃.ok rfl) ?_
  rintro _ p₄ ⟨_, h₄, _⟩
  have hleft₄ := Nat.lt_of_le_of_lt h₄.left_le hleft₃
  have hinside := ((h₁.read h₂).read h₃).read h₄
  extract_lets next
  have hnext : ∀ p₅ ds, Reads p₄ ds p₅ →
      Returns (next ()) p₅ fun _ p' => ReadsNode .conditional p p' := fun p₅ ds h₅ =>
    .bind (finishNode_returns .conditional (hinside.read h₅) rfl rfl fun _ => trivial)
      fun _ _ h => .pure h
  split
  · refine .ask ?_
    split
    · -- The conditional behind an else is read by the recursive rule.
      rename_i hat
      refine .bind (hr.conditional h₄.ok (isAt_iff.1 hat) hleft₄) ?_
      rintro _ p₅ ⟨_, h₅, _⟩
      exact hnext p₅ _ h₅
    · refine .bind (block_returns hr h₄.ok (Nat.le_of_lt hleft₄)) ?_
      rintro _ p₅ ⟨_, h₅⟩
      exact hnext p₅ _ h₅
  · exact hnext p₄ _ (.refl h₄.ok)

theorem whileLoop_returns (hr : rules.Adequate n) (hp : p.Ok) (hcurrent : p.Consumes)
    (hleft : p.left ≤ n) : Returns (whileLoop rules) p fun _ p' => ReadsNode .whileLoop p p' := by
  refine keyword_returns hp hcurrent hleft fun node p₁ h₁ hleft₁ => ?_
  refine .bind (hr.expression h₁.ok hleft₁ _ _) ?_
  rintro _ p₂ ⟨_, h₂, _⟩
  have hleft₂ := Nat.lt_of_le_of_lt h₂.left_le hleft₁
  refine .bind (block_returns hr h₂.ok (Nat.le_of_lt hleft₂)) ?_
  rintro _ p₃ ⟨_, h₃⟩
  exact .bind (finishNode_returns .whileLoop ((h₁.read h₂).read h₃) rfl rfl fun _ => trivial)
    fun _ _ h => .pure h

theorem forLoop_returns (hr : rules.Adequate n) (hp : p.Ok) (hcurrent : p.Consumes)
    (hleft : p.left ≤ n) : Returns (forLoop rules) p fun _ p' => ReadsNode .forLoop p p' := by
  refine keyword_returns hp hcurrent hleft fun node p₁ h₁ hleft₁ => ?_
  refine .bind (pattern_returns hr h₁.ok (Nat.le_of_lt hleft₁)) ?_
  rintro _ p₂ ⟨ds₂, h₂, hplaced, hends⟩
  have hleft₂ := Nat.lt_of_le_of_lt h₂.left_le hleft₁
  refine .bind (expect_returns h₂.ok rfl _) ?_
  rintro found p₃ ⟨ds₃, h₃, hfound, _, hfalse⟩
  -- Where the code ends too early, the keyword is missing.
  have hread : Reads p₁ (ds₂ ++ ds₃) p₃ := by
    rcases hends with hread | hcurrent
    · exact hread.trans h₃
    · refine (h₂.trans h₃.toTakes).complained
        (hplaced.append h₂.toMoves h₂.toAgrees h₃.placed h₃.toMoves) (hfalse ?_).2
      rw [hfound, Parser.isAt, hcurrent]
      rfl
  have hleft₃ := Nat.lt_of_le_of_lt h₃.left_le hleft₂
  extract_lets next
  have hnext : ∀ p₄ ds, Reads p₃ ds p₄ →
      Returns (next ()) p₄ fun _ p' => ReadsNode .forLoop p p' := by
    intro p₄ ds h₄
    have hleft₄ := Nat.lt_of_le_of_lt h₄.left_le hleft₃
    refine .bind (block_returns hr h₄.ok (Nat.le_of_lt hleft₄)) ?_
    rintro _ p₅ ⟨_, h₅⟩
    have hinside := ((h₁.read hread).read h₄).read h₅
    exact .bind (finishNode_returns .forLoop hinside rfl rfl fun _ => trivial)
      fun _ _ h => .pure h
  split
  · refine .bind (hr.expression h₃.ok hleft₃ _ _) ?_
    rintro _ p₄ ⟨_, h₄, _⟩
    exact hnext p₄ _ h₄
  · exact hnext p₃ _ (.refl h₃.ok)

theorem imported_returns (hp : p.Ok) : Returns imported p fun _ p' => ∃ ds, Spans p ds p' := by
  refine .ask ?_
  split
  · rename_i hat
    refine .ask (.modified ?_)
    have hok : (p.enterBreakRule .ignored).Ok := ⟨hp.steady, hp.complains⟩
    have hend := isAtEnd_enterBreakRule hp (isAtEnd_of_isAt rfl hat)
    refine .modified ?_
    have h₁ := takes_bump hok hend
    refine .bind (importItems_returns h₁.ok) ?_
    rintro _ p₂ ⟨_, h₂⟩
    have hopening : p.range.stop ≤ p₂.source.length := by
      rw [h₂.source_eq, h₁.source_eq]
      exact hp.range_stop_le
    refine .bind (expectClosing_returns h₂.ok rfl hopening) ?_
    rintro _ p₃ ⟨_, h₃, _, htrue, hfalse⟩
    have hparen : (p.enterBreakRule .ignored).look.token.kind = .leftParen :=
      hp.kind_look_of_isAt (by simp) hat
    have hclosed := h₁.close h₂ h₃.toSpans hparen fun hclean =>
      (htrue (eq_true_of_clean hfalse hclean)).1
    refine (leaveBreakRule_returns hclosed).mono ?_
    rintro _ _ ⟨h₄, rfl⟩
    exact ⟨_, h₄⟩
  · refine .bind (eat_returns hp rfl) ?_
    rintro _ p₁ ⟨_, h₁, _⟩
    split
    · exact .pure ⟨_, h₁.toSpans⟩
    · refine (importItems_returns h₁.ok).mono ?_
      rintro _ p₂ ⟨_, h₂⟩
      exact ⟨_, h₁.toSpans.trans h₂⟩

theorem moduleImport_returns (hr : rules.Adequate n) (hp : p.Ok) (hcurrent : p.Consumes)
    (hleft : p.left ≤ n) :
    Returns (moduleImport rules) p fun _ p' => ReadsNode .moduleImport p p' := by
  refine keyword_returns hp hcurrent hleft fun node p₁ h₁ hleft₁ => ?_
  refine .bind (hr.expression h₁.ok hleft₁ _ _) ?_
  rintro _ p₂ ⟨_, h₂, _⟩
  refine .bind (eat_returns h₂.ok rfl) ?_
  rintro _ p₃ ⟨_, h₃, _⟩
  have h₃ := h₂.trans h₃
  extract_lets last next
  have hlast : ∀ p' ds, Spans p₁ ds p' →
      Returns (last ()) p' fun _ p' => ReadsNode .moduleImport p p' := by
    intro p' ds h
    have hbegins := (begins_token p false).append ds
    refine .bind (finishEnclosed_returns .moduleImport (h₁.span h) rfl
      (hbegins.joins hp hcurrent.isAtEnd _) fun _ => trivial) ?_
    exact fun _ _ h => .pure ⟨_, h, hbegins⟩
  have hnext : ∀ p₄ ds, Reads p₁ ds p₄ →
      Returns (next ()) p₄ fun _ p' => ReadsNode .moduleImport p p' := by
    intro p₄ ds h₄
    refine .bind (eat_returns h₄.ok rfl) ?_
    rintro _ p₅ ⟨_, h₅, _⟩
    split
    · refine .bind (imported_returns h₅.ok) ?_
      rintro _ p₆ ⟨_, h₆⟩
      exact hlast p₆ _ ((h₄.trans h₅).toSpans.trans h₆)
    · exact hlast p₅ _ (h₄.trans h₅).toSpans
  split
  · refine .bind (expect_returns h₃.ok rfl _) ?_
    rintro _ p₄ ⟨_, h₄, _⟩
    exact hnext p₄ _ (h₃.trans h₄)
  · exact hnext p₃ _ h₃

theorem moduleInclude_returns (hr : rules.Adequate n) (hp : p.Ok) (hcurrent : p.Consumes)
    (hleft : p.left ≤ n) :
    Returns (moduleInclude rules) p fun _ p' => ReadsNode .moduleInclude p p' := by
  refine keyword_returns hp hcurrent hleft fun node p₁ h₁ hleft₁ => ?_
  refine .bind (hr.expression h₁.ok hleft₁ _ _) ?_
  rintro _ p₂ ⟨_, h₂, _⟩
  exact .bind (finishNode_returns .moduleInclude (h₁.read h₂) rfl rfl fun _ => trivial)
    fun _ _ h => .pure h

theorem funcReturn_returns (hr : rules.Adequate n) (hp : p.Ok) (hcurrent : p.Consumes)
    (hleft : p.left ≤ n) : Returns (funcReturn rules) p fun _ p' => ReadsNode .funcReturn p p' := by
  refine keyword_returns hp hcurrent hleft fun node p₁ h₁ hleft₁ => .ask ?_
  extract_lets next
  have hnext : ∀ p₂ ds, Reads p₁ ds p₂ →
      Returns (next ()) p₂ fun _ p' => ReadsNode .funcReturn p p' := fun p₂ ds h₂ =>
    .bind (finishNode_returns .funcReturn (h₁.read h₂) rfl rfl fun _ => trivial)
      fun _ _ h => .pure h
  split
  · refine .bind (hr.expression h₁.ok hleft₁ _ _) ?_
    rintro _ p₂ ⟨_, h₂, _⟩
    exact hnext p₂ _ h₂
  · exact hnext p₁ _ (.refl h₁.ok)

theorem loneKeyword_returns {kind : Kind} (hp : p.Ok) (hcurrent : p.Consumes)
    (hkind : kind.isCommon = true) (hshape : ∀ children, Shape kind children) :
    Returns (loneKeyword kind) p fun _ p' => ReadsNode kind p p' :=
  keyword_returns hp hcurrent (Nat.le_refl _) fun _ _ h₁ _ =>
    .bind (finishNode_returns kind h₁ rfl hkind fun _ => hshape _) fun _ _ h => .pure h

end Grammar

end TypstFormat
