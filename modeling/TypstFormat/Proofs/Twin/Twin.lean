import TypstFormat.Proofs.Twin.Step

/-!
# Two actions side by side

`Twin` compares an action on the left with one on the right: where both run on parsers that are
related, and both return, the parsers and the results are related again, or the comparison has come
to its end on the left. There is one rule for each way in which actions are put together, and one for
each basic action.

A `fact` may be assumed of a run. It is kept apart from the relation of the parsers, since what the
left action leaves alone (`Keeps`) does not depend on it. That is what makes an end of the comparison
final: whatever runs afterwards cannot take back what was written.

## Key results

- `Twin.bind`, `Twin.bindEq`: one action after the other
- `Twin.loop`: a loop of which each round keeps an invariant
- `Twin.bindClosing`: between two delimiters, the end of the left source is the end of the comparison
-/

namespace TypstFormat

open Parse TypstFormat.Parser

instance : Nonempty Opening := ⟨⟨0, none⟩⟩

instance : Nonempty Closed := ⟨⟨0⟩⟩

instance : Nonempty Progress := ⟨{}⟩

instance : Nonempty Text.Range := ⟨.empty 0⟩

namespace Sides

variable (S : Sides)

/-- A parser on the left, with the places that may still be changed. -/
structure Stands (held : List Nat) (p : Parser) : Prop where
  steady : p.stream.Steady
  source_eq : p.source = S.left
  held_lt : ∀ k ∈ held, k < p.events.size

/-- The two actions lead from related parsers to related ones, unless the comparison comes to its
end. The left one may change the events at the places in `held`, and hands on `held'`. -/
structure Twin (closing : Bool) (fact : Prop) (held : List Nat) (P : Parser → Parser → Prop)
    (x : Parse α) (x' : Parse β) (held' : α → List Nat) (Q : α → β → Parser → Parser → Prop) :
    Prop where
  keeps : Keeps held x held'
  run : fact → ∀ {p p' a a' q q'}, S.Stands held p → P p p' → x p = .ok (a, q) →
    x' p' = .ok (a', q') →
    (Q a a' q q' ∧ S.Stands (held' a) q) ∨ S.Broken closing (held' a) q

variable {S} {closing : Bool} {fact : Prop} {held : List Nat}

/-! ## The end of a comparison -/

/-- What cannot be closed stays so. -/
theorem spent_of_reach (hS : S.Lawful) (hstrict : S.strict) {a b : Nat} (h : Reach S.left a b)
    (hspent : S.spent a) : S.spent b := by
  induction h with
  | refl => exact hspent
  | step mode hkind _ ih => exact ih (hS.spent_step hstrict hspent mode hkind)

namespace Broken

variable {p q : Parser}

/-- A comparison that has come to its end is not taken up again. -/
theorem keep (hS : S.Lawful) (h : S.Broken closing held p) {x : Parse α} {held' : α → List Nat}
    (hx : Keeps held x held') {a : α} (hrun : x p = .ok (a, q)) :
    S.Broken closing (held' a) q := by
  obtain ⟨hlater, hleaves⟩ := hx p a q h.steady hrun
  refine ⟨hlater.steady, hlater.source_eq.trans h.source_eq, ?_⟩
  cases h.cause with
  | finding hclean hcause =>
    refine .finding hclean (hcause.imp (fun hfindings hnil => ?_) fun hfound hnil => ?_)
    · exact hfindings (List.suffix_nil.1 (hnil ▸ hlater.findings))
    · exact hfound (List.suffix_nil.1 (hnil ▸ hlater.found))
  | spent hstrict hclosing hspent =>
    have hreach := hlater.reach
    rw [h.source_eq] at hreach
    exact .spent hstrict hclosing (spent_of_reach hS hstrict hreach hspent)
  | event hk hevent habsent =>
    obtain ⟨hk', heq⟩ := hleaves _ (Array.getElem?_eq_some_iff.1 hevent).1 hk
    exact .event hk' (heq.trans hevent) habsent

theorem drop (h : S.Broken closing held p) {held' : List Nat} (hsub : held' ⊆ held) :
    S.Broken closing held' p := by
  refine ⟨h.steady, h.source_eq, ?_⟩
  cases h.cause with
  | finding hclean hcause => exact .finding hclean hcause
  | spent hstrict hclosing hspent => exact .spent hstrict hclosing hspent
  | event hk hevent habsent => exact .event (fun hmem => hk (hsub hmem)) hevent habsent

/-- What is reported first cannot be taken back. -/
theorem of_report (hS : S.Lawful) (hclean : S.clean) (hp : p.stream.Steady)
    (hsource : p.source = S.left) {x : Parse Unit} {f : Unit → Parse β} {held' : β → List Nat}
    (hf : Keeps held (f ()) held') {d : Diagnostic} (hx : x p = .ok ((), p.report d)) {b : β}
    (hrun : (x >>= f) p = .ok (b, q)) : S.Broken closing (held' b) q := by
  obtain ⟨_, p₁, hx', hf'⟩ := bind_eq_ok hrun
  rw [hx] at hx'
  cases hx'
  have hbroken : S.Broken closing held (p.report d) := broken_report hp hsource hclean d
  exact hbroken.keep hS hf hf'

end Broken

/-- The action complains if something has to be closed that cannot be. -/
def Closes (S : Sides) (x : Parse α) : Prop :=
  S.strict → ∀ {p a q}, p.stream.Steady → p.source = S.left → S.spent p.stream.consumed →
    x p = .ok (a, q) → q.findings ≠ []

theorem Closes.bind_right (hS : S.Lawful) {x : Parse α} {f : α → Parse β} {held' : α → List Nat}
    (hx : Keeps held x held') (hf : ∀ a, S.Closes (f a)) : S.Closes (x >>= f) := by
  intro hstrict p b r hp hsource hspent hrun
  obtain ⟨a, q, hx', hf'⟩ := bind_eq_ok hrun
  obtain ⟨hlater, _⟩ := hx p a q hp hx'
  have hreach := hlater.reach
  rw [hsource] at hreach
  exact hf a hstrict hlater.steady (hlater.source_eq.trans hsource)
    (spent_of_reach hS hstrict hreach hspent) hf'

theorem Closes.bind_left {x : Parse α} {f : α → Parse β} {held' : α → List Nat}
    {held'' : β → List Nat} (hkeeps : Keeps held x held') (hx : S.Closes x)
    (hf : ∀ a, Keeps (held' a) (f a) held'') : S.Closes (x >>= f) := by
  intro hstrict p b r hp hsource hspent hrun
  obtain ⟨a, q, hx', hf'⟩ := bind_eq_ok hrun
  have hsteady := (hkeeps p a q hp hx').1.steady
  have hfindings := (hf a q b r hsteady hf').1.findings
  exact fun hnil => hx hstrict hp hsource hspent hx' (List.suffix_nil.1 (hnil ▸ hfindings))

theorem eat_of_absent {p : Parser} {kind : Kind} (hat : p.isAt kind = false) :
    Parse.eat kind p = .ok (false, p) :=
  (eat_absent_returns hat).eq_ok

/-- The closing delimiter is not there any more. -/
theorem closes_expectClosing [hS : S.Lawful] (opening : Text.Range) {kind : Kind}
    (hkind : kind ∈ [Kind.dollar, .rightBracket]) : S.Closes (expectClosing opening kind) := by
  intro hstrict p found q hp hsource hspent hrun
  have hat : p.isAt kind = false := by
    refine decide_eq_false fun hcurrent => ?_
    have hne : p.current ≠ .breakEnd := by
      rw [hcurrent]
      rintro rfl
      simp at hkind
    have hlook := hS.spent_closing hstrict hspent p.stream.mode
    rw [← hsource] at hlook
    refine hlook ?_
    show p.look.token.kind ∈ _
    rw [show p.look.token.kind = p.stream.kind from hp.kind_eq.symm, kind_eq_current hne, hcurrent]
    exact hkind
  obtain ⟨eaten, p₁, heat, hrest⟩ := bind_eq_ok hrun
  rw [eat_of_absent hat] at heat
  cases heat
  obtain ⟨_, p₂, hreport, hpure⟩ := bind_eq_ok hrest
  cases hreport
  cases hpure
  exact findings_report_ne_nil _ _

namespace Twin

variable {P : Parser → Parser → Prop} {α α' β β' : Type}

section Rules

variable {x : Parse α} {x' : Parse α'} {f : α → Parse β} {f' : α' → Parse β'}
variable {held₁ : α → List Nat} {held' : β → List Nat} {R : α → α' → Parser → Parser → Prop}
variable {Q : β → β' → Parser → Parser → Prop}

theorem pure {b : β} {b' : β'} (hheld : held' b ⊆ held)
    (h : fact → ∀ p p', P p p' → Q b b' p p') :
    S.Twin closing fact held P (Pure.pure b) (Pure.pure b') held' Q where
  keeps := .pure_of_subset hheld
  run hfact p p' a a' q q' hp hP hrun hrun' := by
    cases hrun
    cases hrun'
    exact .inl ⟨h hfact _ _ hP, hp.steady, hp.source_eq, fun k hk => hp.held_lt k (hheld hk)⟩

/-- Nothing is related to an action that fails. -/
theorem throw_right (hx : Keeps held x held₁) (error : ParseError) :
    S.Twin closing fact held P x (MonadExcept.throw error : Parse α') held₁ R where
  keeps := hx
  run _ _ _ _ _ _ _ _ _ _ hrun' := by cases hrun'

theorem bind [hS : S.Lawful] [Nonempty α'] (hx : S.Twin closing fact held P x x' held₁ R)
    (hf : ∀ a a', S.Twin closing fact (held₁ a) (R a a') (f a) (f' a') held' Q) :
    S.Twin closing fact held P (x >>= f) (x' >>= f') held' Q where
  keeps := hx.keeps.bind fun a => (hf a (Classical.arbitrary α')).keeps
  run hfact p p' b b' r r' hp hP hrun hrun' := by
    obtain ⟨a, q, hx₁, hf₁⟩ := bind_eq_ok hrun
    obtain ⟨a', q', hx₁', hf₁'⟩ := bind_eq_ok hrun'
    rcases hx.run hfact hp hP hx₁ hx₁' with ⟨hR, hq⟩ | hbroken
    · exact (hf a a').run hfact hq hR hf₁ hf₁'
    · exact .inr (hbroken.keep hS (hf a (Classical.arbitrary α')).keeps hf₁)

/-- The result on the right is known from the one on the left. -/
theorem bindEq [hS : S.Lawful] {g : α → α'} {R : α → Parser → Parser → Prop}
    (hx : S.Twin closing fact held P x x' held₁ fun a a' q q' => a' = g a ∧ R a q q')
    (hf : ∀ a, S.Twin closing fact (held₁ a) (R a) (f a) (f' (g a)) held' Q) :
    S.Twin closing fact held P (x >>= f) (x' >>= f') held' Q where
  keeps := hx.keeps.bind fun a => (hf a).keeps
  run hfact p p' b b' r r' hp hP hrun hrun' := by
    obtain ⟨a, q, hx₁, hf₁⟩ := bind_eq_ok hrun
    obtain ⟨a', q', hx₁', hf₁'⟩ := bind_eq_ok hrun'
    rcases hx.run hfact hp hP hx₁ hx₁' with ⟨⟨rfl, hR⟩, hq⟩ | hbroken
    · exact (hf a).run hfact hq hR hf₁ hf₁'
    · exact .inr (hbroken.keep hS (hf a).keeps hf₁)

/-- What was begun while something had to be closed is the end of the comparison, if the rest
complains. -/
theorem bindClosing [hS : S.Lawful] [Nonempty α'] (hx : S.Twin true fact held P x x' held₁ R)
    (hf : ∀ a a', S.Twin closing fact (held₁ a) (R a a') (f a) (f' a') held' Q)
    (hcloses : ∀ a, S.Closes (f a)) :
    S.Twin closing fact held P (x >>= f) (x' >>= f') held' Q where
  keeps := hx.keeps.bind fun a => (hf a (Classical.arbitrary α')).keeps
  run hfact p p' b b' r r' hp hP hrun hrun' := by
    obtain ⟨a, q, hx₁, hf₁⟩ := bind_eq_ok hrun
    obtain ⟨a', q', hx₁', hf₁'⟩ := bind_eq_ok hrun'
    rcases hx.run hfact hp hP hx₁ hx₁' with ⟨hR, hq⟩ | hbroken
    · exact (hf a a').run hfact hq hR hf₁ hf₁'
    · have hkeeps := (hf a (Classical.arbitrary α')).keeps
      have hopen (hcause : S.Cause closing (held₁ a) q) : S.Broken closing (held' b) r :=
        Broken.keep hS ⟨hbroken.steady, hbroken.source_eq, hcause⟩ hkeeps hf₁
      refine .inr ?_
      cases hbroken.cause with
      | finding hclean hcause => exact hopen (.finding hclean hcause)
      | event hk hevent habsent => exact hopen (.event hk hevent habsent)
      | spent hstrict _ hspent =>
        -- What was spent in front of the rest is what the rest complains about.
        have hkept := hbroken.keep hS hkeeps hf₁
        have hfindings := hcloses a hstrict hbroken.steady hbroken.source_eq hspent hf₁
        exact ⟨hkept.steady, hkept.source_eq, .finding (hS.clean_of_strict hstrict) (.inl hfindings)⟩

/-! ## Weakening -/

theorem mono (h : S.Twin closing fact held P x x' held₁ R) {fact' : Prop}
    {P' : Parser → Parser → Prop} (hfact : fact' → fact)
    (hpre : fact' → ∀ p p', P' p p' → P p p') :
    S.Twin closing fact' held P' x x' held₁ R where
  keeps := h.keeps
  run hfact' _ _ _ _ _ _ hp hP hrun hrun' :=
    h.run (hfact hfact') hp (hpre hfact' _ _ hP) hrun hrun'

theorem pre (h : S.Twin closing fact held P x x' held₁ R) {P' : Parser → Parser → Prop}
    (hpre : fact → ∀ p p', P' p p' → P p p') : S.Twin closing fact held P' x x' held₁ R :=
  h.mono id hpre

theorem post (h : S.Twin closing fact held P x x' held₁ R)
    {R' : α → α' → Parser → Parser → Prop}
    (hpost : fact → ∀ a a' q q', R a a' q q' → R' a a' q q') :
    S.Twin closing fact held P x x' held₁ R' where
  keeps := h.keeps
  run hfact _ _ _ _ _ _ hp hP hrun hrun' :=
    (h.run hfact hp hP hrun hrun').imp_left fun ⟨hR, hq⟩ => ⟨hpost hfact _ _ _ _ hR, hq⟩

/-- Fewer places may be handed on. -/
theorem drop (h : S.Twin closing fact held P x x' held₁ R) {held₂ : α → List Nat}
    (hsub : ∀ a, held₂ a ⊆ held₁ a) : S.Twin closing fact held P x x' held₂ R where
  keeps := h.keeps.mono hsub
  run hfact _ _ _ _ _ _ hp hP hrun hrun' :=
    (h.run hfact hp hP hrun hrun').imp
      (fun ⟨hR, hq⟩ => ⟨hR, hq.steady, hq.source_eq, fun k hk => hq.held_lt k (hsub _ hk)⟩)
      (fun hbroken => hbroken.drop (hsub _))

/-- What is known of the left parser besides stays known if the action keeps it. -/
theorem frame {C C' : Parser → Prop} (h : S.Twin closing fact held P x x' held₁ R)
    (hC : ∀ {p a q}, C p → x p = .ok (a, q) → C' q) :
    S.Twin closing fact held (fun p p' => P p p' ∧ C p) x x' held₁
      fun a a' q q' => R a a' q q' ∧ C' q where
  keeps := h.keeps
  run hfact _ _ _ _ _ _ hp hP hrun hrun' :=
    (h.run hfact hp hP.1 hrun hrun').imp_left fun ⟨hR, hq⟩ => ⟨⟨hR, hC hP.2 hrun⟩, hq⟩

/-- What the relation of the parsers tells may be assumed of the run. -/
theorem learn {ψ : Prop} (hψ : fact → ∀ p p', P p p' → ψ)
    (h : S.Twin closing (fact ∧ ψ) held P x x' held₁ R) :
    S.Twin closing fact held P x x' held₁ R where
  keeps := h.keeps
  run hfact _ _ _ _ _ _ hp hP hrun hrun' :=
    h.run ⟨hfact, hψ hfact _ _ hP⟩ hp hP hrun hrun'

/-- Either more is known of the parsers, or the left action brings the comparison to its end. -/
theorem orBroken {C : Parser → Parser → Prop} (h₁ : S.Twin closing fact held C x x' held₁ R)
    (h : fact → ∀ p p', S.Stands held p → P p p' →
      C p p' ∨ ∀ a q, x p = .ok (a, q) → S.Broken closing (held₁ a) q) :
    S.Twin closing fact held P x x' held₁ R where
  keeps := h₁.keeps
  run hfact _ _ _ _ _ _ hp hP hrun hrun' :=
    (h hfact _ _ hp hP).elim (fun hP => h₁.run hfact hp hP hrun hrun')
      fun hbroken => .inr (hbroken _ _ hrun)

/-- What is shown in two cases. -/
theorem byCases {C : Parser → Prop}
    (hyes : S.Twin closing fact held (fun p p' => P p p' ∧ C p) x x' held₁ R)
    (hno : S.Twin closing fact held (fun p p' => P p p' ∧ ¬C p) x x' held₁ R) :
    S.Twin closing fact held P x x' held₁ R where
  keeps := hyes.keeps
  run hfact p _ _ _ _ _ hp hP hrun hrun' :=
    (Classical.em (C p)).elim (fun hC => hyes.run hfact hp ⟨hP, hC⟩ hrun hrun')
      fun hC => hno.run hfact hp ⟨hP, hC⟩ hrun hrun'

/-- The right action may be replaced by one that is the same under the facts. -/
theorem congr_right {x'' : Parse α'} (heq : fact → x' = x'')
    (h : S.Twin closing fact held P x x'' held₁ R) : S.Twin closing fact held P x x' held₁ R where
  keeps := h.keeps
  run hfact _ _ _ _ _ _ hp hP hrun hrun' := by
    rw [heq hfact] at hrun'
    exact h.run hfact hp hP hrun hrun'

/-! ## Questions -/

/-- A question with the same answer on both sides. -/
theorem ask {γ : Type} {g g' : Parser → γ} {f : γ → Parse β} {f' : γ → Parse β'}
    (heq : fact → ∀ p p', P p p' → g' p' = g p)
    (hf : ∀ b, S.Twin closing fact held (fun p p' => P p p' ∧ g p = b) (f b) (f' b) held' Q) :
    S.Twin closing fact held P (Parse.ask g >>= f) (Parse.ask g' >>= f') held' Q where
  keeps := .bind (.ask g) fun b => (hf b).keeps
  run hfact p p' b b' r r' hp hP hrun hrun' := by
    obtain ⟨a, q, hask, hf₁⟩ := bind_eq_ok hrun
    obtain ⟨a', q', hask', hf₁'⟩ := bind_eq_ok hrun'
    cases hask
    cases hask'
    rw [heq hfact _ _ hP] at hf₁'
    exact (hf (g p)).run hfact hp ⟨hP, rfl⟩ hf₁ hf₁'

/-- A question with the same answer on both sides, of which one answer is followed in its own way. -/
theorem askExcept {γ : Type} [DecidableEq γ] {g g' : Parser → γ} {f : γ → Parse β}
    {f' : γ → Parse β'} (special : γ) (heq : fact → ∀ p p', P p p' → g' p' = g p)
    (hkeeps : ∀ {p b q}, p.stream.Steady → g p = special → f special p = .ok (b, q) →
      Later p q ∧ Leaves held (held' b) p q)
    (hrun : fact → ∀ {p p' b b' q q'}, S.Stands held p → P p p' → g p = special →
      f special p = .ok (b, q) → f' special p' = .ok (b', q') →
      (Q b b' q q' ∧ S.Stands (held' b) q) ∨ S.Broken closing (held' b) q)
    (hf : ∀ c ≠ special, S.Twin closing fact held (fun p p' => P p p' ∧ g p = c) (f c) (f' c)
      held' Q) :
    S.Twin closing fact held P (Parse.ask g >>= f) (Parse.ask g' >>= f') held' Q where
  keeps p b r hp hleft := by
    obtain ⟨_, _, hask, hrest⟩ := bind_eq_ok hleft
    cases hask
    by_cases hspecial : g p = special
    · rw [hspecial] at hrest
      exact hkeeps hp hspecial hrest
    · exact (hf _ hspecial).keeps p b r hp hrest
  run hfact p p' b b' r r' hp hP hleft hright := by
    obtain ⟨_, _, hask, hrest⟩ := bind_eq_ok hleft
    obtain ⟨_, _, hask', hrest'⟩ := bind_eq_ok hright
    cases hask
    cases hask'
    rw [heq hfact _ _ hP] at hrest'
    by_cases hspecial : g p = special
    · rw [hspecial] at hrest hrest'
      exact hrun hfact hp hP hspecial hrest hrest'
    · exact (hf _ hspecial).run hfact hp ⟨hP, rfl⟩ hrest hrest'

/-- A question that is answered by yes or no. -/
theorem askBool {g g' : Parser → Bool} {f : Bool → Parse β} {f' : Bool → Parse β'}
    (heq : fact → ∀ p p', P p p' → g' p' = g p)
    (hyes : S.Twin closing fact held (fun p p' => P p p' ∧ g p = true) (f true) (f' true) held' Q)
    (hno : S.Twin closing fact held (fun p p' => P p p' ∧ g p = false) (f false) (f' false)
      held' Q) :
    S.Twin closing fact held P (Parse.ask g >>= f) (Parse.ask g' >>= f') held' Q := by
  refine .ask heq fun b => ?_
  cases b with
  | false => exact hno
  | true => exact hyes

/-- Two questions, of which one has to be answered by yes. -/
theorem askOr {g₁ g₂ g₁' g₂' : Parser → Bool} {y z : Parse β} {y' z' : Parse β'}
    (heq : fact → ∀ p p', P p p' → (g₁' p' || g₂' p') = (g₁ p || g₂ p))
    (hyes : S.Twin closing fact held (fun p p' => P p p' ∧ (g₁ p || g₂ p) = true) y y' held' Q)
    (hno : S.Twin closing fact held (fun p p' => P p p' ∧ (g₁ p || g₂ p) = false) z z' held' Q) :
    S.Twin closing fact held P
      (Parse.ask g₁ >>= fun a => Parse.ask g₂ >>= fun b => if (a || b) = true then y else z)
      (Parse.ask g₁' >>= fun a => Parse.ask g₂' >>= fun b => if (a || b) = true then y' else z')
      held' Q :=
  have h : S.Twin closing fact held P
      (Parse.ask (fun p => g₁ p || g₂ p) >>= fun c => if c = true then y else z)
      (Parse.ask (fun p => g₁' p || g₂' p) >>= fun c => if c = true then y' else z') held' Q :=
    .askBool heq hyes hno
  h

/-- The parsers themselves. -/
theorem get {f : Parser → Parse β} {f' : Parser → Parse β'}
    (hf : ∀ p p', S.Twin closing (fact ∧ P p p') held (fun q q' => q = p ∧ q' = p') (f p) (f' p')
      held' Q) :
    S.Twin closing fact held P (MonadState.get >>= f) (MonadState.get >>= f') held' Q where
  keeps := .bind .get fun p => (hf p p).keeps
  run hfact p p' b b' r r' hp hP hrun hrun' := by
    obtain ⟨a, q, hget, hf₁⟩ := bind_eq_ok hrun
    obtain ⟨a', q', hget', hf₁'⟩ := bind_eq_ok hrun'
    cases hget
    cases hget'
    exact (hf p p').run ⟨hfact, hP⟩ hp ⟨rfl, rfl⟩ hf₁ hf₁'

/-! ## Loops -/

/-- What is known after one round of two loops. -/
def Round {σ σ' : Type} (I : σ → σ' → Parser → Parser → Prop) (Q : β → β' → Parser → Parser → Prop) :
    σ ⊕ β → σ' ⊕ β' → Parser → Parser → Prop
  | .inl s, .inl s', q, q' => I s s' q q'
  | .inr b, .inr b', q, q' => Q b b' q q'
  | _, _, _, _ => False

theorem iterate [hS : S.Lawful] {σ σ' : Type} [Nonempty σ'] {step : σ → Parse (σ ⊕ β)}
    {step' : σ' → Parse (σ' ⊕ β')} {heldAt : σ → List Nat}
    {I : σ → σ' → Parser → Parser → Prop}
    (hstep : ∀ s s', S.Twin closing fact (heldAt s) (I s s') (step s) (step' s')
      (Sum.elim heldAt held') (Round I Q)) (fuel fuel' : Nat) (s : σ) (s' : σ') :
    S.Twin closing fact (heldAt s) (I s s') (Parse.iterate fuel step s)
      (Parse.iterate fuel' step' s') held' Q := by
  have hkeeps : ∀ s, Keeps (heldAt s) (step s) (Sum.elim heldAt held') := fun s =>
    (hstep s (Classical.arbitrary σ')).keeps
  induction fuel' generalizing fuel s s' with
  | zero => exact .throw_right (.iterate hkeeps fuel s) _
  | succ fuel' ih =>
    cases fuel with
    | zero =>
      refine ⟨.throw _, fun _ _ _ _ _ _ _ _ _ hrun => ?_⟩
      cases hrun
    | succ fuel =>
      refine ⟨.iterate hkeeps _ s, fun hfact p p' b b' r r' hp hI hrun hrun' => ?_⟩
      obtain ⟨next, q, hstep₁, hrest⟩ := bind_eq_ok hrun
      obtain ⟨next', q', hstep₁', hrest'⟩ := bind_eq_ok hrun'
      rcases (hstep s s').run hfact hp hI hstep₁ hstep₁' with ⟨hround, hq⟩ | hbroken
      · cases next with
        | inl t =>
          cases next' with
          | inl t' => exact (ih fuel t t').run hfact hq hround hrest hrest'
          | inr => exact hround.elim
        | inr c =>
          cases next' with
          | inl => exact hround.elim
          | inr c' =>
            cases hrest
            cases hrest'
            exact .inl ⟨hround, hq⟩
      · refine .inr ?_
        cases next with
        | inl t => exact hbroken.keep hS (.iterate hkeeps fuel t) hrest
        | inr c =>
          cases hrest
          exact hbroken

/-- Two loops of which each round keeps an invariant. -/
theorem loop [S.Lawful] {σ σ' : Type} [Nonempty σ'] {step : σ → Parse (σ ⊕ β)}
    {step' : σ' → Parse (σ' ⊕ β')} {heldAt : σ → List Nat}
    {I : σ → σ' → Parser → Parser → Prop}
    (hstep : ∀ s s', S.Twin closing fact (heldAt s) (I s s') (step s) (step' s')
      (Sum.elim heldAt held') (Round I Q)) (s : σ) (s' : σ') :
    S.Twin closing fact (heldAt s) (I s s') (Parse.loop step s) (Parse.loop step' s') held' Q :=
  .get fun _ _ => (iterate hstep _ _ s s').mono And.left fun h q q' ⟨hq, hq'⟩ => by
    subst hq hq'
    exact h.2

/-- Two loops of which no round hands on other places. -/
theorem loopHeld [S.Lawful] {σ σ' : Type} [Nonempty σ'] {step : σ → Parse (σ ⊕ β)}
    {step' : σ' → Parse (σ' ⊕ β')} {I : σ → σ' → Parser → Parser → Prop}
    (hstep : ∀ s s', S.Twin closing fact held (I s s') (step s) (step' s') (fun _ => held)
      (Round I Q)) (s : σ) (s' : σ') :
    S.Twin closing fact held (I s s') (Parse.loop step s) (Parse.loop step' s') (fun _ => held)
      Q := by
  refine loop (fun s s' => (hstep s s').drop fun r => ?_) s s'
  cases r <;> exact List.Subset.refl _

/-- Two loops of which each round keeps what is known of the parsers. -/
theorem loopSteady [S.Lawful] {σ σ' : Type} [Nonempty σ'] {step : σ → Parse (σ ⊕ β)}
    {step' : σ' → Parse (σ' ⊕ β')}
    (hstep : ∀ s s', S.Twin closing fact held P (step s) (step' s') (fun _ => held)
      (Round (fun _ _ => P) Q)) (s : σ) (s' : σ') :
    S.Twin closing fact held P (Parse.loop step s) (Parse.loop step' s') (fun _ => held) Q :=
  loopHeld hstep s s'

end Rules

end Twin

end Sides

end TypstFormat
