import TypstFormat.Grammar.Rules
import TypstFormat.Proofs.Twin.Action

/-!
# The rules of the grammar side by side

The rules for code pass from corresponding places to corresponding ones (`Passes`), whatever is
around them; those for markup and math do so where something waits to be closed (`Flows`).
`RulesTwin` says so of the recursive rules, and is what the others are shown from.

## Key results

- `Passes.run`, `Flows.run`: using such a rule
- `Twin.recover`: skipping tokens after an error
-/

namespace TypstFormat

open Parse TypstFormat.Parser

/-- Where markup ends does not depend on columns. -/
def Extent.Fixed (extent : Extent) : Prop :=
  ∀ start start', extent.endsBefore start = extent.endsBefore start'

theorem Extent.fixed_unbounded : unbounded.Fixed :=
  fun _ _ => rfl

theorem Extent.fixed_line : line.Fixed :=
  fun _ _ => rfl

/-- The recursive rules leave alone what they are not told to change. -/
structure Rules.Keep (rules : Rules) : Prop where
  expression : ∀ atomic precedence {held},
    Keeps held (rules.expression atomic precedence) fun _ => held
  markup : ∀ atLineStart extent stops {held},
    Keeps held (rules.markup atLineStart extent stops) fun _ => held
  conditional : ∀ {held}, Keeps held rules.conditional fun _ => held

namespace Sides

variable (S : Sides)

/-- A rule for code, which consumes something if the comparison goes on behind it. -/
def Passes (stage : Stage) (x : Parse α) (x' : Parse β) : Prop :=
  ∀ closing fact held n scope, scope.mode = .code →
    S.Twin closing fact held (S.At stage n 0 scope) x x' (fun _ => held)
      fun _ _ => S.At .past n 0 scope

/-- A rule for markup and math, or only for math if markup is barred. -/
def Flows (x : Parse α) (x' : Parse β) : Prop :=
  ∀ fact held n scope, scope.mode ≠ .code → (fact → S.barred → scope.mode ≠ .markup) →
    S.Twin true fact held (S.At .past n 0 scope) x x' (fun _ => held)
      fun _ _ => S.At .past n 0 scope

/-- The recursive rules do the same on both sides. -/
structure RulesTwin (rules rules' : Rules) : Prop where
  expression : ∀ atomic precedence,
    S.Passes .come (rules.expression atomic precedence) (rules'.expression atomic precedence)
  conditional : S.Passes .on rules.conditional rules'.conditional
  /-- Where markup is barred, reading it is the end of the comparison. Columns are only compared
  where there are items. -/
  markup : ∀ atLineStart extent stops fact held n scope, scope.mode = .markup →
    (fact → S.unlisted → extent.Fixed) →
    S.Twin true fact held (fun p p' => ¬S.barred → S.At .past n 0 scope p p')
      (rules.markup atLineStart extent stops) (rules'.markup atLineStart extent stops)
      (fun _ => held) fun _ _ q q' => ¬S.barred ∧ S.At .past n 0 scope q q'
  keep' : rules'.Keep

variable {S} {closing : Bool} {fact : Prop} {held : List Nat} {stage : Stage} {n ahead : Nat}
variable {scope : Scope}

theorem Passes.run {x : Parse α} {x' : Parse β} {stage₀ : Stage} (h : S.Passes stage₀ x x')
    (hmode : scope.mode = .code) (hcovers : stage.covers stage₀ = true) :
    S.Twin closing fact held (S.At stage n ahead scope) x x' (fun _ => held)
      fun _ _ => S.At .past n 0 scope :=
  (h _ _ _ _ _ hmode).pre fun _ _ _ h => h.weaken hcovers (fun _ => Nat.le_refl n) (Nat.zero_le ahead)

theorem Flows.run {x : Parse α} {x' : Parse β} (h : S.Flows x x') (hmode : scope.mode ≠ .code)
    (hbarred : fact → S.barred → scope.mode ≠ .markup) :
    S.Twin true fact held (S.At .past n 0 scope) x x' (fun _ => held)
      fun _ _ => S.At .past n 0 scope :=
  h _ _ _ _ hmode hbarred

theorem Flows.keeps {x : Parse α} {x' : Parse β} (h : S.Flows x x') :
    Keeps held x fun _ => held :=
  (h False held 0 (.whole .math) (by simp [Scope.whole]) fun h => h.elim).keeps

theorem Passes.keeps {x : Parse α} {x' : Parse β} {stage₀ : Stage} (h : S.Passes stage₀ x x') :
    Keeps held x fun _ => held :=
  (h true True held 0 (.whole .code) rfl).keeps

/-- What the recursive rules leave alone on the left. -/
theorem RulesTwin.keep {rules rules' : Rules} (h : S.RulesTwin rules rules') : rules.Keep where
  expression atomic precedence := (h.expression atomic precedence).keeps
  markup atLineStart extent stops :=
    (h.markup atLineStart extent stops False _ 0 (.whole .markup) rfl False.elim).keeps
  conditional := h.conditional.keeps

/-- In code the comparison goes on. -/
theorem follows_code (hmode : scope.mode = .code) : fact → S.Follows closing scope :=
  fun _ => .code hmode

theorem unbarred_code (hmode : scope.mode = .code) :
    fact → S.barred → scope.mode ≠ .markup :=
  fun _ _ hmarkup => by rw [hmode] at hmarkup; cases hmarkup

/-- What comes of skipping tokens on the right. -/
def recovery (S : Sides) : Recovery → Recovery
  | .skipped node => .skipped (S.closed node)
  | .atEnd => .atEnd
  | .alreadySafe => .alreadySafe

/-- Tokens are skipped in a comparison that is not strict. -/
theorem Twin.recover [hS : S.Lawful] {node : Kind} {safe : List Kind}
    (hscope : fact → S.Follows closing scope) (hstrict : fact → ¬S.strict) :
    S.Twin closing fact held (S.At stage n ahead scope) (Parse.recover node safe)
      (Parse.recover node safe) (fun _ => held)
      fun r r' q q' => r' = S.recovery r ∧ S.At stage n ahead scope q q' := by
  have hsame {fact' : Prop} (hfact : fact' → fact) : fact' → ∀ p p',
      S.At stage n ahead scope p p' → S.Same p p' := fun h p p' hat =>
    hat.same_of_not_strict hS (hscope (hfact h)).unbarred (hstrict (hfact h))
  refine .askSame (fun _ _ h => h.isAtEnd_eq) (hsame id) fun ended => ?_
  split
  · exact .pure (List.Subset.refl _) fun _ _ _ h => ⟨rfl, h⟩
  refine .askSame (fun _ _ h => h.isAtAny_eq safe) (hsame id) fun found => ?_
  split
  · exact .pure (List.Subset.refl _) fun _ _ _ h => ⟨rfl, h⟩
  refine .bindNode .start fun skipped => ?_
  refine .bind (.loopSteady (Q := fun _ _ => S.At stage n ahead scope) (fun _ _ => ?_) () ())
    fun _ _ => ?_
  · refine .askSame (fun _ _ h => h.isAtEnd_eq) (hsame And.left) fun ended => ?_
    refine .askSame (fun _ _ h => h.isAtAny_eq safe) (hsame And.left) fun found => ?_
    split
    · exact .pure (List.Subset.refl _) fun _ _ _ h => h
    · refine .bind (.bumpLoose (fun h => hscope h.1) fun h => hstrict h.1) fun _ _ => ?_
      exact .pure (List.Subset.refl _) fun _ _ _ h => h
  · refine .bindEq (.finish (by simp) node) fun closed => ?_
    exact .pure (by simp) fun _ _ _ h => ⟨rfl, h⟩

variable (S) in
theorem keeps_recover [S.Lawful] (node : Kind) (safe : List Kind) :
    Keeps held (Parse.recover node safe) fun _ => held :=
  have h : S.Twin true False held (S.At .come 0 0 (.whole .code)) (Parse.recover node safe)
    (Parse.recover node safe) (fun _ => held)
    fun r r' q q' => r' = S.recovery r ∧ S.At .come 0 0 (.whole .code) q q' :=
    .recover False.elim False.elim
  h.keeps

end Sides

end TypstFormat
