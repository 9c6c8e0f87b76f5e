import Reckon.Parser.Progress

/-!
# Parser — NextForm

The way to the next form: over semicolons, and past what broke the form before.
-/

namespace Reckon.Parser

variable {σ : Type} [ItemStream σ]

/-- The token that begins the next form, or the end: semicolons are passed over. -/
def toForm (p : Parser σ) : EStateM.Result ParseError (Parser σ) Token :=
  match _h : peek p with
  | .error e q => .error e q
  | .ok t q =>
    if _ht : t = .char ';' then
      match _ha : advance q with
      | .error e r => .error e r
      | .ok _ r => toForm r
    else .ok t q
termination_by p.remaining
decreasing_by
  have h₁ := forward_peek p
  rw [_h] at h₁
  have h₂ := remaining_advance_lt (p := q) (by rw [← (eq_current_of_peek _h).1, _ht]; simp)
  rw [_ha] at h₂
  exact Nat.lt_of_lt_of_le h₂ h₁

/-- Note the error, skip the token that broke the form, and go on with the next one. -/
def recover (e : ParseError) (p : Parser σ) : Parser σ := (p.note (.recovering e)).resume

/-- Passing semicolons is no step back, and passing a malformed lexeme is a step on. -/
theorem remaining_toForm (p : Parser σ) :
    match toForm p with
    | .ok t q => q.remaining ≤ p.remaining ∧ t = q.current ∧ q.primed = true
    | .error _ q => q.remaining < p.remaining := by
  fun_induction toForm p with
  | case1 p e q h => exact remaining_peek_error h
  | case2 p q e r ha h =>
      have h₁ := forward_peek p
      rw [h] at h₁
      have h₂ := remaining_advance_le q
      rw [ha] at h₂
      exact Nat.lt_of_lt_of_le h₂ h₁
  | case3 p q u r ha h ih =>
      have h₁ := forward_peek p
      rw [h] at h₁
      have h₂ := remaining_advance_le q
      rw [ha] at h₂
      cases hr : toForm r with
      | ok t s =>
          rw [hr] at ih
          exact ⟨Nat.le_trans ih.1 (Nat.le_trans h₂ h₁), ih.2⟩
      | error e s =>
          rw [hr] at ih
          exact Nat.lt_of_lt_of_le ih (Nat.le_trans h₂ h₁)
  | case4 p t q h ht =>
      have h₁ := forward_peek p
      rw [h] at h₁
      exact ⟨h₁, eq_current_of_peek h⟩

end Reckon.Parser
