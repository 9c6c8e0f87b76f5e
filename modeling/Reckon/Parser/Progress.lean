import Reckon.Parser.Forms

/-!
# Parser — Progress

Parsing never goes back, and a form takes at least one item with it: when it is parsed, the cursor
has passed one (`Parser.remaining_form_lt`), and when it is not, it has once parsing is resumed
(`Parser.remaining_resume_form_lt`).
-/

namespace Reckon.Parser

variable {σ : Type} [ItemStream σ]

/-- The work `m` never goes back. -/
def Forward {α : Type} (m : ParseM σ α) : Prop :=
  ∀ p, match m p with
    | .ok _ q => q.remaining ≤ p.remaining
    | .error _ q => q.remaining ≤ p.remaining

theorem Forward.pure {α : Type} (a : α) : Forward (Pure.pure a : ParseM σ α) :=
  fun _ => Nat.le_refl _

theorem Forward.throw {α : Type} (e : ParseError) : Forward (throw e : ParseM σ α) :=
  fun _ => Nat.le_refl _

theorem Forward.get : Forward (get : ParseM σ (Parser σ)) :=
  fun _ => Nat.le_refl _

theorem Forward.note (e : Event) : Forward (modify (·.note e) : ParseM σ PUnit) :=
  fun _ => Nat.le_refl _

theorem Forward.bind {α β : Type} {m : ParseM σ α} {f : α → ParseM σ β} (hm : Forward m)
    (hf : ∀ a, Forward (f a)) : Forward (m >>= f) := by
  intro p
  have h₁ := hm p
  simp only [Bind.bind, EStateM.bind]
  cases h : m p with
  | error e q => simpa [h] using h₁
  | ok a q =>
      rw [h] at h₁
      have h₂ := hf a q
      simp only
      cases h' : f a q with
      | ok b r => rw [h'] at h₂; exact Nat.le_trans h₂ h₁
      | error e r => rw [h'] at h₂; exact Nat.le_trans h₂ h₁

theorem forward_advance : Forward (σ := σ) advance := by
  intro p
  have := remaining_advance_le p
  cases h : Parser.advance p with
  | ok _ q => simpa [h] using this
  | error _ q => rw [h] at this; exact Nat.le_of_lt this

theorem forward_next : Forward (σ := σ) next :=
  .bind forward_advance fun _ => .bind .get fun _ => .pure _

theorem forward_peek : Forward (σ := σ) peek :=
  .bind .get fun p => by
    split
    · exact .pure _
    · exact forward_next

theorem forward_require (wanted : Token) (error : Token → ParseError) (found : Token) :
    Forward (σ := σ) (require wanted error found) := by
  unfold require
  split
  · exact .pure _
  · exact .throw _

theorem forward_parameters (read : List String) : Forward (σ := σ) (parameters read) := by
  intro p
  fun_induction parameters read p with
  | case1 read p e q h => have := forward_advance p; rw [h] at this; exact this
  | case2 read p u q h x hx ih =>
      have h₁ := forward_advance p
      rw [h] at h₁
      cases hr : parameters (x :: read) q with
      | ok _ r => rw [hr] at ih; exact Nat.le_trans ih h₁
      | error _ r => rw [hr] at ih; exact Nat.le_trans ih h₁
  | case3 read p u q h _ => have := forward_advance p; rw [h] at this; exact this

theorem forward_prototype : Forward (σ := σ) prototype :=
  .bind forward_peek fun t => by
    split
    · exact .bind forward_next fun _ => .bind (forward_require _ _ _) fun _ =>
        .bind (forward_parameters _) fun _ => .bind .get fun _ =>
        .bind (forward_require _ _ _) fun _ => .bind forward_advance fun _ => .pure _
    · exact .throw _

theorem forward_run (m : Machine) : Forward (σ := σ) m.run := by
  intro p
  fun_induction Machine.run m p with
  | case1 => exact Nat.le_refl _
  | case2 => exact Nat.le_refl _
  | case3 m p m' hm u q h ih =>
      have h₁ := forward_advance p
      rw [h] at h₁
      cases hr : m'.run q with
      | ok _ r => rw [hr] at ih; exact Nat.le_trans ih h₁
      | error _ r => rw [hr] at ih; exact Nat.le_trans ih h₁
  | case4 m p m' hm e q h => have := forward_advance p; rw [h] at this; exact this

theorem forward_expression : Forward (σ := σ) expression :=
  .bind forward_peek fun _ => forward_run _

/-! ## At least one item -/

/-- Work after which the cursor has passed the token it stood on. -/
def Passes {α : Type} (m : ParseM σ α) : Prop :=
  ∀ p : Parser σ, p.primed = true → p.current ≠ .eof → match m p with
    | .ok _ q => q.remaining < p.remaining
    | .error _ q => q.remaining < p.remaining

theorem Passes.bind {α β : Type} {m : ParseM σ α} {f : α → ParseM σ β} (hm : Passes m)
    (hf : ∀ a, Forward (f a)) : Passes (m >>= f) := by
  intro p hp hc
  have h₁ := hm p hp hc
  simp only [Bind.bind, EStateM.bind]
  cases h : m p with
  | error e q => simpa [h] using h₁
  | ok a q =>
      rw [h] at h₁
      have h₂ := hf a q
      simp only
      cases h' : f a q with
      | ok b r => rw [h'] at h₂; exact Nat.lt_of_le_of_lt h₂ h₁
      | error e r => rw [h'] at h₂; exact Nat.lt_of_le_of_lt h₂ h₁

/-- A token that has been read is there without reading on. -/
theorem peek_of_primed {p : Parser σ} (hp : p.primed = true) : peek p = .ok p.current p := by
  show (if p.primed then return p.current else next : ParseM σ Token) p = _
  rw [hp]
  rfl

/-- A token that has not been read is read. -/
theorem peek_of_not_primed {p : Parser σ} (hp : p.primed = false) : peek p = next p := by
  show (if p.primed then return p.current else next : ParseM σ Token) p = _
  rw [hp]
  rfl

theorem primed_of_advance {p q : Parser σ} (h : advance p = .ok () q) : q.primed = true := by
  obtain ⟨t, -, rfl⟩ := advance_eq_ok h
  rfl

/-- What is seen is the token under the cursor, and it has been read. -/
theorem eq_current_of_peek {p q : Parser σ} {t : Token} (h : peek p = .ok t q) :
    t = q.current ∧ q.primed = true := by
  cases hp : p.primed with
  | true =>
      rw [peek_of_primed hp, EStateM.Result.ok.injEq] at h
      obtain ⟨rfl, rfl⟩ := h
      exact ⟨rfl, hp⟩
  | false =>
      rw [peek_of_not_primed hp] at h
      simp only [next, Bind.bind, EStateM.bind] at h
      cases ha : advance p with
      | error e r => simp [ha] at h
      | ok u r =>
          rw [ha] at h
          have h' : EStateM.Result.ok r.current r = (.ok t q : EStateM.Result ParseError _ _) := h
          rw [EStateM.Result.ok.injEq] at h'
          obtain ⟨rfl, rfl⟩ := h'
          exact ⟨rfl, primed_of_advance ha⟩

/-- A malformed lexeme in place of the token is passed. -/
theorem remaining_peek_error {p q : Parser σ} {e : ParseError} (h : peek p = .error e q) :
    q.remaining < p.remaining := by
  have h₁ := remaining_advance_le p
  cases hp : p.primed with
  | true => rw [peek_of_primed hp] at h; cases h
  | false =>
      rw [peek_of_not_primed hp] at h
      simp only [next, Bind.bind, EStateM.bind] at h
      cases ha : advance p with
      | ok u r => rw [ha] at h; cases h
      | error e' r =>
          rw [ha] at h h₁
          cases h
          exact h₁

theorem passes_take : Passes (σ := σ) take := by
  intro p hp hc
  have := remaining_advance_lt hc
  simp only [take, Bind.bind, EStateM.bind, peek_of_primed hp]
  cases h : advance p with
  | ok _ q => rw [h] at this; exact this
  | error _ q => rw [h] at this; exact this

theorem passes_definition : Passes (σ := σ) definition :=
  .bind passes_take fun _ => .bind forward_prototype fun _ => .bind forward_expression fun _ =>
    .bind (.note _) fun _ => .pure _

theorem passes_declaration : Passes (σ := σ) declaration :=
  .bind passes_take fun _ => .bind forward_prototype fun _ => .bind (.note _) fun _ => .pure _

/-- At the start the machine does not know of a whole expression. -/
theorem step_start_ne_done (ops : Operators) (t : Token) (e : Expr) :
    ({} : Machine).step ops t ≠ .done e := by
  simp only [Machine.step, Machine.beginOperand]
  split
  · simp
  · split <;> simp

/-- A parsed expression takes the token under the cursor; one that cannot be parsed takes it too, or
nothing at all. -/
theorem remaining_run_start (p : Parser σ) :
    match ({} : Machine).run p with
    | .ok _ q => q.remaining < p.remaining
    | .error _ q => q = p ∨ q.remaining < p.remaining := by
  fun_cases Machine.run ({} : Machine) p with
  | case1 e h => exact absurd h (step_start_ne_done _ _ _)
  | case2 e h => exact .inl rfl
  | case3 m hm u q h =>
      have h₁ := remaining_advance_lt (Machine.ne_eof_of_shift hm)
      rw [h] at h₁
      have h₂ := forward_run m q
      cases hr : m.run q with
      | ok _ r => rw [hr] at h₂; exact Nat.lt_of_le_of_lt h₂ h₁
      | error _ r => rw [hr] at h₂; exact .inr (Nat.lt_of_le_of_lt h₂ h₁)
  | case4 m hm e q h =>
      have h₁ := remaining_advance_lt (Machine.ne_eof_of_shift hm)
      rw [h] at h₁
      exact .inr h₁

theorem remaining_bareExpression (p : Parser σ) (hp : p.primed = true) :
    match bareExpression p with
    | .ok _ q => q.remaining < p.remaining
    | .error _ q => q = p ∨ q.remaining < p.remaining := by
  have := remaining_run_start p
  simp only [bareExpression, expression, Bind.bind, EStateM.bind, peek_of_primed hp]
  cases h : ({} : Machine).run p with
  | ok e q => rw [h] at this; exact this
  | error e q => rw [h] at this; exact this

theorem remaining_resume_le (p : Parser σ) : (resume p).remaining ≤ p.remaining := by
  fun_induction resume p with
  | case1 p u q h => have := remaining_advance_le p; rw [h] at this; exact this
  | case2 p e q h ih =>
      have := remaining_advance_le p
      rw [h] at this
      exact Nat.le_trans ih (Nat.le_of_lt this)

/-- Resuming takes the token under the cursor. -/
theorem remaining_resume_lt {p : Parser σ} (hp : p.current ≠ .eof) :
    (resume p).remaining < p.remaining := by
  have h₁ := remaining_advance_lt hp
  rw [resume]
  split
  · next u q h => rw [h] at h₁; exact h₁
  · next e q h => rw [h] at h₁; exact Nat.lt_of_le_of_lt (remaining_resume_le _) h₁

/-- A form that is parsed takes the token it begins with. -/
theorem remaining_form_lt {t : Token} {p q : Parser σ} {f : Form} (hp : p.primed = true)
    (hc : p.current ≠ .eof) (h : form t p = .ok f q) : q.remaining < p.remaining := by
  unfold form at h
  split at h
  · have := passes_definition p hp hc; rw [h] at this; exact this
  · have := passes_declaration p hp hc; rw [h] at this; exact this
  · have := remaining_bareExpression p hp; rw [h] at this; exact this

/-- A form that cannot be parsed takes the token it begins with once parsing is resumed. -/
theorem remaining_resume_form_lt {t : Token} {p q : Parser σ} {e : ParseError}
    (hp : p.primed = true) (hc : p.current ≠ .eof) (h : form t p = .error e q) :
    (resume (q.note (.recovering e))).remaining < p.remaining := by
  have hr := remaining_resume_le (q.note (.recovering e))
  unfold form at h
  split at h
  · have := passes_definition p hp hc; rw [h] at this; exact Nat.lt_of_le_of_lt hr this
  · have := passes_declaration p hp hc; rw [h] at this; exact Nat.lt_of_le_of_lt hr this
  · have := remaining_bareExpression p hp
    rw [h] at this
    obtain rfl | this := this
    · exact remaining_resume_lt (p := q.note (.recovering e)) hc
    · exact Nat.lt_of_le_of_lt hr this

end Reckon.Parser
