import Reckon.Proofs.Abreast

/-!
# Proofs — Closing

How a form ends.  The last token of a form that is parsed is a number, a name or a closing bracket:
whatever the table says of the semicolon, no form ends with one (`Parser.closes_form`).
-/

namespace Reckon

open ItemStream (Final items)

/-- The last token of a phrase is no semicolon. -/
theorem Phrase.tokens_eq_append (φ : Phrase) :
    ∃ ts t, φ.tokens = ts ++ [t] ∧ t ≠ .eof ∧ t ≠ .char ';' := by
  match φ with
  | .number v => exact ⟨[], .number v, by simp [tokens]⟩
  | .var x => exact ⟨[], .ident x, by simp [tokens]⟩
  | .binary op φ ψ =>
      obtain ⟨ts, t, hts, ht⟩ := ψ.tokens_eq_append
      exact ⟨φ.tokens ++ .char op :: ts, t, by simp [tokens, hts], ht⟩
  | .group φ => exact ⟨.char '(' :: φ.tokens, .char ')', by simp [tokens]⟩
  | .call f [] => exact ⟨[.ident f, .char '('], .char ')', by simp [tokens]⟩
  | .call f (φ :: φs) =>
      exact ⟨.ident f :: .char '(' :: φ.tokens ++ furtherTokens φs, .char ')', by simp [tokens]⟩

namespace Parser

variable {σ : Type} [ItemStream σ] [Final σ] {α β : Type}

/-- The last token passed stands before what is ahead. -/
theorem Reads.suffix {p q : Parser σ} {ts us : List Token} {t : Token} (h : p.Reads us q)
    (hus : us = ts ++ [t]) (ht : t ≠ .eof) : .token t :: q.ahead <:+ p.ahead := by
  induction h generalizing ts with
  | here p => simp at hus
  | @pass p p' q us ha h ih =>
      have hahead := (ahead_advance ha).1
      cases ts with
      | nil =>
          obtain ⟨rfl, rfl⟩ := List.cons.inj hus
          cases h
          have hp : p.ahead = .token p.current :: p'.ahead := by rw [ahead_of_ne ht, hahead]
          exact hp ▸ List.suffix_rfl
      | cons u ts =>
          have hsuf := ih (List.cons.inj hus).2
          rw [hahead] at hsuf
          exact hsuf.trans (items_suffix_ahead p)

/-- When the work is done, it has taken a token last that is no semicolon. -/
def Closes (m : ParseM σ α) : Prop :=
  ∀ p a q, m p = .ok a q → ∃ t, .token t :: q.ahead <:+ p.ahead ∧ t ≠ .char ';'

omit [Final σ] in
theorem Closes.throw (e : ParseError) : Closes (throw e : ParseM σ α) := nofun

omit [Final σ] in
theorem Closes.after {m : ParseM σ α} {f : α → ParseM σ β} (hf : ∀ a, Closes (f a))
    (hm : Onward m) : Closes (m >>= f) := by
  intro p b r h
  have hgoes := hm p
  simp only [bind, EStateM.bind] at h
  cases hp : m p with
  | error e q => rw [hp] at h; cases h
  | ok a q =>
      rw [hp] at h hgoes
      obtain ⟨t, hsuf, ht⟩ := hf a q b r h
      exact ⟨t, hsuf.trans hgoes.ahead_suffix, ht⟩

omit [Final σ] in
theorem Closes.bind_quiet {m : ParseM σ α} {f : α → ParseM σ β} {g : α → β} (hm : Closes m)
    (hf : Quiet f g) : Closes (m >>= f) := by
  intro p b r h
  simp only [bind, EStateM.bind] at h
  cases hp : m p with
  | error e q => rw [hp] at h; cases h
  | ok a q =>
      obtain ⟨j, hj⟩ := hf a q
      rw [hp] at h
      obtain ⟨-, rfl⟩ := EStateM.Result.ok.inj (hj.symm.trans h)
      exact hm p a q hp

theorem closes_expect (wanted : Token) {error : Token → ParseError} (hw : wanted ≠ .eof)
    (hs : wanted ≠ .char ';') (a : α) :
    Closes (σ := σ) (expect wanted error (advance >>= fun _ => pure a)) := by
  intro p b q h
  rw [expect_eq] at h
  split at h
  · next hc =>
      cases ha : advance p with
      | error e r => simp only [bind, EStateM.bind, ha] at h; cases h
      | ok u r =>
          simp only [bind, EStateM.bind, ha] at h
          cases h
          have hp : p.ahead = .token wanted :: q.ahead := by
            rw [ahead_of_ne (p := p) (hc ▸ hw), hc, (ahead_advance ha).1]
          exact ⟨wanted, hp ▸ List.suffix_rfl, hs⟩
  · cases h

theorem closes_prototype : Closes (σ := σ) prototype := by
  refine .after (fun t => ?_) onward_peek
  split
  · refine .after (fun t => .after (fun _ => .after (fun params => ?_) (onward_parameters _))
      (onward_require _ _ _)) onward_next
    exact closes_expect (.char ')') (by simp) (by simp) _
  · exact .throw _

theorem closes_expression : Closes (σ := σ) expression := by
  intro p e q h
  obtain ⟨t, p₀, φ, hpeek, hreads, -⟩ := reads_of_expression h
  obtain ⟨ts, t, hts, hne, hsemi⟩ := φ.tokens_eq_append
  have hgoes := onward_peek p
  rw [hpeek] at hgoes
  exact ⟨t, (hreads.suffix hts hne).trans hgoes.ahead_suffix, hsemi⟩

/-- **No form ends with a semicolon.** -/
theorem closes_form (t : Token) : Closes (σ := σ) (form t) := by
  unfold form
  split
  · exact .after (fun _ => .after (fun _ => closes_expression.bind_quiet (quiet_note _ _))
      onward_prototype) onward_take
  · exact .after (fun _ => closes_prototype.bind_quiet (quiet_note _ _)) onward_take
  · exact closes_expression.bind_quiet (quiet_note _ _)

end Parser

end Reckon
