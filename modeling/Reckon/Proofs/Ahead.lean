import Reckon.Parser.NextForm

/-!
# Proofs — Ahead

The items ahead of a parser: the token under its cursor and those of the stream behind it.  A failed
move leaves the end of the input under the cursor though there may be more to come, so the end is to
be believed only of a parser that is *ready* (`Parser.Ready`).

* `Parser.onward_form`: a form that is parsed leaves the parser ready, on an item that was ahead; a
  form that is not takes nothing that was not ahead.
* `Parser.ahead_resume`: resuming passes the malformed lexemes ahead, and then stands on a token.
* `Parser.ahead_toForm`: on the way to a form nothing is passed but semicolons.
-/

namespace Reckon

namespace ItemStream

/-- Streams with nothing behind the end. -/
class Final (σ : Type) [ItemStream σ] : Prop where
  items_of_eof (s : σ) : (next s).item = .eof → items (next s).rest = []

variable {σ : Type} [ItemStream σ] {s : σ}

theorem items_eq_nil (h : (next s).item = .eof) : items s = [] := by
  rw [items, dif_pos h]

theorem items_eq_cons (h : (next s).item ≠ .eof) :
    items s = (next s).item :: items (next s).rest := by
  rw [items, dif_neg h]

end ItemStream

/-- Where a character stands there is an item. -/
theorem Lexer.scan_ne_eof (c : Char) (rest : List Reply) : (scan (.char c :: rest)).1 ≠ .eof := by
  simp only [scan]
  split
  · simp only [Token.ofWord]
    split
    · simp
    · split <;> simp
  · split
    · simp only [numberItem]
      split <;> simp
    · simp

/-- A scanner that has found the end asks its source no more. -/
theorem Lexer.ended_of_next {l : Lexer} (h : l.next.1 = .eof) : l.next.2.ended = true := by
  simp only [next] at h ⊢
  match hrs : skipLayout false l.rest with
  | [] => rfl
  | .dry :: rest => rfl
  | .broken reason :: rest => rfl
  | .char c :: rest =>
      rw [hrs] at h
      exact absurd h (scan_ne_eof c rest)

instance : ItemStream.Final Lexer where
  items_of_eof l h := by
    refine ItemStream.items_eq_nil ?_
    show (Lexer.next l.next.2).1 = .eof
    rw [Lexer.next_of_ended (Lexer.ended_of_next h)]

/-- The item is a malformed lexeme. -/
def Item.isMalformed : Item → Bool
  | .malformed _ => true
  | .token _ => false

namespace Parser

open ItemStream (Final items items_eq_nil items_eq_cons)

variable {σ : Type} [ItemStream σ]

/-- The items the cursor has not passed. -/
def ahead (p : Parser σ) : List Item :=
  if p.current = .eof then items p.stream else .token p.current :: items p.stream

/-- The end under the cursor, once read, is the end; and nothing is there before it is read. -/
structure Ready (p : Parser σ) : Prop where
  ended : p.primed = true → p.current = .eof → items p.stream = []
  unread : p.primed = false → p.current = .eof

theorem ahead_of_eof {p : Parser σ} (h : p.current = .eof) : p.ahead = items p.stream := if_pos h

theorem ahead_of_ne {p : Parser σ} (h : p.current ≠ .eof) :
    p.ahead = .token p.current :: items p.stream := if_neg h

theorem items_suffix_ahead (p : Parser σ) : items p.stream <:+ p.ahead := by
  by_cases hc : p.current = .eof
  · exact ahead_of_eof hc ▸ List.suffix_rfl
  · exact ahead_of_ne hc ▸ List.suffix_cons _ _

/-- A move that fails passes a malformed lexeme, and says which. -/
theorem ahead_advance_error {p q : Parser σ} {e : ParseError} (h : advance p = .error e q) :
    ∃ x, e = .lex x ∧ items p.stream = .malformed x :: items q.stream := by
  obtain ⟨x, hi, he, rfl⟩ := advance_eq_error h
  exact ⟨x, he, by rw [items_eq_cons (by simp [hi]), hi]⟩

/-! ### Work that goes on -/

/-- The cursor is where it was. -/
def Still (p q : Parser σ) : Prop :=
  q.stream = p.stream ∧ q.current = p.current ∧ q.primed = p.primed

/-- The cursor has come to an item of the stream behind it. -/
def Moved (p q : Parser σ) : Prop := q.ahead <:+ items p.stream ∧ q.Ready

theorem Still.ahead_eq {p q : Parser σ} (h : Still p q) : q.ahead = p.ahead := by
  obtain ⟨hs, hc, -⟩ := h
  rw [ahead, ahead, hs, hc]

theorem Still.ready {p q : Parser σ} (h : Still p q) (hp : p.Ready) : q.Ready := by
  obtain ⟨hs, hc, hpr⟩ := h
  refine ⟨?_, ?_⟩
  · rw [hs, hc, hpr]
    exact hp.ended
  · rw [hc, hpr]
    exact hp.unread

omit [ItemStream σ] in
theorem still_noteAll (p : Parser σ) (es : List Event) : Still p (p.noteAll es) := by
  induction es generalizing p with
  | nil => exact ⟨rfl, rfl, rfl⟩
  | cons e es ih => exact ih (p.note e)

/-- Where work from `p` ends: when it succeeds, it has left the cursor or moved it; when it fails,
it has taken nothing that was not ahead. -/
def Goes {α : Type} (p : Parser σ) : EStateM.Result ParseError (Parser σ) α → Prop
  | .ok _ q => Still p q ∨ Moved p q
  | .error _ q => items q.stream <:+ items p.stream

/-- Work that goes on from everywhere. -/
def Onward {α : Type} (m : ParseM σ α) : Prop := ∀ p, Goes p (m p)

theorem Goes.trans {α : Type} {p q : Parser σ} {r : EStateM.Result ParseError (Parser σ) α}
    (h : Still p q ∨ Moved p q) (hr : Goes q r) : Goes p r := by
  have hs : items q.stream <:+ items p.stream := by
    rcases h with h | h
    · exact h.1 ▸ List.suffix_rfl
    · exact (items_suffix_ahead q).trans h.1
  cases r with
  | error e r => exact List.IsSuffix.trans hr hs
  | ok a r =>
      rcases hr with hr | hr
      · rcases h with h | h
        · exact .inl ⟨hr.1.trans h.1, hr.2.1.trans h.2.1, hr.2.2.trans h.2.2⟩
        · exact .inr ⟨hr.ahead_eq ▸ h.1, hr.ready h.2⟩
      · exact .inr ⟨hr.1.trans hs, hr.2⟩

theorem Goes.ahead_suffix {α : Type} {p q : Parser σ} {a : α} (h : Goes p (.ok a q)) :
    q.ahead <:+ p.ahead := by
  rcases h with hstill | hmoved
  · exact hstill.ahead_eq ▸ List.suffix_rfl
  · exact hmoved.1.trans (items_suffix_ahead p)

theorem Onward.ahead_suffix {α : Type} {m : ParseM σ α} (hm : Onward m) {p q : Parser σ} {a : α}
    (h : m p = .ok a q) : q.ahead <:+ p.ahead :=
  Goes.ahead_suffix (h ▸ hm p)

theorem Onward.pure {α : Type} (a : α) : Onward (Pure.pure a : ParseM σ α) :=
  fun _ => .inl ⟨rfl, rfl, rfl⟩

theorem Onward.throw {α : Type} (e : ParseError) : Onward (throw e : ParseM σ α) :=
  fun _ => List.suffix_rfl

theorem Onward.get : Onward (get : ParseM σ (Parser σ)) := fun _ => .inl ⟨rfl, rfl, rfl⟩

theorem Onward.note (e : Event) : Onward (modify (·.note e) : ParseM σ PUnit) :=
  fun _ => .inl ⟨rfl, rfl, rfl⟩

theorem Onward.bind {α β : Type} {m : ParseM σ α} {f : α → ParseM σ β} (hm : Onward m)
    (hf : ∀ a, Onward (f a)) : Onward (m >>= f) := by
  intro p
  have h := hm p
  simp only [Bind.bind, EStateM.bind]
  cases hp : m p with
  | error e q => rw [hp] at h; exact h
  | ok a q => rw [hp] at h; exact .trans h (hf a q)

theorem onward_require (wanted : Token) (error : Token → ParseError) (found : Token) :
    Onward (σ := σ) (require wanted error found) := by
  by_cases h : found = wanted
  · rw [require, if_pos h]
    exact .pure _
  · rw [require, if_neg h]
    exact .throw _

/-! ### Over streams with nothing behind the end -/

variable [Final σ]

/-- A move that succeeds comes to the next item of the stream. -/
theorem ahead_advance {p q : Parser σ} (h : advance p = .ok () q) :
    q.ahead = items p.stream ∧ q.Ready := by
  obtain ⟨t, hi, rfl⟩ := advance_eq_ok h
  by_cases ht : t = .eof
  · subst ht
    have hrest := Final.items_of_eof p.stream hi
    refine ⟨?_, fun _ _ => hrest, nofun⟩
    rw [ahead_of_eof rfl, items_eq_nil hi]
    exact hrest
  · refine ⟨?_, fun _ h => absurd h ht, nofun⟩
    have hne : (ItemStream.next p.stream).item ≠ .eof := by
      rw [hi]
      exact fun h => ht (Item.token.inj h)
    rw [ahead_of_ne ht, items_eq_cons hne, hi]

theorem onward_advance : Onward (σ := σ) advance := by
  intro p
  cases h : advance p with
  | ok u q =>
      obtain ⟨ha, hr⟩ := ahead_advance h
      exact .inr ⟨ha ▸ List.suffix_rfl, hr⟩
  | error e q =>
      obtain ⟨x, -, hx⟩ := ahead_advance_error h
      rw [Goes, hx]
      exact List.suffix_cons _ _

theorem onward_next : Onward (σ := σ) next :=
  .bind onward_advance fun _ => .bind .get fun _ => .pure _

theorem onward_peek : Onward (σ := σ) peek :=
  .bind .get fun p => by
    split
    · exact .pure _
    · exact onward_next

theorem onward_take : Onward (σ := σ) take :=
  .bind onward_peek fun _ => .bind onward_advance fun _ => .pure _

theorem onward_parameters (read : List String) : Onward (σ := σ) (parameters read) := by
  intro p
  have hadv := onward_advance p
  fun_induction parameters read p with
  | case1 read p e q h => rw [h] at hadv; exact hadv
  | case2 read p u q h x hx ih => rw [h] at hadv; exact .trans hadv (ih (onward_advance q))
  | case3 read p u q h _ => rw [h] at hadv; exact hadv

theorem onward_prototype : Onward (σ := σ) prototype :=
  .bind onward_peek fun t => by
    split
    · exact .bind onward_next fun _ => .bind (onward_require _ _ _) fun _ =>
        .bind (onward_parameters _) fun _ => .bind .get fun _ =>
        .bind (onward_require _ _ _) fun _ => .bind onward_advance fun _ => .pure _
    · exact .throw _

theorem onward_run (m : Machine) : Onward (σ := σ) m.run := by
  intro p
  have hadv := onward_advance p
  fun_induction Machine.run m p with
  | case1 m p e hs => exact .inl ⟨rfl, rfl, rfl⟩
  | case2 m p e hs => exact List.suffix_rfl
  | case3 m p m' hs u q h ih => rw [h] at hadv; exact .trans hadv (ih (onward_advance q))
  | case4 m p m' hs e q h => rw [h] at hadv; exact hadv

theorem onward_expression : Onward (σ := σ) expression :=
  .bind onward_peek fun _ => onward_run _

/-- Parsing a form goes on. -/
theorem onward_form (t : Token) : Onward (σ := σ) (form t) := by
  unfold form
  split
  · exact .bind onward_take fun _ => .bind onward_prototype fun _ =>
      .bind onward_expression fun _ => .bind (.note _) fun _ => .pure _
  · exact .bind onward_take fun _ => .bind onward_prototype fun _ =>
      .bind (.note _) fun _ => .pure _
  · exact .bind onward_expression fun _ => .bind (.note _) fun _ => .pure _

/-- A form that is parsed takes the token it begins with. -/
theorem ahead_form {t : Token} {p q : Parser σ} {f : Form} (hp : p.primed = true)
    (hc : p.current ≠ .eof) (h : form t p = .ok f q) : q.ahead <:+ items p.stream ∧ q.Ready := by
  have hlt := remaining_form_lt hp hc h
  have hgoes := onward_form t p
  rw [h] at hgoes
  rcases hgoes with ⟨hs, hcur, -⟩ | hm
  -- had the cursor not moved, as much would remain as before
  · rw [remaining, remaining, hs, hcur] at hlt
    exact absurd hlt (Nat.lt_irrefl _)
  · exact hm

/-! ### Between forms -/

omit [Final σ] in
/-- Once the end is read, a parser that is ready has nothing ahead. -/
theorem Ready.ahead_eq_nil {p : Parser σ} (h : p.Ready) (hp : p.primed = true)
    (hc : p.current = .eof) : p.ahead = [] := by
  rw [ahead_of_eof hc, h.ended hp hc]

/-- Where a move succeeds there is no malformed lexeme right ahead. -/
theorem takeWhile_of_advance {p q : Parser σ} (h : advance p = .ok () q) :
    (items p.stream).takeWhile Item.isMalformed = [] := by
  obtain ⟨ha, hr⟩ := ahead_advance h
  rw [← ha]
  by_cases hc : q.current = .eof
  · rw [hr.ahead_eq_nil (primed_of_advance h) hc]
    rfl
  · rw [ahead_of_ne hc]
    rfl

/-- **Resuming ends on a token.**  It passes the malformed lexemes ahead and no more. -/
theorem ahead_resume (p : Parser σ) :
    (resume p).ahead = (items p.stream).dropWhile Item.isMalformed ∧ (resume p).Ready := by
  fun_induction resume p with
  | case1 p u q h =>
      obtain ⟨ha, hr⟩ := ahead_advance h
      have hsplit := List.takeWhile_append_dropWhile (p := Item.isMalformed) (l := items p.stream)
      rw [takeWhile_of_advance h, List.nil_append] at hsplit
      exact ⟨ha.trans hsplit.symm, hr⟩
  | case2 p e q h ih =>
      obtain ⟨x, -, hx⟩ := ahead_advance_error h
      rw [hx]
      exact ih

theorem ahead_peek {p : Parser σ} (hp : p.Ready) :
    match peek p with
    | .ok t q => q.ahead = p.ahead ∧ q.Ready ∧ q.primed = true ∧ t = q.current
    | .error e q => ∃ x, e = .lex x ∧ p.ahead = .malformed x :: items q.stream := by
  cases hpr : p.primed with
  | true =>
      rw [peek_of_primed hpr]
      exact ⟨rfl, hp, hpr, rfl⟩
  | false =>
      rw [peek_of_not_primed hpr, ahead_of_eof (hp.unread hpr)]
      simp only [next, bind, EStateM.bind]
      cases h : advance p with
      | error e q => exact ahead_advance_error h
      | ok u q =>
          obtain ⟨ha, hr⟩ := ahead_advance h
          exact ⟨ha, hr, primed_of_advance h, rfl⟩

/-- On the way to a form nothing is passed but semicolons, and it ends at a malformed lexeme, at the
token that begins the form, or at the end. -/
theorem ahead_toForm {p : Parser σ} (hp : p.Ready) :
    match toForm p with
    | .ok t q => (∃ k, p.ahead = List.replicate k (.token (.char ';')) ++ q.ahead) ∧ q.Ready ∧
        q.primed = true ∧ t = q.current ∧ t ≠ .char ';'
    | .error e q => ∃ k x, e = .lex x ∧ p.ahead =
        List.replicate k (.token (.char ';')) ++ .malformed x :: items q.stream := by
  have hpeek := ahead_peek hp
  fun_induction toForm p with
  | case1 p e q h =>
      rw [h] at hpeek
      obtain ⟨x, he, hx⟩ := hpeek
      exact ⟨0, x, he, hx⟩
  | case2 p q e r ha h =>
      rw [h] at hpeek
      obtain ⟨hq, -, -, hc⟩ := hpeek
      obtain ⟨x, he, hx⟩ := ahead_advance_error ha
      refine ⟨1, x, he, ?_⟩
      rw [← hq, ahead_of_ne (by simp [← hc]), ← hc, hx]
      rfl
  | case3 p q u r ha h ih =>
      rw [h] at hpeek
      obtain ⟨hq, -, -, hc⟩ := hpeek
      obtain ⟨hr, hready⟩ := ahead_advance ha
      have hsemi : p.ahead = .token (.char ';') :: r.ahead := by
        rw [← hq, ahead_of_ne (by simp [← hc]), ← hc, hr]
      have hrest := ih hready (ahead_peek hready)
      rw [hsemi]
      cases hf : toForm r with
      | error e q' =>
          rw [hf] at hrest
          obtain ⟨k, x, he, hk⟩ := hrest
          exact ⟨k + 1, x, he, by rw [hk]; rfl⟩
      | ok t q' =>
          rw [hf] at hrest
          obtain ⟨⟨k, hk⟩, hrest⟩ := hrest
          exact ⟨⟨k + 1, by rw [hk]; rfl⟩, hrest⟩
  | case4 p t q h ht =>
      rw [h] at hpeek
      obtain ⟨hq, hready, hpr, hc⟩ := hpeek
      exact ⟨⟨0, hq.symm⟩, hready, hpr, hc, ht⟩

end Parser

end Reckon
