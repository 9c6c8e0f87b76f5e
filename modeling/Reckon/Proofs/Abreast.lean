import Reckon.Proofs.Ahead
import Reckon.Proofs.Descent

/-!
# Proofs — Abreast

Two parsers side by side.  They stand on the same token and have the same items behind it, but where
the items of the one are at an end the other has a `tail` (`Parser.Abreast`).  The tail begins with
nothing that a complete form goes on with, so the two come to the same results up to the last token
before it.  Reading that token's successor the one finds the end of its input, and the other the
head of the tail: it is beyond (`Parser.Beyond`), or it is cut off by a malformed lexeme.

* `Parser.sim_form`: the two parse the same form, unless the second is cut off.
* `Parser.arrives_toForm`: the two come to the same form, unless the first one is at its end.
* `Parser.abreast_resume`: without a tail they are abreast again after an error.

The streams may be of different kinds.  With an empty tail this says that a parser does what its
items say, wherever they come from.
-/

namespace Reckon

open ItemStream (Final items items_eq_nil items_eq_cons)

/-- No complete form goes on with the token: it is no operator, it opens no arguments, and it names
nothing. -/
structure Operators.Ends (ops : Operators) (t : Token) : Prop where
  find? : ops.find? t = none
  ne_open : t ≠ .char '('
  ne_ident (x : String) : t ≠ .ident x

/-- A table of operators, and items that follow where those of a text are at an end.  If they begin
with a token, no complete form goes on with it. -/
structure Tail where
  operators : Operators
  items : List Item
  ends (t : Token) (rest : List Item) : items = .token t :: rest → operators.Ends t

/-- The tail without items. -/
def Tail.nil (ops : Operators) : Tail := ⟨ops, [], nofun⟩

namespace Machine

/-- Where the end of the input ends an expression, so does a token that no complete form goes on
with. -/
theorem step_of_ends {m : Machine} {ops : Operators} {t : Token} {e : Expr}
    (h : m.step ops .eof = .done e) (ht : ops.Ends t) : m.step ops t = .done e := by
  have hend : ∀ e' os fs, endOperand ops e' os fs .eof = .done e →
      endOperand ops e' os fs t = .done e := by
    intro e' os fs h
    simp only [endOperand, ht.find?]
    cases fs with
    | nil => exact h
    | cons frame fs =>
        obtain ⟨bracket, outside⟩ := frame
        cases bracket with
        | group => cases h
        | arguments callee read => cases h
  unfold step at h ⊢
  split at h
  · exact absurd h (beginOperand_ne_done _ _ _ _)
  · rw [if_neg ht.ne_open]
    exact hend _ _ _ (by simpa using h)
  · exact absurd h (by simpa using beginOperand_ne_done _ _ _ _)
  · exact hend _ _ _ h

end Machine

namespace Parser

/-! ### What a move finds -/

section Move

variable {σ : Type} [ItemStream σ] {p : Parser σ} {rest : List Item}

/-- The cursor is moved to the token, with these items behind it. -/
structure MovesTo (p : Parser σ) (t : Token) (rest : List Item) (q : Parser σ) : Prop where
  operators : q.operators = p.operators
  current : q.current = t
  primed : q.primed = true
  items : items q.stream = rest

theorem advance_of_token {t : Token} (h : items p.stream = .token t :: rest) :
    ∃ q, advance p = .ok () q ∧ MovesTo p t rest q ∧ t ≠ .eof := by
  have hne : (ItemStream.next p.stream).item ≠ .eof := fun he => by
    rw [items_eq_nil he] at h
    cases h
  rw [items_eq_cons hne] at h
  obtain ⟨hi, hrest⟩ := List.cons.inj h
  simp only [advance, hi]
  refine ⟨_, rfl, ⟨rfl, rfl, rfl, hrest⟩, ?_⟩
  rintro rfl
  exact hne hi

theorem advance_of_malformed {x : LexError} (h : items p.stream = .malformed x :: rest) :
    ∃ q, advance p = .error (.lex x) q ∧ q.operators = p.operators ∧ items q.stream = rest := by
  have hne : (ItemStream.next p.stream).item ≠ .eof := fun he => by
    rw [items_eq_nil he] at h
    cases h
  rw [items_eq_cons hne] at h
  obtain ⟨hi, hrest⟩ := List.cons.inj h
  simp only [advance, hi]
  exact ⟨_, rfl, rfl, hrest⟩

theorem advance_of_nil [Final σ] (h : items p.stream = []) :
    ∃ q, advance p = .ok () q ∧ MovesTo p .eof [] q := by
  have hi : (ItemStream.next p.stream).item = .eof := Decidable.byContradiction fun hne => by
    rw [items_eq_cons hne] at h
    cases h
  simp only [advance, hi]
  exact ⟨_, rfl, rfl, rfl, rfl, Final.items_of_eof _ hi⟩

end Move

/-! ### Work on a token that has been read -/

section Equations

variable {σ : Type} [ItemStream σ] {p : Parser σ}

theorem bind_of_primed {α : Type} (hp : p.primed = true) (f : Token → ParseM σ α) :
    (peek >>= f) p = f p.current p := by
  simp only [bind, EStateM.bind, peek_of_primed hp]

theorem next_bind {α : Type} (f : Token → ParseM σ α) :
    next >>= f = advance >>= fun _ => get >>= fun s => f s.current := by
  simp [next]

theorem parameters_eq (read : List String) (p : Parser σ) :
    parameters read p = match advance p with
      | .error e q => .error e q
      | .ok _ q => match q.current with
        | .ident x => parameters (x :: read) q
        | _ => .ok read.reverse q := by
  fun_cases parameters read p with
  | case1 e q h => rw [h]
  | case2 u q h x hx => simp only [h, hx]
  | case3 u q h hx =>
      rw [h]
      dsimp only
      split
      · next x hq => exact absurd hq (hx x)
      · rfl

/-- The token under the cursor has to be the one that is wanted, and then work goes on. -/
def expect {α : Type} (wanted : Token) (error : Token → ParseError) (m : ParseM σ α) :
    ParseM σ α := do
  require wanted error (← get).current
  m

omit [ItemStream σ] in
theorem expect_eq {α : Type} {wanted : Token} {error : Token → ParseError} {m : ParseM σ α} :
    expect wanted error m p =
      if p.current = wanted then m p else .error (error p.current) p := by
  show (require wanted error p.current >>= fun _ => m : ParseM σ α) p = _
  rw [require]
  split
  · rfl
  · rfl

theorem prototype_of_ident {name : String} (hp : p.primed = true) (hc : p.current = .ident name) :
    prototype p =
      (advance >>= fun _ => expect (.char '(') .expectedPrototypeOpen
        (parameters [] >>= fun params => expect (.char ')') .expectedPrototypeClose
          (advance >>= fun _ => pure { name, params })) : ParseM σ Prototype) p := by
  rw [prototype, bind_of_primed hp, hc]
  dsimp only
  rw [next_bind]
  rfl

theorem prototype_of_ne (hp : p.primed = true) (hc : ∀ name, p.current ≠ .ident name) :
    prototype p = .error (.expectedFunctionName p.current) p := by
  rw [prototype, bind_of_primed hp]
  cases h : p.current with
  | ident name => exact absurd h (hc name)
  | _ => rfl

theorem expression_of_primed (hp : p.primed = true) : expression p = ({} : Machine).run p :=
  bind_of_primed hp _

theorem resume_eq (p : Parser σ) :
    resume p = match advance p with
      | .ok _ q => q
      | .error e q => resume (q.note (.skipped e)) := by
  fun_cases resume p with
  | case1 u q h => rw [h]
  | case2 e q h => rw [h]

theorem toForm_eq (p : Parser σ) :
    toForm p = match peek p with
      | .error e q => .error e q
      | .ok t q => if t = .char ';' then
          match advance q with
          | .error e r => .error e r
          | .ok _ r => toForm r
        else .ok t q := by
  fun_cases toForm p with
  | case1 e q h => rw [h]
  | case2 q e r ha h => simp only [h, ha, if_true]
  | case3 q u r ha h => simp only [h, ha, if_true]
  | case4 t q h ht => simp only [h, ht, if_false]

theorem toForm_of_primed (hp : p.primed = true) :
    toForm p = if p.current = .char ';' then
        match advance p with
        | .error e q => .error e q
        | .ok _ q => toForm q
      else .ok p.current p := by
  rw [toForm_eq, peek_of_primed hp]

/-- A parser that has read nothing is on its way to a form as if it stood on a semicolon. -/
theorem toForm_of_not_primed (hp : p.primed = false) :
    toForm p = toForm { p with current := .char ';', primed := true } := by
  rw [toForm_of_primed (p := { p with current := .char ';', primed := true }) rfl, if_pos rfl]
  show toForm p = match advance p with
    | .error e q => .error e q
    | .ok _ q => toForm q
  have hpeek := peek_of_not_primed hp
  simp only [next, bind, EStateM.bind] at hpeek
  cases ha : advance p with
  | error e q =>
      rw [ha] at hpeek
      rw [toForm_eq, hpeek]
  | ok u q =>
      rw [ha] at hpeek
      have hpq : peek p = peek q := hpeek.trans (peek_of_primed (primed_of_advance ha)).symm
      show toForm p = toForm q
      rw [toForm_eq p, toForm_eq q, hpq]

end Equations

/-! ### Two parsers -/

section Relations

variable {σ τ : Type} [ItemStream σ] [ItemStream τ]

/-- The end of the input has been read. -/
structure AtEnd (p : Parser σ) : Prop where
  current : p.current = .eof
  primed : p.primed = true
  items : items p.stream = []

/-- Behind their cursors both have the same items, and then `q` has those of the tail. -/
structure Alongside (tail : Tail) (p : Parser σ) (q : Parser τ) : Prop where
  operators : p.operators = tail.operators
  operators' : q.operators = tail.operators
  items : items q.stream = items p.stream ++ tail.items

/-- The cursors stand on the same token besides. -/
structure Abreast (tail : Tail) (p : Parser σ) (q : Parser τ) : Prop extends
    Alongside tail p q where
  current : q.current = p.current
  primed : p.primed = true
  primed' : q.primed = true
  ended : p.current = .eof → ItemStream.items p.stream = [] ∧ tail.items = []

/-- Where `p` is at the end, `q` is at the head of the tail. -/
structure Beyond (tail : Tail) (p : Parser σ) (q : Parser τ) : Prop where
  operators : p.operators = tail.operators
  operators' : q.operators = tail.operators
  atEnd : p.AtEnd
  primed' : q.primed = true
  ne_eof : q.current ≠ .eof
  items : tail.items = .token q.current :: items q.stream

/-- What the same work makes of two parsers that were abreast. -/
inductive Sim {α : Type} (tail : Tail) : EStateM.Result ParseError (Parser σ) α →
    EStateM.Result ParseError (Parser τ) α → Prop where
  | abreast {a : α} {p : Parser σ} {q : Parser τ} (h : Abreast tail p q) :
      Sim tail (.ok a p) (.ok a q)
  | beyond {a : α} {p : Parser σ} {q : Parser τ} (h : Beyond tail p q) :
      Sim tail (.ok a p) (.ok a q)
  /-- `p` has come to a result at its end, where `q` meets a malformed lexeme -/
  | cut {a : α} {p : Parser σ} {q : Parser τ} {x : LexError} (hp : p.AtEnd)
      (ht : tail.items = .malformed x :: items q.stream) : Sim tail (.ok a p) (.error (.lex x) q)
  | fail {e : ParseError} {p : Parser σ} {q : Parser τ} (h : Alongside tail p q) :
      Sim tail (.error e p) (.error e q)
  /-- `p` has failed at its end, where `q` has more to read and may do anything -/
  | spent {e : ParseError} {p : Parser σ} {r : EStateM.Result ParseError (Parser τ) α}
      (hp : p.AtEnd) (ht : tail.items ≠ []) : Sim tail (.error e p) r

variable {tail : Tail} {p : Parser σ} {q : Parser τ}

theorem AtEnd.ahead_eq (hp : p.AtEnd) : p.ahead = [] := by
  rw [ahead_of_eof hp.current, hp.items]

theorem AtEnd.toForm_eq (hp : p.AtEnd) : toForm p = .ok .eof p := by
  rw [toForm_of_primed hp.primed, hp.current, if_neg (by simp)]

theorem Abreast.operators_eq (h : Abreast tail p q) : q.operators = p.operators :=
  h.operators'.trans h.operators.symm

theorem Beyond.items_ne_nil (h : Beyond tail p q) : tail.items ≠ [] := by
  rw [h.items]
  exact List.cons_ne_nil _ _

theorem MovesTo.abreast {t : Token} {rest : List Item} {p' : Parser σ} {q' : Parser τ}
    (hp : MovesTo p t rest p') (hq : MovesTo q t (rest ++ tail.items) q')
    (h : Alongside tail p q) (he : t = .eof → rest = [] ∧ tail.items = []) :
    Abreast tail p' q' where
  operators := hp.operators.trans h.operators
  operators' := hq.operators.trans h.operators'
  current := hq.current.trans hp.current.symm
  primed := hp.primed
  primed' := hq.primed
  items := by rw [hq.items, hp.items]
  ended h := by rw [hp.items]; exact he (hp.current.symm.trans h)

end Relations

/-! ### Work side by side -/

section Work

variable {σ τ : Type} [ItemStream σ] [ItemStream τ] {α β : Type} {tail : Tail}
  {p : Parser σ} {q : Parser τ} {m : ParseM σ α} {m' : ParseM τ α}

/-- Work that leaves the cursor where it is and gives what `g` says. -/
def Quiet {σ : Type} (f : α → ParseM σ β) (g : α → β) : Prop :=
  ∀ a p, ∃ journal, f a p = .ok (g a) { p with journal }

theorem quiet_pure {σ : Type} (g : α → β) : Quiet (σ := σ) (fun a => pure (g a)) g :=
  fun _ p => ⟨p.journal, rfl⟩

theorem quiet_note {σ : Type} (event : α → Event) (g : α → Form) :
    Quiet (σ := σ) (fun a => do modify (·.note (event a)); return g a) g :=
  fun _ p => ⟨(p.note _).journal, rfl⟩

theorem Sim.bind_quiet {f : α → ParseM σ β} {f' : α → ParseM τ β} {g : α → β}
    (h : Sim tail (m p) (m' q)) (hf : Quiet f g) (hf' : Quiet f' g) :
    Sim tail ((m >>= f) p) ((m' >>= f') q) := by
  simp only [bind, EStateM.bind]
  generalize m p = r at h
  generalize m' q = r' at h
  cases h with
  | @abreast a p q h =>
      obtain ⟨j, hj⟩ := hf a p
      obtain ⟨j', hj'⟩ := hf' a q
      simp only [hj, hj']
      exact .abreast { h with }
  | @beyond a p q h =>
      obtain ⟨j, hj⟩ := hf a p
      obtain ⟨j', hj'⟩ := hf' a q
      simp only [hj, hj']
      exact .beyond { h with atEnd := { h.atEnd with } }
  | @cut a p q x hp ht =>
      obtain ⟨j, hj⟩ := hf a p
      simp only [hj]
      exact .cut { hp with } ht
  | fail h => exact .fail h
  | spent hp ht => exact .spent hp ht

/-- Work that asks for more than the end of the input. -/
def Demands (m : ParseM σ α) : Prop := ∀ p : Parser σ, p.AtEnd → ∃ e, m p = .error e p

/-- Work that demands something fails with whatever follows it. -/
theorem Demands.bind {f : α → ParseM σ β} (h : Demands m) : Demands (m >>= f) := by
  intro p hp
  obtain ⟨e, he⟩ := h p hp
  exact ⟨e, by simp only [Bind.bind, EStateM.bind, he]⟩

theorem Sim.bind {f : α → ParseM σ β} {f' : α → ParseM τ β} (h : Sim tail (m p) (m' q))
    (hf : ∀ a p q, Abreast tail p q → Sim tail (f a p) (f' a q)) (hd : ∀ a, Demands (f a)) :
    Sim tail ((m >>= f) p) ((m' >>= f') q) := by
  simp only [Bind.bind, EStateM.bind]
  generalize m p = r at h
  generalize m' q = r' at h
  cases h with
  | abreast h => exact hf _ _ _ h
  | @beyond a p q h =>
      obtain ⟨e, he⟩ := hd a p h.atEnd
      simp only [he]
      exact .spent h.atEnd h.items_ne_nil
  | @cut a p q x hp ht =>
      obtain ⟨e, he⟩ := hd a p hp
      simp only [he]
      exact .spent hp (by simp [ht])
  | fail h => exact .fail h
  | spent hp ht => exact .spent hp ht

theorem demands_expect {wanted : Token} {error : Token → ParseError} (hw : wanted ≠ .eof)
    (m : ParseM σ α) : Demands (expect wanted error m) := by
  intro p hp
  exact ⟨_, expect_eq.trans (if_neg (hp.current ▸ hw.symm))⟩

theorem sim_expect {wanted : Token} {error : Token → ParseError} {m : ParseM σ α}
    {m' : ParseM τ α} (h : Abreast tail p q) (hm : Sim tail (m p) (m' q)) :
    Sim tail (expect wanted error m p) (expect wanted error m' q) := by
  rw [expect_eq, expect_eq, h.current]
  split
  · exact hm
  · exact .fail h.toAlongside

theorem demands_prototype : Demands (σ := σ) prototype := by
  intro p hp
  have h := prototype_of_ne hp.primed (by simp [hp.current])
  exact ⟨_, h⟩

/-- At the end of the input the machine takes nothing. -/
theorem run_of_atEnd (m : Machine) (hp : p.AtEnd) :
    (∃ e, m.step p.operators .eof = .done e ∧ m.run p = .ok e p) ∨ ∃ e, m.run p = .error e p := by
  cases hs : m.step p.operators .eof with
  | done e => exact .inl ⟨e, rfl, Machine.run_of_done (hp.current ▸ hs)⟩
  | fail e => exact .inr ⟨e, Machine.run_of_fail (hp.current ▸ hs)⟩
  | shift m' => exact absurd rfl (Machine.ne_eof_of_shift hs)

theorem sim_run_beyond (m : Machine) (h : Beyond tail p q) : Sim tail (m.run p) (m.run q) := by
  rcases run_of_atEnd m h.atEnd with ⟨e, hs, hp⟩ | ⟨e, hp⟩
  · have hq : m.step q.operators q.current = .done e := by
      rw [h.operators] at hs
      rw [h.operators']
      exact Machine.step_of_ends hs (tail.ends _ _ h.items)
    rw [hp, Machine.run_of_done hq]
    exact .beyond h
  · rw [hp]
    exact .spent h.atEnd h.items_ne_nil

theorem demands_expression : Demands (σ := σ) expression := by
  intro p hp
  rw [expression_of_primed hp.primed]
  rcases run_of_atEnd {} hp with ⟨e, hs, -⟩ | h
  · exact absurd hs (step_start_ne_done _ _ _)
  · exact h

end Work

/-! ### One item after the other -/

section Parts

variable {σ τ : Type} [ItemStream σ] [ItemStream τ] [Final σ] [Final τ] {tail : Tail}
  {p : Parser σ} {q : Parser τ}

/-- **One move.**  What it finds depends on the items behind the cursors alone. -/
theorem sim_advance (h : Alongside tail p q) : Sim tail (advance p) (advance q) := by
  have hi := h.items
  match hp : items p.stream with
  | .token t :: rest =>
      rw [hp, List.cons_append] at hi
      obtain ⟨p', hp', mp, hne⟩ := advance_of_token hp
      obtain ⟨q', hq', mq, -⟩ := advance_of_token hi
      rw [hp', hq']
      exact .abreast (mp.abreast mq h fun he => absurd he hne)
  | .malformed x :: rest =>
      rw [hp, List.cons_append] at hi
      obtain ⟨p', hp', op, ip⟩ := advance_of_malformed hp
      obtain ⟨q', hq', oq, iq⟩ := advance_of_malformed hi
      rw [hp', hq']
      exact .fail ⟨op.trans h.operators, oq.trans h.operators', by rw [iq, ip]⟩
  | [] =>
      -- `p` comes to its end, and `q` to whatever the tail begins with
      rw [hp, List.nil_append] at hi
      obtain ⟨p', hp', mp⟩ := advance_of_nil hp
      have hend : p'.AtEnd := ⟨mp.current, mp.primed, mp.items⟩
      rw [hp']
      match htail : tail.items with
      | [] =>
          rw [htail] at hi
          obtain ⟨q', hq', mq⟩ := advance_of_nil hi
          rw [← htail] at mq
          rw [hq']
          exact .abreast (mp.abreast mq h fun _ => ⟨rfl, htail⟩)
      | .token t :: rest =>
          obtain ⟨q', hq', mq, hne⟩ := advance_of_token (hi.trans htail)
          rw [hq']
          exact .beyond {
            operators := mp.operators.trans h.operators
            operators' := mq.operators.trans h.operators'
            atEnd := hend
            primed' := mq.primed
            ne_eof := mq.current ▸ hne
            items := by rw [htail, mq.current, mq.items] }
      | .malformed x :: rest =>
          obtain ⟨q', hq', -, iq⟩ := advance_of_malformed (hi.trans htail)
          rw [hq']
          exact .cut hend (by rw [htail, iq])

theorem sim_take (h : Abreast tail p q) : Sim tail (take p) (take q) := by
  have hp : take p = (advance >>= fun _ => pure p.current : ParseM σ Token) p := by
    simp only [take, bind, EStateM.bind, peek_of_primed h.primed]
  have hq : take q = (advance >>= fun _ => pure p.current : ParseM τ Token) q := by
    simp only [take, bind, EStateM.bind, peek_of_primed h.primed', h.current]
  rw [hp, hq]
  exact (sim_advance h.toAlongside).bind_quiet (quiet_pure _) (quiet_pure _)

/-! ### Prototypes -/

theorem sim_parameters (read : List String) (h : Abreast tail p q) :
    Sim tail (parameters read p) (parameters read q) := by
  have hadv := sim_advance h.toAlongside
  fun_induction parameters read p generalizing q with
  | case1 read p e p' hp =>
      rw [hp] at hadv
      rw [parameters_eq read q]
      generalize advance q = r at hadv
      cases hadv with
      | fail h => exact .fail h
      | spent hp ht => exact .spent hp ht
  | case2 read p u p' hp x hx ih =>
      rw [hp] at hadv
      rw [parameters_eq read q]
      generalize advance q = r at hadv
      cases hadv with
      | abreast h =>
          simp only [h.current, hx]
          exact ih h (sim_advance h.toAlongside)
      | beyond h => cases h.atEnd.current.symm.trans hx
      | cut hend ht => cases hend.current.symm.trans hx
  | case3 read p u p' hp hx =>
      rw [hp] at hadv
      rw [parameters_eq read q]
      generalize advance q = r at hadv
      cases hadv with
      | @abreast a p q h =>
          dsimp only
          split
          · next x hq => exact absurd (h.current.symm.trans hq) (hx x)
          · exact .abreast h
      | @beyond a p q h =>
          dsimp only
          split
          · next x hq => exact absurd hq ((tail.ends _ _ h.items).ne_ident x)
          · exact .beyond h
      | cut hend ht => exact .cut hend ht

theorem sim_prototype (h : Abreast tail p q) : Sim tail (prototype p) (prototype q) := by
  by_cases hc : ∃ name, p.current = .ident name
  · obtain ⟨name, hc⟩ := hc
    rw [prototype_of_ident h.primed hc, prototype_of_ident h.primed' (h.current.trans hc)]
    refine (sim_advance h.toAlongside).bind (fun _ p q h => sim_expect h ?_) fun _ =>
      demands_expect (by simp) _
    refine (sim_parameters [] h).bind (fun params p q h => sim_expect h ?_) fun _ =>
      demands_expect (by simp) _
    exact (sim_advance h.toAlongside).bind_quiet (quiet_pure _) (quiet_pure _)
  · have hp := prototype_of_ne h.primed fun name h => hc ⟨name, h⟩
    have hq := prototype_of_ne h.primed' fun name h' => hc ⟨name, h.current.symm.trans h'⟩
    rw [hp, hq, h.current]
    exact .fail h.toAlongside

/-! ### Expressions and forms -/

theorem sim_run (m : Machine) (h : Abreast tail p q) : Sim tail (m.run p) (m.run q) := by
  fun_induction Machine.run m p generalizing q with
  | case1 m p e hs =>
      rw [Machine.run_of_done (by rw [h.operators_eq, h.current]; exact hs)]
      exact .abreast h
  | case2 m p e hs =>
      rw [Machine.run_of_fail (by rw [h.operators_eq, h.current]; exact hs)]
      exact .fail h.toAlongside
  | case3 m p m' hs u p' ha ih =>
      have hadv := sim_advance h.toAlongside
      have hs' : m.step q.operators q.current = .shift m' := by rw [h.operators_eq, h.current, hs]
      rw [ha] at hadv
      rw [Machine.run_eq m q, hs']
      generalize advance q = r at hadv
      cases hadv with
      | abreast h => exact ih h
      | beyond h => exact sim_run_beyond m' h
      | cut hend ht =>
          rcases run_of_atEnd m' hend with ⟨e, -, hp⟩ | ⟨e, hp⟩
          · rw [hp]
            exact .cut hend ht
          · rw [hp]
            exact .spent hend (by simp [ht])
  | case4 m p m' hs e p' ha =>
      have hadv := sim_advance h.toAlongside
      have hs' : m.step q.operators q.current = .shift m' := by rw [h.operators_eq, h.current, hs]
      rw [ha] at hadv
      rw [Machine.run_eq m q, hs']
      generalize advance q = r at hadv
      cases hadv with
      | fail h => exact .fail h
      | spent hend ht => exact .spent hend ht

theorem sim_expression (h : Abreast tail p q) : Sim tail (expression p) (expression q) := by
  rw [expression_of_primed h.primed, expression_of_primed h.primed']
  exact sim_run {} h

/-- **Parsers that are abreast parse the same form.** -/
theorem sim_form (t : Token) (h : Abreast tail p q) : Sim tail (form t p) (form t q) := by
  unfold form
  split
  · refine (sim_take h).bind (fun _ p q h => ?_) fun _ => demands_prototype.bind
    refine (sim_prototype h).bind (fun P p q h => ?_) fun _ => demands_expression.bind
    exact (sim_expression h).bind_quiet (quiet_note _ _) (quiet_note _ _)
  · refine (sim_take h).bind (fun _ p q h => ?_) fun _ => demands_prototype.bind
    exact (sim_prototype h).bind_quiet (quiet_note _ _) (quiet_note _ _)
  · exact (sim_expression h).bind_quiet (quiet_note _ _) (quiet_note _ _)

/-! ### Between forms -/

/-- Resuming brings parsers abreast that have the same items. -/
theorem abreast_resume (hnil : tail.items = []) (h : Alongside tail p q) :
    Abreast tail (resume p) (resume q) := by
  fun_induction resume p generalizing q with
  | case1 p u p' ha =>
      have hadv := sim_advance h
      rw [ha] at hadv
      rw [resume_eq q]
      generalize advance q = r at hadv
      cases hadv with
      | abreast h => exact h
      | beyond h => exact absurd hnil h.items_ne_nil
      | cut hend ht => cases hnil.symm.trans ht
  | case2 p e p' ha ih =>
      have hadv := sim_advance h
      rw [ha] at hadv
      rw [resume_eq q]
      generalize advance q = r at hadv
      cases hadv with
      | fail h => exact ih { h with }
      | spent hend ht => exact absurd hnil ht

/-- Where the way to the next form leads two parsers that were abreast. -/
inductive Arrives (tail : Tail) : EStateM.Result ParseError (Parser σ) Token →
    EStateM.Result ParseError (Parser τ) Token → Prop where
  | abreast {p : Parser σ} {q : Parser τ} (h : Abreast tail p q) :
      Arrives tail (.ok p.current p) (.ok p.current q)
  | beyond {p : Parser σ} {q : Parser τ} (h : Beyond tail p q) :
      Arrives tail (.ok .eof p) (toForm q)
  | cut {p : Parser σ} {q : Parser τ} {x : LexError} (hp : p.AtEnd)
      (ht : tail.items = .malformed x :: items q.stream) :
      Arrives tail (.ok .eof p) (.error (.lex x) q)
  | fail {e : ParseError} {p : Parser σ} {q : Parser τ} (h : Alongside tail p q) :
      Arrives tail (.error e p) (.error e q)
  | spent {e : ParseError} {p : Parser σ} {r : EStateM.Result ParseError (Parser τ) Token}
      (hp : p.AtEnd) (ht : tail.items ≠ []) : Arrives tail (.error e p) r

/-- **Parsers that are abreast come to the same form**, unless `q` goes on behind the end of `p`. -/
theorem arrives_toForm (h : Abreast tail p q) : Arrives tail (toForm p) (toForm q) := by
  have hadv := sim_advance h.toAlongside
  have hpeek := peek_of_primed h.primed
  fun_induction toForm p generalizing q with
  | case1 p e p' hp => rw [hp] at hpeek; cases hpeek
  | case2 p p' e r ha hp =>
      obtain ⟨hc, rfl⟩ := EStateM.Result.ok.inj (hp.symm.trans hpeek)
      rw [ha] at hadv
      rw [toForm_of_primed h.primed', h.current, if_pos hc.symm]
      generalize advance q = r at hadv
      cases hadv with
      | fail h => exact .fail h
      | spent hend ht => exact .spent hend ht
  | case3 p p' u r ha hp ih =>
      obtain ⟨hc, rfl⟩ := EStateM.Result.ok.inj (hp.symm.trans hpeek)
      rw [ha] at hadv
      rw [toForm_of_primed h.primed', h.current, if_pos hc.symm]
      generalize advance q = r at hadv
      cases hadv with
      | abreast h => exact ih h (sim_advance h.toAlongside) (peek_of_primed h.primed)
      | beyond h =>
          rw [h.atEnd.toForm_eq]
          exact .beyond h
      | cut hend ht =>
          rw [hend.toForm_eq]
          exact .cut hend ht
  | case4 p t p' hp ht =>
      obtain ⟨rfl, rfl⟩ := EStateM.Result.ok.inj (hp.symm.trans hpeek)
      rw [toForm_of_primed h.primed', h.current, if_neg ht]
      exact .abreast h

end Parts

end Parser

end Reckon
