import Reckon.Proofs.Ahead
import Reckon.Session

/-!
# Proofs — Ending

A session comes to its end and not before.  A step of a session whose parser is ready takes at
least one item, or ends with nothing but semicolons ahead (`Session.step_stepped`); either way the
parser is ready for the next one.  So every state of a session that is begun afresh is ready, and
`Session.run_ends` says of it when a step finds no form and how many forms a run reports.
-/

namespace Reckon

/-- The next form, if there is one. -/
def Parser.nextForm {σ : Type} [ItemStream σ] : ParseM σ (Option Form) := do
  let t ← toForm
  if t = .eof then return none
  return some (← form t)

namespace Session

open ItemStream (Final items)

variable {σ : Type} [ItemStream σ]

/-- The item is a semicolon. -/
def Semicolon (item : Item) : Prop := item = .token (.char ';')

/-- What a step does to the items ahead. -/
inductive Stepped (s : Session σ) : Option Outcome × Session σ → Prop where
  | ended {s' : Session σ} (h : ∀ item ∈ s.parser.ahead, Semicolon item)
      (hs : s'.parser.ahead = []) (hr : s'.parser.Ready) : Stepped s (none, s')
  | took {o : Outcome} {s' : Session σ} {item : Item} (hm : item ∈ s.parser.ahead)
      (hi : ¬ Semicolon item) (hlt : s'.parser.ahead.length < s.parser.ahead.length)
      (hr : s'.parser.Ready) : Stepped s (some o, s')

omit [ItemStream σ] in
/-- Generating code leaves the cursor where it is. -/
theorem still_settle (form : Form) (p : Parser σ) (g : Generator) :
    Parser.Still p (settle form p g).2.parser := by
  rw [settle]
  cases Generator.generate form g with
  | ok function g => exact Parser.still_noteAll _ _
  | error e g => exact Parser.still_noteAll _ _

/-- A step looks for the next form; it recovers if that fails, and generates the form it finds. -/
theorem step_eq_nextForm (s : Session σ) :
    s.step = match s.hush.parser.nextForm with
      | .error e p => (some (.error (.parse e)), ⟨p.recover e, s.generator⟩)
      | .ok none p => (none, ⟨p, s.generator⟩)
      | .ok (some form) p =>
          (some (settle form p s.generator).1, (settle form p s.generator).2) := by
  rw [step, Parser.nextForm]
  simp only [bind, EStateM.bind]
  cases s.hush.parser.toForm with
  | error e p => rfl
  | ok t p =>
      cases t with
      | eof => rfl
      | _ =>
          simp only [reduceCtorEq, if_false, EStateM.bind]
          cases Parser.form _ p with
          | error e q => rfl
          | ok form q => rfl

/-- The session after so many steps. -/
def after (s : Session σ) : Nat → Session σ
  | 0 => s
  | n + 1 => (s.after n).step.2

theorem after_step (s : Session σ) (n : Nat) : s.step.2.after n = s.after (n + 1) := by
  induction n with
  | zero => rfl
  | succ n ih => rw [after, ih]; rfl

variable [Final σ]

/-- Recovering passes the malformed lexemes ahead, and then stands on a token. -/
theorem ahead_recover (e : ParseError) (p : Parser σ) :
    (p.recover e).ahead = (items p.stream).dropWhile Item.isMalformed ∧ (p.recover e).Ready :=
  Parser.ahead_resume (p.note (.recovering e))

theorem length_ahead_recover_le (e : ParseError) (p : Parser σ) :
    (p.recover e).ahead.length ≤ (items p.stream).length := by
  rw [(ahead_recover e p).1]
  exact (List.dropWhile_suffix _).length_le

/-- **A step takes an item, or all that is ahead are semicolons.** -/
theorem step_stepped {s : Session σ} (hs : s.parser.Ready) : Stepped s s.step := by
  have hto := Parser.ahead_toForm (p := s.hush.parser) ⟨hs.ended, hs.unread⟩
  have hahead : s.hush.parser.ahead = s.parser.ahead := rfl
  rw [hahead] at hto
  unfold step
  split
  · next e p ht =>
      rw [ht] at hto
      obtain ⟨k, x, -, hk⟩ := hto
      have hle := length_ahead_recover_le e p
      have hlen := congrArg List.length hk
      rw [List.length_append, List.length_cons] at hlen
      have hm : Item.malformed x ∈ s.parser.ahead := by simp [hk]
      exact .took hm (by simp [Semicolon]) (by show (p.recover e).ahead.length < _; omega)
        (ahead_recover e p).2
  · next p ht =>
      rw [ht] at hto
      obtain ⟨⟨k, hk⟩, hr, hp, hc, -⟩ := hto
      have hnil := hr.ahead_eq_nil hp hc.symm
      refine .ended ?_ hnil hr
      rw [hk, hnil, List.append_nil]
      exact fun item h => List.eq_of_mem_replicate h
  · next t p hne ht =>
      rw [ht] at hto
      obtain ⟨⟨k, hk⟩, hr, hp, hc, hsemi⟩ := hto
      have hcur : p.current ≠ .eof := fun h => hne (hc.trans h)
      rw [Parser.ahead_of_ne hcur] at hk
      have hm : Item.token p.current ∈ s.parser.ahead := by simp [hk]
      have hi : ¬ Semicolon (.token p.current) := by
        rw [← hc]
        exact fun h => hsemi (Item.token.inj h)
      have hlt : (items p.stream).length < s.parser.ahead.length := by
        rw [hk, List.length_append, List.length_cons]
        omega
      -- the form takes the token it begins with, or else recovering does
      split
      · next e q hf =>
          have hgoes := Parser.onward_form t p
          rw [hf] at hgoes
          have hle := Nat.le_trans (length_ahead_recover_le e q) (List.IsSuffix.length_le hgoes)
          exact .took hm hi (Nat.lt_of_le_of_lt hle hlt) (ahead_recover e q).2
      · next form q hf =>
          obtain ⟨hsuf, hr⟩ := Parser.ahead_form hp hcur hf
          have hstill := still_settle form q s.generator
          have hlt' := Nat.lt_of_le_of_lt hsuf.length_le hlt
          rw [← hstill.ahead_eq] at hlt'
          exact .took hm hi hlt' (hstill.ready hr)

/-! ### Step after step -/

/-- Every state of a session is ready if the first one is. -/
theorem ready_after {s : Session σ} (hs : s.parser.Ready) (n : Nat) :
    (s.after n).parser.Ready := by
  induction n with
  | zero => exact hs
  | succ n ih =>
      have h := step_stepped ih
      rw [after]
      generalize (s.after n).step = r at h
      cases h with
      | ended h hs hr => exact hr
      | took hm hi hlt hr => exact hr

theorem step_eq_none_iff {s : Session σ} (hs : s.parser.Ready) :
    s.step.1 = none ↔ ∀ item ∈ s.parser.ahead, Semicolon item := by
  have h := step_stepped hs
  generalize s.step = r at h
  cases h with
  | ended h hs hr => exact ⟨fun _ => h, fun _ => rfl⟩
  | took hm hi hlt hr => exact iff_of_false nofun fun h => hi (h _ hm)

/-- A step that finds a form takes an item. -/
theorem length_ahead_step_lt {s : Session σ} (hs : s.parser.Ready) (h : s.step.1 ≠ none) :
    s.step.2.parser.ahead.length < s.parser.ahead.length := by
  have hstep := step_stepped hs
  generalize s.step = r at h hstep
  cases hstep with
  | ended h' hs hr => exact absurd rfl h
  | took hm hi hlt hr => exact hlt

/-- A step that finds none leaves nothing ahead. -/
theorem ahead_step_eq_nil {s : Session σ} (hs : s.parser.Ready) (h : s.step.1 = none) :
    s.step.2.parser.ahead = [] := by
  have hstep := step_stepped hs
  generalize s.step = r at h hstep
  cases hstep with
  | ended h' hs hr => exact hs
  | took hm hi hlt hr => cases h

/-- Once a step has found no form, no step finds one. -/
theorem step_after_eq_none {s : Session σ} (hs : s.parser.Ready) {n m : Nat} (hle : n ≤ m)
    (h : (s.after n).step.1 = none) : (s.after m).step.1 = none := by
  induction hle with
  | refl => exact h
  | @step m hle ih =>
      rw [step_eq_none_iff (ready_after hs (m + 1)), after,
        ahead_step_eq_nil (ready_after hs m) ih]
      simp

/-! ### A run -/

omit [Final σ] in
/-- A run takes one step after the other, up to the one that finds no form. -/
theorem run_eq_after (s : Session σ) :
    (∀ i turn, s.run.1[i]? = some turn → (s.after i).step = (some turn.outcome, turn.after)) ∧
    (s.after s.run.1.length).step = (none, s.run.2) := by
  fun_induction run s with
  | case1 s s' h => exact ⟨by simp, h⟩
  | case2 s o s' h turns last hr ih =>
      have hs' : s' = s.step.2 := by rw [h]
      rw [hr] at ih
      obtain ⟨hturns, hlast⟩ := ih
      refine ⟨fun i turn hi => ?_, ?_⟩
      · cases i with
        | zero =>
            obtain rfl : _ = turn := by simpa using hi
            exact h
        | succ i =>
            rw [← after_step, ← hs']
            exact hturns i turn (by simpa using hi)
      · rw [List.length_cons, ← after_step, ← hs']
        exact hlast

theorem length_run_le {s : Session σ} (hs : s.parser.Ready) :
    s.run.1.length ≤ s.parser.ahead.length := by
  fun_induction run s with
  | case1 s s' h => exact Nat.zero_le _
  | case2 s o s' h turns last hr ih =>
      have hs' : s' = s.step.2 := by rw [h]
      have hlt := length_ahead_step_lt hs (by simp [h])
      have hle := ih (hs' ▸ ready_after hs 1)
      rw [hr] at hle
      rw [← hs'] at hlt
      exact Nat.lt_of_le_of_lt hle hlt

/-- **A session ends, and not before its input does.**  Begun afresh over any source, with any table
of operators and any generator, a run takes steps up to one that finds no form, and reports no more
forms than the source has items.  In every state on the way and beyond, a step finds no form if and
only if nothing but semicolons is ahead; a step that finds one takes an item; and once a step has
found none, none does.  Recovering, from wherever it is, passes the malformed lexemes that come next
and then stands on a token. -/
theorem run_ends (source : Source) (ops : Operators) (g : Generator) :
    let s : Session Lexer := ⟨{ stream := .ofSource source, operators := ops }, g⟩
    (s.run.1.length ≤ (items (Lexer.ofSource source)).length ∧
      (∀ i turn, s.run.1[i]? = some turn →
        (s.after i).step = (some turn.outcome, turn.after)) ∧
      (s.after s.run.1.length).step = (none, s.run.2)) ∧
    (∀ n, ((s.after n).step.1 = none ↔
        ∀ item ∈ (s.after n).parser.ahead, item = .token (.char ';')) ∧
      ((s.after n).step.1 ≠ none →
        (s.after (n + 1)).parser.ahead.length < (s.after n).parser.ahead.length) ∧
      ((s.after n).step.1 = none → ∀ m, n ≤ m → (s.after m).step.1 = none)) ∧
    ∀ (e : ParseError) (p : Parser Lexer),
      (p.recover e).ahead = (items p.stream).dropWhile Item.isMalformed := by
  intro s
  have hs : s.parser.Ready := ⟨nofun, fun _ => rfl⟩
  refine ⟨⟨length_run_le hs, run_eq_after s⟩, fun n => ?_, fun e p => (ahead_recover e p).1⟩
  have hn := ready_after hs n
  exact ⟨step_eq_none_iff hn, length_ahead_step_lt hn, fun h m hle => step_after_eq_none hs hle h⟩

end Session

end Reckon
