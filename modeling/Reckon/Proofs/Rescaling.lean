import Mathlib.Data.Nat.Basic
import Mathlib.Order.Monotone.Basic
import Reckon.Proofs.Parsing

/-!
# Proofs — Rescaling

Only the order of the strengths matters.  `Operators.rescale f` replaces every strength `s` of a
table by `f s`; `Machine.rescale f` does so with the operators that wait.  Where `f` increases
strictly on the strengths of the table, the machine compares nothing that `f` does not keep in
order: a step, rescaled, is a step (`Machine.Read.step_rescale`), and a run, rescaled, is a run
(`Machine.Read.run_rescale`).

* `Parser.expression_rescale`: an expression is parsed alike, and fails alike, under both tables.
  The descent, which goes on from a strength to the next number and begins with the least one, does
  so too.

It is enough that `f` increases on the strengths of the table.  Among all numbers of 32 bits there
is room for no other function that increases strictly than the one that changes nothing.
-/

namespace Reckon

/-! ### Other strengths -/

namespace Operators

variable {ops : Operators} {f : Nat → Nat}

/-- The strengths of the table. -/
def strengths (ops : Operators) : Set Nat := {s | ∃ c, ops c = some s}

/-- The table with the strength `f s` for every strength `s`. -/
def rescale (f : Nat → Nat) (ops : Operators) : Operators := fun c => (ops c).map f

theorem find?_rescale (f : Nat → Nat) (ops : Operators) (t : Token) :
    (ops.rescale f).find? t = (ops.find? t).map fun (op, s) => (op, f s) := by
  cases t with
  | char c =>
      simp only [find?, rescale, Option.map_map]
      rfl
  | _ => rfl

end Operators

/-- The operator with the strength `f s` for its strength `s`. -/
def Pending.rescale (f : Nat → Nat) (o : Pending) : Pending := { o with strength := f o.strength }

/-- The bracket with other strengths of the operators that wait outside it. -/
def Frame.rescale (f : Nat → Nat) (frame : Frame) : Frame :=
  { frame with outside := frame.outside.map (Pending.rescale f) }

namespace Machine

/-- The machine with other strengths of the operators that wait. -/
def rescale (f : Nat → Nat) (m : Machine) : Machine :=
  { m with pending := m.pending.map (Pending.rescale f), frames := m.frames.map (Frame.rescale f) }

end Machine

/-- The action with other strengths of the operators that wait. -/
def Action.rescale (f : Nat → Nat) : Action → Action
  | .shift m => .shift (m.rescale f)
  | .done e => .done e
  | .fail e => .fail e

/-! ### Closing operators -/

theorem Waiting.mem_strengths {ops : Operators} {os : List Pending} {ts : List Token}
    (h : Waiting ops os ts) : ∀ o ∈ os, o.strength ∈ ops.strengths := by
  induction h with
  | nil => exact nofun
  | cons h hs hφ hl hb ih =>
      intro o ho
      rcases List.mem_cons.mp ho with rfl | ho
      · exact ⟨_, hs⟩
      · exact ih o ho

namespace Pending

variable {f : Nat → Nat}

theorem closeAll_rescale (f : Nat → Nat) (os : List Pending) (e : Expr) :
    closeAll (os.map (rescale f)) e = closeAll os e := by
  rw [closeAll, List.foldl_map]
  rfl

/-- The same operators are closed where their order is kept. -/
theorem close_rescale {S : Set Nat} (hf : StrictMonoOn f S) {s : Nat} (hs : s ∈ S)
    (os : List Pending) (hos : ∀ o ∈ os, o.strength ∈ S) (e : Expr) :
    close (f s) (os.map (rescale f)) e =
      ((close s os e).1, (close s os e).2.map (rescale f)) := by
  induction os generalizing e with
  | nil => rfl
  | cons o os ih =>
      have hiff : f s ≤ (o.rescale f).strength ↔ s ≤ o.strength :=
        hf.le_iff_le hs (hos o List.mem_cons_self)
      simp only [List.map_cons, close]
      by_cases hle : s ≤ o.strength
      · rw [if_pos hle, if_pos (hiff.mpr hle)]
        exact ih (fun o ho => hos o (List.mem_cons_of_mem _ ho)) _
      · rw [if_neg hle, if_neg (mt hiff.mp hle)]
        rfl

end Pending

/-! ### Steps and runs -/

namespace Machine

variable {ops : Operators} {f : Nat → Nat} {os : List Pending} {fs : List Frame}
  {ts us : List Token} {t : Token} {m : Machine}

theorem beginOperand_rescale (f : Nat → Nat) (os : List Pending) (fs : List Frame) (t : Token) :
    beginOperand (os.map (Pending.rescale f)) (fs.map (Frame.rescale f)) t =
      (beginOperand os fs t).rescale f := by
  simp only [beginOperand, List.length_map]
  split
  · rfl
  · split <;> rfl

theorem endChain_rescale (f : Nat → Nat) (e : Expr) (fs : List Frame) (t : Token) :
    endChain e (fs.map (Frame.rescale f)) t = (endChain e fs t).rescale f := by
  match fs with
  | [] => rfl
  | ⟨.group, outside⟩ :: fs =>
      simp only [List.map_cons, Frame.rescale, endChain]
      split <;> rfl
  | ⟨.arguments callee read, outside⟩ :: fs =>
      simp only [List.map_cons, Frame.rescale, endChain]
      split
      · rfl
      · split <;> rfl

theorem endOperand_rescale (hf : StrictMonoOn f ops.strengths) (hw : Waiting ops os us) (e : Expr)
    (fs : List Frame) (t : Token) :
    endOperand (ops.rescale f) e (os.map (Pending.rescale f)) (fs.map (Frame.rescale f)) t =
      (endOperand ops e os fs t).rescale f := by
  simp only [endOperand, Operators.find?_rescale]
  cases ht : ops.find? t with
  | none => simp only [Option.map_none, Pending.closeAll_rescale, endChain_rescale]
  | some found =>
      obtain ⟨op, s⟩ := found
      have hs : s ∈ ops.strengths := ⟨op, (Operators.find?_eq_some ht).2⟩
      simp only [Option.map_some, Pending.close_rescale hf hs os hw.mem_strengths]
      rfl

/-- **A step, rescaled, is a step.** -/
theorem Read.step_rescale (hm : Read ops m ts) (hf : StrictMonoOn f ops.strengths) (t : Token) :
    (m.rescale f).step (ops.rescale f) t = (m.step ops t).rescale f := by
  obtain ⟨hopened, hw, hc⟩ := hm
  cases hc with
  | start => exact beginOperand_rescale f _ _ t
  | name x =>
      by_cases ht : t = .char '('
      · rw [step_name_open ht]
        exact step_name_open ht
      · rw [step_name ht]
        exact (step_name ht).trans (endOperand_rescale hf hw _ _ t)
  | opened callee =>
      by_cases ht : t = .char ')'
      · rw [step_opened_close ht]
        exact step_opened_close ht
      · rw [step_opened ht]
        exact (step_opened ht).trans (beginOperand_rescale f [] (⟨.arguments callee [], _⟩ :: _) t)
  | operand hφ hn => exact endOperand_rescale hf hw _ _ t

end Machine

namespace Parser

variable {σ : Type} {α : Type}

/-- The parser with the strength `f s` for every strength `s` of its table. -/
def rescale (f : Nat → Nat) (p : Parser σ) : Parser σ :=
  { p with operators := p.operators.rescale f }

/-- The same result with other strengths in the table. -/
def rescaled (f : Nat → Nat) :
    EStateM.Result ParseError (Parser σ) α → EStateM.Result ParseError (Parser σ) α
  | .ok a q => .ok a (q.rescale f)
  | .error e q => .error e (q.rescale f)

variable [ItemStream σ]

theorem advance_rescale (f : Nat → Nat) (p : Parser σ) :
    advance (p.rescale f) = rescaled f (advance p) := by
  simp only [advance, rescale]
  split <;> rfl

theorem peek_rescale (f : Nat → Nat) (p : Parser σ) :
    peek (p.rescale f) = rescaled f (peek p) := by
  cases hp : p.primed with
  | true =>
      rw [peek_of_primed hp, peek_of_primed (p := p.rescale f) hp]
      rfl
  | false =>
      rw [peek_of_not_primed hp, peek_of_not_primed (p := p.rescale f) hp]
      simp only [next, bind, EStateM.bind, advance_rescale]
      cases advance p with
      | ok u q => rfl
      | error e q => rfl

end Parser

/-- **A run, rescaled, is a run.** -/
theorem Machine.Read.run_rescale {σ : Type} [ItemStream σ] {p : Parser σ} {m : Machine}
    {ts : List Token} {f : Nat → Nat} (hm : Read p.operators m ts)
    (hf : StrictMonoOn f p.operators.strengths) :
    (m.rescale f).run (p.rescale f) = Parser.rescaled f (m.run p) := by
  fun_induction Machine.run m p generalizing ts with
  | case1 m p e hs =>
      have hstep := hm.step_rescale hf p.current
      rw [hs] at hstep
      exact run_of_done hstep
  | case2 m p e hs =>
      have hstep := hm.step_rescale hf p.current
      rw [hs] at hstep
      exact run_of_fail hstep
  | case3 m p m' hs u q ha ih =>
      have hstep := hm.step_rescale hf p.current
      rw [hs] at hstep
      have hadvance := Parser.advance_rescale f p
      rw [ha] at hadvance
      have hops := Parser.operators_of_advance ha
      rw [← ih (hops ▸ hm.step hs) (hops ▸ hf)]
      exact run_of_shift hstep hadvance
  | case4 m p m' hs e q ha =>
      have hstep := hm.step_rescale hf p.current
      rw [hs] at hstep
      have hadvance := Parser.advance_rescale f p
      rw [ha] at hadvance
      exact run_of_shift_error hstep hadvance

/-! ### Expressions -/

namespace Parser

variable {σ : Type} [ItemStream σ]

/-- Under rescaled strengths an expression is parsed alike. -/
theorem expression_of_rescale {f : Nat → Nat} {p : Parser σ}
    (hf : StrictMonoOn f p.operators.strengths) :
    expression (p.rescale f) = rescaled f (expression p) := by
  simp only [expression, bind, EStateM.bind, peek_rescale]
  cases hp : peek p with
  | error e p₀ => rfl
  | ok t p₀ =>
      have hops := operators_of_peek hp
      exact Machine.Read.run_rescale (.mk .nil .nil .start) (hops ▸ hf)

/-- **Only the order of the strengths matters.**  If `f` increases strictly on the strengths of the
table, an expression is parsed to the same tree, or fails with the same error, whether its operators
have the strengths of the table or `f s` for each strength `s`; and the cursor is left at the same
place, with the same items behind it.  When both tables have strengths of 32 bits, this goes for the
descent too: it ends under both without an overflow, whatever the strengths are. -/
theorem expression_rescale (p : Parser σ) (f : Nat → Nat)
    (hf : StrictMonoOn f p.operators.strengths) :
    expression (p.rescale f) = rescaled f (expression p) ∧
    (p.operators.Fits → (p.operators.rescale f).Fits → ∃ n, ∀ calls, n ≤ calls → ∃ result q,
      Descent.expression calls ⟨p, 0⟩ = some (result, ⟨q, 0⟩) ∧
      Descent.expression calls ⟨p.rescale f, 0⟩ = some (result, ⟨q.rescale f, 0⟩)) := by
  refine ⟨expression_of_rescale hf, fun hfits hfits' => ⟨3 * p.remaining + 2, fun calls hn => ?_⟩⟩
  have hdescent := Descent.expression_eq p hfits hn
  have hrescaled := Descent.expression_eq (p.rescale f) hfits' hn
  rw [Descent.lift] at hdescent hrescaled
  rw [expression_of_rescale hf] at hrescaled
  cases hp : expression p with
  | ok e q =>
      rw [hp] at hdescent hrescaled
      exact ⟨.ok e, q, hdescent, hrescaled⟩
  | error e q =>
      rw [hp] at hdescent hrescaled
      exact ⟨.error e, q, hdescent, hrescaled⟩

/-- `a < b + c * d` with the standard strengths, and with the least one, the next one and the
greatest one in their place. -/
theorem expression_rescale_extremes :
    let f : Nat → Nat := fun s => if s ≤ 10 then 0 else if s ≤ 20 then 1 else UInt32.size - 1
    let p : Parser (List Item) :=
      { stream := [.ident "a", .char '<', .ident "b", .char '+', .ident "c", .char '*',
          .ident "d"].map .token }
    let e : Expr :=
      .binary '<' (.var "a") (.binary '+' (.var "b") (.binary '*' (.var "c") (.var "d")))
    StrictMonoOn f p.operators.strengths ∧ p.operators.Fits ∧ (p.operators.rescale f).Fits ∧
    (∃ q, expression p = .ok e q ∧ expression (p.rescale f) = .ok e (q.rescale f)) ∧
    ∃ n, ∀ calls, n ≤ calls → ∃ result q,
      Descent.expression calls ⟨p, 0⟩ = some (result, ⟨q, 0⟩) ∧
      Descent.expression calls ⟨p.rescale f, 0⟩ = some (result, ⟨q.rescale f, 0⟩) := by
  intro f p e
  have hmem : ∀ s ∈ p.operators.strengths, s = 10 ∨ s = 20 ∨ s = 40 := by
    rintro s ⟨c, hc⟩
    simp only [p, Operators.standard] at hc
    split at hc <;> simp_all
  have hf : StrictMonoOn f p.operators.strengths := by
    intro s hs t ht hlt
    revert hlt
    rcases hmem s hs with rfl | rfl | rfl <;> rcases hmem t ht with rfl | rfl | rfl <;> decide
  have hfits : (p.operators.rescale f).Fits := by
    intro c s hs
    obtain ⟨s', hs', rfl⟩ := Option.map_eq_some_iff.mp hs
    rcases hmem s' ⟨c, hs'⟩ with rfl | rfl | rfl <;> decide
  obtain ⟨hparse, hdescent⟩ := expression_rescale p f hf
  let φ : Phrase :=
    .binary '<' (.var "a") (.binary '+' (.var "b") (.binary '*' (.var "c") (.var "d")))
  have hφ : φ.Graded .standard :=
    ⟨10, rfl, trivial, ⟨20, rfl, trivial, ⟨40, rfl, trivial, trivial,
        Phrase.bindsLeft_of_none rfl _, Phrase.bindsRight_of_none rfl _⟩,
      Phrase.bindsLeft_of_none rfl _, by rintro _ ⟨⟩; decide⟩,
      Phrase.bindsLeft_of_none rfl _, by rintro _ ⟨⟩; decide⟩
  have hread := expression_of_reads (p := p) Operators.standard_plain hφ (by decide) rfl
    (.pass rfl (.pass rfl (.pass rfl (.pass rfl (.pass rfl (.pass rfl (.pass rfl (.here _))))))))
    rfl (by decide)
  rw [hread] at hparse
  exact ⟨hf, Operators.standard_fits, hfits, ⟨_, hread, hparse⟩,
    hdescent Operators.standard_fits hfits⟩

end Parser

end Reckon
