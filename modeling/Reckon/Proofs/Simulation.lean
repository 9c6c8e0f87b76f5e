import Mathlib.Data.List.Forall2
import Reckon.Proofs.Emission
import Reckon.Proofs.Meaning

/-!
# Proofs — Simulation

Code does what its tree means.  The code emitted for an expression, run behind registers that hold
the parameters, does what evaluating the expression does and leaves its value in the register the
emission gave (`Expr.emit_realizes`): the same acts in the same order, and the same failure if it
fails.

The two are compared by `Mirrors`, which sequences: code behind code mirrors evaluation after
evaluation (`Mirrors.bind`), because running code never redefines a register
(`Slots.runAll_grows`).
-/

namespace Reckon

/-! ### Running code -/

section Code

variable (call : String → List Float → Run Float) (function : String) (args : List Float)

/-- Run code behind the registers defined so far. -/
def Slots.runAll (code : List Instr) (slots : Slots) : Run Slots :=
  code.foldlM (fun slots i => return slots.push (← i.run call function args slots)) slots

theorem Slots.runAll_cons (i : Instr) (code : List Instr) (slots : Slots) :
    slots.runAll call function args (i :: code) = (do
      let slot ← i.run call function args slots
      Slots.runAll call function args code (slots.push slot)) := by
  simp [Slots.runAll]

theorem Slots.runAll_append (code more : List Instr) (slots : Slots) :
    slots.runAll call function args (code ++ more) = (do
      let slots ← slots.runAll call function args code
      Slots.runAll call function args more slots) := by
  simp [Slots.runAll]

/-- Every instruction defines one register, and none is defined twice. -/
theorem Slots.runAll_grows {code : List Instr} {slots slots' : Slots} {acts acts' : Array Act}
    (h : slots.runAll call function args code acts = .ok slots' acts') :
    ∃ more : Slots, slots' = slots ++ more ∧ more.size = code.length := by
  induction code generalizing slots acts with
  | nil => cases h; exact ⟨#[], by simp, rfl⟩
  | cons i code ih =>
      rw [runAll_cons] at h
      obtain ⟨slot, acts₁, -, h⟩ := bind_eq_ok h
      obtain ⟨more, rfl, hn⟩ := ih h
      exact ⟨#[slot] ++ more, by simp, by simp [hn]; omega⟩

theorem Body.run_eq (b : Body) :
    b.run call function args = (do
      let slots ← Slots.runAll call function args b.code.toList #[]
      slots.number function b.result) := by
  simp only [Body.run, Slots.runAll, Array.foldlM_toList]

end Code

namespace Slots

/-- The register holds the number. -/
def Holds (slots : Slots) (r : Reg) (x : Float) : Prop := slots[r.index]? = some (.number x)

theorem Holds.append {slots : Slots} {r : Reg} {x : Float} (h : slots.Holds r x) (more : Slots) :
    Holds (slots ++ more) r x := by
  obtain ⟨hlt, -⟩ := Array.getElem?_eq_some_iff.mp h
  rw [Holds, Array.getElem?_append_left hlt]
  exact h

theorem holds_push (slots : Slots) (x : Float) : Holds (slots.push (.number x)) ⟨slots.size⟩ x :=
  Array.getElem?_push_size

theorem number_of_holds {slots : Slots} {r : Reg} {x : Float} (h : slots.Holds r x)
    (function : String) : slots.number function r = pure x := by
  simp [number, show slots[r.index]? = _ from h]

/-- The registers hold the numbers. -/
def HoldsAll (slots : Slots) (rs : List Reg) (xs : List Float) : Prop :=
  List.Forall₂ slots.Holds rs xs

theorem mapM_number_of_holdsAll {slots : Slots} {rs : List Reg} {xs : List Float}
    (h : slots.HoldsAll rs xs) (function : String) : rs.mapM (slots.number function) = pure xs := by
  induction h with
  | nil => rfl
  | cons h _ ih => simp [List.mapM_cons, number_of_holds h, ih]

/-- Every parameter that has a register has a value, and the register holds it. -/
def Binds (slots : Slots) (params : List (String × Reg)) (vals : List (String × Float)) : Prop :=
  ∀ name r, params.lookup name = some r → ∃ x, vals.lookup name = some x ∧ slots.Holds r x

theorem Binds.append {slots : Slots} {params : List (String × Reg)} {vals : List (String × Float)}
    (h : slots.Binds params vals) (more : Slots) : Binds (slots ++ more) params vals := by
  intro name r hr
  obtain ⟨x, hx, hold⟩ := h name r hr
  exact ⟨x, hx, hold.append more⟩

end Slots

/-! ### Code that does what an evaluation does -/

section Mirrors

variable {call : String → List Float → Run Float} {function : String} {args : List Float}
variable {α β : Type}

/-- The run of code and the evaluation end alike: with the same acts, and either both with a value
that `holds` of the registers or with the same failure.  The evaluation misses neither a name nor an
operator. -/
def Mirrors (holds : α → Slots → Prop) :
    EStateM.Result Fault (Array Act) α → EStateM.Result ExecError (Array Act) Slots → Prop
  | .ok a acts, .ok slots acts' => acts' = acts ∧ holds a slots
  | .error (.run e) acts, .error e' acts' => acts' = acts ∧ e' = e
  | _, _ => False

/-- Code that fails fails as the evaluation does. -/
theorem Mirrors.of_error {P : α → Slots → Prop} {r : EStateM.Result Fault (Array Act) α}
    {e : ExecError} {acts : Array Act} (h : Mirrors P r (.error e acts)) :
    r = .error (.run e) acts := by
  match r, h with
  | .error (.run _) _, ⟨rfl, rfl⟩ => rfl

/-- Code that ends ends as the evaluation does. -/
theorem Mirrors.of_ok {P : α → Slots → Prop} {r : EStateM.Result Fault (Array Act) α}
    {slots : Slots} {acts : Array Act} (h : Mirrors P r (.ok slots acts)) :
    ∃ a, r = .ok a acts ∧ P a slots := by
  match r, h with
  | .ok a _, ⟨rfl, hP⟩ => exact ⟨a, rfl, hP⟩

/-- One after the other.  The second code finds the registers of the first behind those that were
there. -/
theorem Mirrors.bind {P : α → Slots → Prop} {Q : β → Slots → Prop} {m : Eval α} {f : α → Eval β}
    {code more : List Instr} {slots : Slots} {acts : Array Act}
    (hm : Mirrors P (m acts) (slots.runAll call function args code acts))
    (hf : ∀ a (added : Slots) acts, added.size = code.length → P a (slots ++ added) →
      Mirrors Q (f a acts) (Slots.runAll call function args more (slots ++ added) acts)) :
    Mirrors Q ((m >>= f) acts) (slots.runAll call function args (code ++ more) acts) := by
  rw [Slots.runAll_append]
  cases hr : slots.runAll call function args code acts with
  | error e acts₁ =>
      rw [hr] at hm
      rw [bind_of_error hr, bind_of_error hm.of_error]
      exact ⟨rfl, rfl⟩
  | ok slots₁ acts₁ =>
      -- the second code may rely on the registers from before the first, which are still there
      obtain ⟨added, rfl, hn⟩ := Slots.runAll_grows call function args hr
      rw [hr] at hm
      obtain ⟨a, he, hP⟩ := hm.of_ok
      rw [bind_of_ok hr, bind_of_ok he]
      exact hf a added _ hn hP

/-- One instruction that gives a number. -/
theorem mirrors_instr {i : Instr} {slots : Slots} {x : Float}
    (h : i.run call function args slots = pure (.number x)) (acts : Array Act) :
    Mirrors (fun x slots' => slots'.Holds ⟨slots.size⟩ x) (.ok x acts)
      (slots.runAll call function args [i] acts) := by
  rw [Slots.runAll_cons, h]
  exact ⟨rfl, slots.holds_push x⟩

/-- A call of what the registers hold. -/
theorem mirrors_call {slots : Slots} {regs : List Reg} {xs : List Float}
    (h : slots.HoldsAll regs xs) (callee : String) (acts : Array Act) :
    Mirrors (fun x slots' => slots'.Holds ⟨slots.size⟩ x) ((call callee xs).toEval acts)
      (slots.runAll call function args [.call callee regs] acts) := by
  have hi : (Instr.call callee regs).run call function args slots
      = (do return .number (← call callee xs)) := by
    simp [Instr.run, Slots.mapM_number_of_holdsAll h]
  rw [Slots.runAll_cons, hi, bind_assoc, Run.toEval]
  cases hc : call callee xs acts with
  | ok x acts₁ => rw [bind_of_ok hc]; exact ⟨rfl, slots.holds_push x⟩
  | error e acts₁ => rw [bind_of_error hc]; exact ⟨rfl, rfl⟩

end Mirrors

/-! ### The code of an expression -/

/-- Behind `n` registers that hold the parameters the code does what is meant, and its value
`holds` of the registers then. -/
def Realizes {α : Type} (n : Nat) (params : List (String × Reg)) (code : List Instr)
    (holds : α → Slots → Prop)
    (meant : (String → List Float → Eval Float) → List (String × Float) → Eval α) : Prop :=
  ∀ call function args vals (slots : Slots) acts, slots.size = n → slots.Binds params vals →
    Mirrors holds (meant (fun f xs => (call f xs).toEval) vals acts)
      (slots.runAll call function args code acts)

theorem Lowering.callee_eq_ok {env : Env} {name : String} {count : Nat} {handle : Handle}
    {b b' : Builder} (h : callee env name count b = .ok handle b') :
    b' = b ∧ handle.name = name := by
  cases hs : env.signatures.arity? name with
  | none => simp only [callee, hs] at h; cases h
  | some expected =>
      by_cases hc : expected = count
      · simp only [callee, hs, if_pos hc] at h
        obtain ⟨b₁, b₂, hg, h⟩ := bind_eq_ok h
        cases hg
        cases hl : b.lookup name with
        | none => rw [hl] at h; cases h
        | some found =>
            rw [hl] at h
            cases h
            obtain ⟨d, hd, rfl⟩ := Option.map_eq_some_iff.mp hl
            exact ⟨rfl, by simpa [Decl.handle] using List.find?_some hd⟩
      · simp only [callee, hs, if_neg hc] at h
        cases h

/-- The code of an operator operates on what its operands hold. -/
theorem Lowering.operator_mirrors {op : Char} {l r reg : Reg} {b b' : Builder} {body : OpenBody}
    (hb : b.current = some body) (h : operator op l r b = .ok reg b') :
    ∃ code, b' = b.extend code ∧ ∀ call function args (slots : Slots) x y acts,
      slots.size = body.code.size → slots.Holds l x → slots.Holds r y →
      Mirrors (fun x slots => slots.Holds reg x) (operate op x y acts)
        (slots.runAll call function args code acts) := by
  cases ha : Arith.ofChar? op with
  | some arith =>
      simp only [operator, ha, emit_of_open hb] at h
      cases h
      refine ⟨_, rfl, fun call function args slots x y acts hn hl hr => ?_⟩
      have hi : (Instr.arith arith l r).run call function args slots
          = pure (.number (arith.apply x y)) := by
        simp [Instr.run, Slots.number_of_holds hl, Slots.number_of_holds hr]
      have ho : operate op x y = pure (arith.apply x y) := by
        unfold Arith.ofChar? at ha
        split at ha <;> cases ha <;> rfl
      rw [ho, ← hn]
      exact mirrors_instr hi acts
  | none =>
      by_cases hop : op = '<'
      · subst hop
        simp only [operator, ha, if_true] at h
        rw [bind_of_ok (emit_of_open hb _), emit_of_open (Builder.extend_current hb _)] at h
        cases h
        refine ⟨[.less l r, .widen ⟨body.code.size⟩], by simp,
          fun call function args slots x y acts hn hl hr => ?_⟩
        have hi : (Instr.less l r).run call function args slots = pure (.flag (!(x ≥ y))) := by
          simp [Instr.run, Slots.number_of_holds hl, Slots.number_of_holds hr]
        have hw : (Instr.widen ⟨body.code.size⟩).run call function args
            (slots.push (.flag (!(x ≥ y)))) = pure (.number (if !(x ≥ y) then 1 else 0)) := by
          simp [Instr.run, Slots.flag, ← hn]
        rw [Slots.runAll_cons, hi, pure_bind]
        have hm := mirrors_instr hw acts
        rw [Array.size_push, hn] at hm
        rw [show operate '<' x y acts = .ok (if !(x ≥ y) then 1 else 0) acts from rfl]
        simpa using hm
      · simp only [operator, ha, if_neg hop] at h
        cases h

mutual

/-- **The code of an expression does what evaluating it does.**  Run behind registers that hold the
parameters, it leaves the value in the register the emission gave. -/
theorem Expr.emit_realizes (env : Env) (e : Expr) {b b' : Builder} {body : OpenBody} {reg : Reg}
    (hb : b.current = some body) (h : e.emit env b = .ok reg b') :
    ∃ code, b' = b.extend code ∧
      Realizes body.code.size env.params code (fun x slots => slots.Holds reg x)
        fun call vals => e.eval call vals := by
  cases e with
  | number v =>
      rw [Expr.emit, Lowering.emit_of_open hb] at h
      cases h
      refine ⟨_, rfl, fun call function args vals slots acts hn _ => ?_⟩
      simp only [Expr.eval, ← hn]
      exact mirrors_instr rfl acts
  | var x =>
      rw [Expr.emit] at h
      cases hx : env.params.lookup x with
      | none => simp only [Lowering.variableReg, hx] at h; cases h
      | some r =>
          simp only [Lowering.variableReg, hx] at h
          cases h
          refine ⟨[], by simp, fun call function args vals slots acts _ hv => ?_⟩
          obtain ⟨v, hv, hold⟩ := hv x _ hx
          simp only [Expr.eval, hv]
          exact ⟨rfl, hold⟩
  | binary op l r =>
      rw [Expr.emit] at h
      obtain ⟨rl, b₁, hl, h⟩ := bind_eq_ok h
      obtain ⟨rr, b₂, hr, h⟩ := bind_eq_ok h
      obtain ⟨cl, rfl, ml⟩ := l.emit_realizes env hb hl
      have hb₁ := Builder.extend_current hb cl
      obtain ⟨cr, rfl, mr⟩ := r.emit_realizes env hb₁ hr
      have hb₂ := Builder.extend_current hb₁ cr
      obtain ⟨co, rfl, mo⟩ := Lowering.operator_mirrors hb₂ h
      refine ⟨cl ++ (cr ++ co), by simp, fun call function args vals slots acts hn hv => ?_⟩
      simp only [Expr.eval]
      -- the left value stays in its register while the right operand is computed
      refine (ml call function args vals slots acts hn hv).bind fun x s₁ acts hs₁ hx => ?_
      refine (mr call function args vals _ acts (by simp [hn, hs₁]) (hv.append s₁)).bind
        fun y s₂ acts hs₂ hy => ?_
      exact mo call function args _ x y acts (by simp [hn, hs₁, hs₂]) (hx.append s₂) hy
  | call f es =>
      rw [Expr.emit] at h
      obtain ⟨handle, b₁, hc, h⟩ := bind_eq_ok h
      obtain ⟨regs, b₂, hs, h⟩ := bind_eq_ok h
      obtain ⟨hb₁, hf⟩ := Lowering.callee_eq_ok hc
      subst hb₁ hf
      obtain ⟨code, rfl, ms⟩ := emitAll_realizes env es hb hs
      rw [Lowering.emit_of_open (Builder.extend_current hb code)] at h
      cases h
      refine ⟨code ++ [.call handle.name regs], by simp,
        fun call function args vals slots acts hn hv => ?_⟩
      simp only [Expr.eval]
      refine (ms call function args vals slots acts hn hv).bind fun xs s₁ acts hs₁ hxs => ?_
      have hsize : (slots ++ s₁).size = (body.code ++ code.toArray).size := by simp [hn, hs₁]
      rw [← hsize]
      exact mirrors_call hxs handle.name acts

/-- The code of several expressions does what evaluating them in order does. -/
theorem Expr.emitAll_realizes (env : Env) (es : List Expr) {b b' : Builder} {body : OpenBody}
    {regs : List Reg} (hb : b.current = some body) (h : emitAll env es b = .ok regs b') :
    ∃ code, b' = b.extend code ∧
      Realizes body.code.size env.params code (fun xs slots => slots.HoldsAll regs xs)
        fun call vals => evalAll call vals es := by
  cases es with
  | nil =>
      rw [emitAll] at h
      cases h
      refine ⟨[], by simp, fun call function args vals slots acts _ _ => ?_⟩
      simp only [evalAll]
      exact ⟨rfl, .nil⟩
  | cons e es =>
      rw [emitAll] at h
      obtain ⟨reg, b₁, he, h⟩ := bind_eq_ok h
      obtain ⟨regs, b₂, hs, h⟩ := bind_eq_ok h
      cases h
      obtain ⟨ce, rfl, me⟩ := e.emit_realizes env hb he
      obtain ⟨cs, rfl, ms⟩ := emitAll_realizes env es (Builder.extend_current hb ce) hs
      refine ⟨ce ++ (cs ++ []), by simp, fun call function args vals slots acts hn hv => ?_⟩
      simp only [evalAll]
      refine (me call function args vals slots acts hn hv).bind fun x s₁ acts hs₁ hx => ?_
      refine (ms call function args vals _ acts (by simp [hn, hs₁]) (hv.append s₁)).bind
        fun xs s₂ acts _ hxs => ?_
      exact ⟨rfl, .cons (hx.append s₂) hxs⟩

end

end Reckon
