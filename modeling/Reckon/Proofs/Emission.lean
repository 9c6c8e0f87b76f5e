import Reckon.Generator

/-!
# Proofs — Emission

The code of an expression, emitted by recursion on the expression (`Expr.emit`): an operand before
its operator, the left one first, and the arguments of a call before the call.  The work list does
the same (`Lowering.run_visit`, `Expr.lower_eq_emit`).

Emission only adds to the open body: whether it succeeds or fails, the builder afterwards is the one
before with some code appended (`Expr.emit_extends`).
-/

namespace Reckon

/-! ### Running one thing after another -/

section Sequence

variable {ε σ α β : Type} {m : EStateM ε σ α} {f : α → EStateM ε σ β} {s s₁ s₂ : σ}

theorem bind_of_ok {a : α} (h : m s = .ok a s₁) : (m >>= f) s = f a s₁ := by
  simp only [bind, EStateM.bind, h]

theorem bind_of_error {e : ε} (h : m s = .error e s₁) : (m >>= f) s = .error e s₁ := by
  simp only [bind, EStateM.bind, h]

theorem bind_eq_ok {b : β} (h : (m >>= f) s = .ok b s₂) :
    ∃ a s₁, m s = .ok a s₁ ∧ f a s₁ = .ok b s₂ := by
  cases hm : m s with
  | ok a s₁ => exact ⟨a, s₁, rfl, by rwa [bind_of_ok hm] at h⟩
  | error e s₁ => rw [bind_of_error hm] at h; cases h

theorem modify_bind {f : σ → σ} {k : PUnit → EStateM ε σ β} :
    (modify f >>= k) s = k ⟨⟩ (f s) := rfl

end Sequence

/-! ### Emission by recursion -/

mutual

/-- Emit the code of an expression, and give the register of its value. -/
def Expr.emit (env : Env) : Expr → LowerM Reg
  | .number value => Lowering.emit (.const value)
  | .var name => Lowering.variableReg env name
  | .binary op left right => do
    let l ← left.emit env
    let r ← right.emit env
    Lowering.operator op l r
  | .call name args => do
    let handle ← Lowering.callee env name args.length
    let regs ← emitAll env args
    Lowering.emit (.call handle.name regs)

/-- Emit the code of several expressions, the first one first. -/
def Expr.emitAll (env : Env) : List Expr → LowerM (List Reg)
  | [] => return []
  | e :: es => do
    let reg ← e.emit env
    let regs ← emitAll env es
    return reg :: regs

end

theorem Expr.length_emitAll {env : Env} {es : List Expr} {b b' : Builder} {regs : List Reg}
    (h : emitAll env es b = .ok regs b') : regs.length = es.length := by
  induction es generalizing b regs with
  | nil => cases h; rfl
  | cons e es ih =>
      rw [emitAll] at h
      obtain ⟨reg, b₁, -, h⟩ := bind_eq_ok h
      obtain ⟨regs₁, b₂, h₂, h⟩ := bind_eq_ok h
      cases h
      rw [List.length_cons, List.length_cons, ih h₂]

namespace Lowering

/-- The arguments of a call are the registers on top, the last one first. -/
theorem run_invoke (env : Env) (handle : Handle) (regs : List Reg) (rest : List Task)
    (values : List Reg) :
    run env (.invoke handle regs.length :: rest) (regs.reverse ++ values) = (do
      let reg ← emit (.call handle.name regs)
      run env rest (reg :: values)) := by
  rw [run, ← List.length_reverse, List.take_left, List.drop_left, List.reverse_reverse]

mutual

/-- The work list emits the code of an expression at one go. -/
theorem run_visit (env : Env) (e : Expr) (rest : List Task) (values : List Reg) :
    run env (.visit e :: rest) values = (do
      let reg ← e.emit env
      run env rest (reg :: values)) := by
  cases e with
  | number v => rw [run, Expr.emit]
  | var x => rw [run, Expr.emit]
  | binary op l r =>
      rw [run, run_visit env l, Expr.emit]
      simp only [bind_assoc]
      congr 1
      funext a
      rw [run_visit env r]
      congr 1
      funext b
      rw [run]
  | call f args =>
      rw [run, Expr.emit]
      simp only [bind_assoc]
      congr 1
      funext handle
      rw [run_visits env args]
      -- the number of registers is known only once they are there
      funext b
      cases h : Expr.emitAll env args b with
      | error e b' => rw [bind_of_error h, bind_of_error h]
      | ok regs b' =>
          rw [bind_of_ok h, bind_of_ok h, ← Expr.length_emitAll h, run_invoke]

/-- The work list emits the code of several expressions one after the other. -/
theorem run_visits (env : Env) (es : List Expr) (rest : List Task) (values : List Reg) :
    run env (es.map .visit ++ rest) values = (do
      let regs ← Expr.emitAll env es
      run env rest (regs.reverse ++ values)) := by
  cases es with
  | nil => simp [Expr.emitAll]
  | cons e es =>
      rw [List.map_cons, List.cons_append, run_visit env e, Expr.emitAll]
      simp only [bind_assoc, pure_bind]
      congr 1
      funext reg
      rw [run_visits env es]
      simp

end

end Lowering

theorem Expr.lower_eq_emit (env : Env) (e : Expr) : e.lower env = e.emit env := by
  rw [Expr.lower, Lowering.run_visit]
  simp only [Lowering.run]
  exact bind_pure _

/-! ### What emission does to the builder -/

namespace Builder

/-- The builder with more code in its open body. -/
def extend (b : Builder) (code : List Instr) : Builder :=
  { b with current := b.current.map fun body => { body with code := body.code ++ code.toArray } }

@[simp] theorem extend_nil (b : Builder) : b.extend [] = b := by
  obtain ⟨m, _ | body⟩ := b <;> simp [extend]

@[simp] theorem extend_extend (b : Builder) (code more : List Instr) :
    (b.extend code).extend more = b.extend (code ++ more) := by
  obtain ⟨m, _ | body⟩ := b <;> simp [extend]

@[simp] theorem extend_module (b : Builder) (code : List Instr) :
    (b.extend code).module = b.module := rfl

@[simp] theorem isSome_current_extend (b : Builder) (code : List Instr) :
    (b.extend code).current.isSome = b.current.isSome := by
  simp [extend]

theorem extend_current {b : Builder} {body : OpenBody} (h : b.current = some body)
    (code : List Instr) :
    (b.extend code).current = some { body with code := body.code ++ code.toArray } := by
  rw [extend, h]; rfl

theorem emit_of_open {b : Builder} {body : OpenBody} (h : b.current = some body) (i : Instr) :
    emit i b = .ok ⟨body.code.size⟩ (b.extend [i]) := by
  simp [emit, extend, h]

end Builder

theorem Lowering.emit_of_open {b : Builder} {body : OpenBody} (h : b.current = some body)
    (i : Instr) : emit i b = .ok ⟨body.code.size⟩ (b.extend [i]) := by
  rw [emit, BuildM.lift, Builder.emit_of_open h]

/-- The failure is one of the tree: neither repeated parameters nor the builder cause it. -/
def GenError.OfTree : GenError → Prop
  | .duplicateParameter _ _ => False
  | .build _ => False
  | _ => True

/-- Work that, whether it succeeds or fails, only adds to the open body; where there is one, it
fails because of the tree alone. -/
def Extends {α : Type} (m : LowerM α) : Prop :=
  ∀ b, match m b with
    | .ok _ b' => ∃ code, b' = b.extend code
    | .error e b' => (∃ code, b' = b.extend code) ∧ (b.current.isSome → e.OfTree)

namespace Extends

theorem pure {α : Type} (a : α) : Extends (Pure.pure a) := fun b => ⟨[], b.extend_nil.symm⟩

theorem throw {α : Type} {e : GenError} (he : e.OfTree) : Extends (throw e : LowerM α) :=
  fun b => ⟨⟨[], b.extend_nil.symm⟩, fun _ => he⟩

theorem bind {α β : Type} {m : LowerM α} {f : α → LowerM β} (hm : Extends m)
    (hf : ∀ a, Extends (f a)) : Extends (m >>= f) := by
  intro b
  have h₁ := hm b
  cases h : m b with
  | error e b₁ => rw [h] at h₁; rw [bind_of_error h]; exact h₁
  | ok a b₁ =>
      rw [h] at h₁
      obtain ⟨code, rfl⟩ := h₁
      have h₂ := hf a (b.extend code)
      rw [bind_of_ok h]
      cases h' : f a (b.extend code) with
      | ok c b₂ =>
          rw [h'] at h₂
          obtain ⟨more, rfl⟩ := h₂
          exact ⟨code ++ more, b.extend_extend code more⟩
      | error e b₂ =>
          rw [h'] at h₂
          obtain ⟨⟨more, rfl⟩, he⟩ := h₂
          exact ⟨⟨code ++ more, b.extend_extend code more⟩, by simpa using he⟩

theorem emit (i : Instr) : Extends (Lowering.emit i) := by
  intro b
  cases h : b.current with
  | none =>
      simp only [Lowering.emit, BuildM.lift, Builder.emit, h]
      exact ⟨⟨[], b.extend_nil.symm⟩, nofun⟩
  | some body =>
      rw [Lowering.emit_of_open h]
      exact ⟨[i], rfl⟩

theorem variableReg (env : Env) (name : String) : Extends (Lowering.variableReg env name) := by
  unfold Lowering.variableReg
  split
  · exact pure _
  · exact throw trivial

theorem callee (env : Env) (name : String) (count : Nat) :
    Extends (Lowering.callee env name count) := by
  unfold Lowering.callee
  split
  · exact throw trivial
  · split
    · refine bind (fun b => ⟨[], b.extend_nil.symm⟩) fun b => ?_
      split
      · exact pure _
      · exact throw trivial
    · exact throw trivial

theorem operator (op : Char) (l r : Reg) : Extends (Lowering.operator op l r) := by
  unfold Lowering.operator
  split
  · exact emit _
  · split
    · exact bind (emit _) fun _ => emit _
    · exact throw trivial

end Extends

mutual

/-- Emitting an expression only adds to the open body. -/
theorem Expr.emit_extends (env : Env) (e : Expr) : Extends (e.emit env) := by
  cases e with
  | number v => rw [Expr.emit]; exact .emit _
  | var x => rw [Expr.emit]; exact .variableReg _ _
  | binary op l r =>
      rw [Expr.emit]
      exact .bind (l.emit_extends env) fun _ => .bind (r.emit_extends env) fun _ => .operator _ _ _
  | call f args =>
      rw [Expr.emit]
      exact .bind (.callee _ _ _) fun _ => .bind (emitAll_extends env args) fun _ => .emit _

theorem Expr.emitAll_extends (env : Env) (es : List Expr) : Extends (emitAll env es) := by
  cases es with
  | nil => rw [emitAll]; exact .pure _
  | cons e es =>
      rw [emitAll]
      exact .bind (e.emit_extends env) fun _ => .bind (emitAll_extends env es) fun _ => .pure _

end

end Reckon
