import Reckon.Proofs.Effect

/-!
# Proofs — Calls

The calls of trees and of code.  Code is emitted for an expression only if every call in it,
wherever it stands, is to a registered function with as many parameters as there are arguments, and
the function is declared (`Expr.emit_known`).  In turn the code has no other calls than the
expression (`Expr.emit_invokes`), so what the tree calls is what its body calls:

* `Emitted.known`: the calls of a tree that has a body.
* `Emitted.invokes`: the calls of the body.
-/

namespace Reckon

/-! ### Calls of trees -/

mutual

/-- The expression calls the function, somewhere in it, with so many arguments. -/
def Expr.Invokes (f : String) (count : Nat) : Expr → Prop
  | .number _ => False
  | .var _ => False
  | .binary _ left right => left.Invokes f count ∨ right.Invokes f count
  | .call callee args => (callee = f ∧ args.length = count) ∨ AnyInvokes f count args

/-- One of the expressions calls the function with so many arguments. -/
def Expr.AnyInvokes (f : String) (count : Nat) : List Expr → Prop
  | [] => False
  | e :: es => e.Invokes f count ∨ AnyInvokes f count es

end

/-! ### What is called is known -/

/-- A callee is registered with as many parameters as there are arguments, and declared. -/
theorem Lowering.known_of_callee {env : Env} {name : String} {count : Nat} {handle : Handle}
    {b b' : Builder} (h : callee env name count b = .ok handle b') :
    env.signatures.arity? name = some count ∧ (b.module.find? name).isSome := by
  cases hs : env.signatures.arity? name with
  | none => simp only [callee, hs] at h; cases h
  | some expected =>
      by_cases hc : expected = count
      · simp only [callee, hs, if_pos hc] at h
        obtain ⟨b₁, b₂, hg, h⟩ := bind_eq_ok h
        cases hg
        cases hl : b.lookup name with
        | none => rw [hl] at h; cases h
        | some found =>
            obtain ⟨d, hd, -⟩ := Option.map_eq_some_iff.mp hl
            exact ⟨by rw [hc], by rw [hd]; rfl⟩
      · simp only [callee, hs, if_neg hc] at h
        cases h

/-- Emission leaves the module as it is. -/
theorem Extends.module_eq {α : Type} {m : LowerM α} (hm : Extends m) {a : α} {b b' : Builder}
    (h : m b = .ok a b') : b'.module = b.module := by
  have hb := hm b
  rw [h] at hb
  obtain ⟨code, rfl⟩ := hb
  exact b.extend_module code

mutual

/-- Code is emitted only for an expression whose callees are known. -/
theorem Expr.emit_known {env : Env} {f : String} {count : Nat} (e : Expr) {b b' : Builder}
    {reg : Reg} (h : e.emit env b = .ok reg b') (hf : e.Invokes f count) :
    env.signatures.arity? f = some count ∧ (b.module.find? f).isSome := by
  cases e with
  | number v => exact hf.elim
  | var x => exact hf.elim
  | binary op l r =>
      rw [Expr.emit] at h
      obtain ⟨rl, b₁, hl, h⟩ := bind_eq_ok h
      obtain ⟨rr, b₂, hr, h⟩ := bind_eq_ok h
      rcases hf with hf | hf
      · exact l.emit_known hl hf
      · rw [← (l.emit_extends env).module_eq hl]
        exact r.emit_known hr hf
  | call g es =>
      rw [Expr.emit] at h
      obtain ⟨handle, b₁, hc, h⟩ := bind_eq_ok h
      obtain ⟨regs, b₂, hs, -⟩ := bind_eq_ok h
      rcases hf with ⟨rfl, rfl⟩ | hf
      · exact Lowering.known_of_callee hc
      · rw [← (Extends.callee _ _ _).module_eq hc]
        exact emitAll_known es hs hf

theorem Expr.emitAll_known {env : Env} {f : String} {count : Nat} (es : List Expr) {b b' : Builder}
    {regs : List Reg} (h : emitAll env es b = .ok regs b') (hf : AnyInvokes f count es) :
    env.signatures.arity? f = some count ∧ (b.module.find? f).isSome := by
  cases es with
  | nil => exact hf.elim
  | cons e es =>
      rw [emitAll] at h
      obtain ⟨reg, b₁, he, h⟩ := bind_eq_ok h
      obtain ⟨regs, b₂, hs, -⟩ := bind_eq_ok h
      rcases hf with hf | hf
      · exact e.emit_known he hf
      · rw [← (e.emit_extends env).module_eq he]
        exact emitAll_known es hs hf

end

/-! ### Calls of code -/

/-- The builder has come from `b` by adding code whose calls are all `invoked`. -/
def Adds (b b' : Builder) (invoked : String → Nat → Prop) : Prop :=
  ∃ code, b' = b.extend code ∧ ∀ f operands, .call f operands ∈ code → invoked f operands.length

namespace Adds

variable {b b₁ b₂ : Builder} {P Q R : String → Nat → Prop}

theorem refl (b : Builder) (P : String → Nat → Prop) : Adds b b P := ⟨[], b.extend_nil.symm, nofun⟩

theorem trans (h : Adds b b₁ P) (h' : Adds b₁ b₂ Q) (hP : ∀ f n, P f n → R f n)
    (hQ : ∀ f n, Q f n → R f n) : Adds b b₂ R := by
  obtain ⟨code, rfl, hcode⟩ := h
  obtain ⟨more, rfl, hmore⟩ := h'
  refine ⟨code ++ more, b.extend_extend code more, fun f operands hf => ?_⟩
  rcases List.mem_append.mp hf with hf | hf
  · exact hP _ _ (hcode f operands hf)
  · exact hQ _ _ (hmore f operands hf)

end Adds

namespace Lowering

variable {b b' : Builder} {reg : Reg}

/-- An instruction that is emitted adds its own call, if it is one. -/
theorem adds_emit {i : Instr} (h : emit i b = .ok reg b') :
    Adds b b' fun f n => ∃ operands, i = .call f operands ∧ operands.length = n := by
  cases hb : b.current with
  | none => simp only [emit, BuildM.lift, Builder.emit, hb] at h; cases h
  | some body =>
      rw [emit_of_open hb] at h
      cases h
      refine ⟨[i], rfl, fun f operands hf => ⟨operands, ?_, rfl⟩⟩
      exact (List.mem_singleton.mp hf).symm

/-- Operators call nothing. -/
theorem adds_operator {op : Char} {l r : Reg} (h : operator op l r b = .ok reg b') :
    Adds b b' fun _ _ => False := by
  cases ha : Arith.ofChar? op with
  | some arith =>
      simp only [operator, ha] at h
      exact (adds_emit h).trans (.refl _ _) (by rintro f n ⟨_, ⟨⟩, -⟩) fun _ _ h => h
  | none =>
      by_cases hop : op = '<'
      · simp only [operator, ha, if_pos hop] at h
        obtain ⟨flag, b₁, h₁, h⟩ := bind_eq_ok h
        exact (adds_emit h₁).trans (adds_emit h) (by rintro f n ⟨_, ⟨⟩, -⟩)
          (by rintro f n ⟨_, ⟨⟩, -⟩)
      · simp only [operator, ha, if_neg hop] at h
        cases h

end Lowering

mutual

/-- The code of an expression has no calls but those of the expression. -/
theorem Expr.emit_invokes {env : Env} (e : Expr) {b b' : Builder} {reg : Reg}
    (h : e.emit env b = .ok reg b') : Adds b b' fun f n => e.Invokes f n := by
  cases e with
  | number v =>
      rw [Expr.emit] at h
      exact (Lowering.adds_emit h).trans (.refl _ _) (by rintro f n ⟨_, ⟨⟩, -⟩) fun _ _ h => h
  | var x =>
      rw [Expr.emit] at h
      cases hx : env.params.lookup x with
      | none => simp only [Lowering.variableReg, hx] at h; cases h
      | some r =>
          simp only [Lowering.variableReg, hx] at h
          cases h
          exact .refl _ _
  | binary op l r =>
      rw [Expr.emit] at h
      obtain ⟨rl, b₁, hl, h⟩ := bind_eq_ok h
      obtain ⟨rr, b₂, hr, h⟩ := bind_eq_ok h
      have hright := (r.emit_invokes hr).trans (Lowering.adds_operator h) (fun _ _ h => h) nofun
      exact (l.emit_invokes hl).trans hright (fun _ _ h => .inl h) fun _ _ h => .inr h
  | call g es =>
      rw [Expr.emit] at h
      obtain ⟨handle, b₁, hc, h⟩ := bind_eq_ok h
      obtain ⟨regs, b₂, hs, h⟩ := bind_eq_ok h
      obtain ⟨hb, hg⟩ := Lowering.callee_eq_ok hc
      rw [hb] at hs
      refine (emitAll_invokes es hs).trans (Lowering.adds_emit h) (fun _ _ h => .inr h) ?_
      rintro f n ⟨operands, ⟨⟩, rfl⟩
      exact .inl ⟨hg.symm, (length_emitAll hs).symm⟩

theorem Expr.emitAll_invokes {env : Env} (es : List Expr) {b b' : Builder} {regs : List Reg}
    (h : emitAll env es b = .ok regs b') : Adds b b' fun f n => AnyInvokes f n es := by
  cases es with
  | nil =>
      rw [emitAll] at h
      cases h
      exact .refl _ _
  | cons e es =>
      rw [emitAll] at h
      obtain ⟨reg, b₁, he, h⟩ := bind_eq_ok h
      obtain ⟨regs, b₂, hs, h⟩ := bind_eq_ok h
      cases h
      exact (e.emit_invokes he).trans (emitAll_invokes es hs) (fun _ _ h => .inl h)
        fun _ _ h => .inr h

end

/-! ### Calls of bodies -/

namespace Emitted

variable {signatures : Signatures} {m : Module} {body : Body} {params : List String} {e : Expr}

/-- The calls of a tree that has a body are to functions that are registered and declared. -/
theorem known {f : String} {count : Nat} (h : Emitted signatures m body params e)
    (hf : e.Invokes f count) : signatures.arity? f = some count ∧ (m.find? f).isSome := by
  obtain ⟨handle, code, reg, -, hemit⟩ := h
  exact e.emit_known hemit hf

/-- The calls of a body are those of its tree. -/
theorem invokes {f : String} {operands : List Reg} (h : Emitted signatures m body params e)
    (hf : .call f operands ∈ body.code) : e.Invokes f operands.length := by
  obtain ⟨handle, code, reg, rfl, hemit⟩ := h
  obtain ⟨code', hext, hcalls⟩ := e.emit_invokes hemit
  obtain rfl : code' = code := by
    rw [extend_loaded] at hext
    simpa [OpenBody.loaded] using hext.symm
  refine hcalls f operands ?_
  simpa [OpenBody.loaded] using hf

end Emitted

end Reckon
