import Reckon.Proofs.Effect

/-!
# Proofs — WellFormed

Code that never misreads a register.  A body is well formed for an arity when it loads as many
parameters first and none later, reads only registers defined before, takes numbers for numbers and
truth values for truth values, and returns a number.

* `Emitted.wellFormed`: a body made of a tree is well formed.
* `Module.WellFormed.safe_call`: where all bodies are well formed, no call misreads a register.
* `wellFormed_and_never_misread`: every module that commands lead to is well formed, and no
  execution of a well-formed module fails at an operand.
-/

namespace Reckon

/-! ### Well-formed code -/

/-- What a register can hold. -/
inductive Shape where
  | number
  | flag
  deriving DecidableEq

namespace Instr

/-- What the instruction leaves in its register. -/
def gives : Instr → Shape
  | .less _ _ => .flag
  | _ => .number

/-- What the instruction takes its operands for. -/
def wants : Instr → Shape
  | .widen _ => .flag
  | _ => .number

/-- The registers the instruction reads. -/
def operands : Instr → List Reg
  | .const _ => []
  | .param _ => []
  | .arith _ l r => [l, r]
  | .less l r => [l, r]
  | .widen r => [r]
  | .call _ args => args

/-- The instruction loads a parameter. -/
def isParam : Instr → Bool
  | .param _ => true
  | _ => false

end Instr

/-- The code leaves something of the shape in the register. -/
def Defines (code : Array Instr) (shape : Shape) (r : Reg) : Prop :=
  code[r.index]?.map Instr.gives = some shape

instance (code : Array Instr) (shape : Shape) (r : Reg) : Decidable (Defines code shape r) :=
  inferInstanceAs (Decidable (_ = _))

/-- Every instruction reads only registers defined before it, for what they hold. -/
def Ordered (code : Array Instr) : Prop :=
  ∀ i (_ : i < code.size), ∀ r ∈ code[i].operands, r.index < i ∧ Defines code code[i].wants r

instance (code : Array Instr) : Decidable (Ordered code) :=
  inferInstanceAs (Decidable (∀ i (_ : i < code.size), ∀ r ∈ code[i].operands,
    r.index < i ∧ Defines code code[i].wants r))

/-- The body is well formed for the arity. -/
structure Body.WellFormed (b : Body) (arity : Nat) : Prop where
  names : b.params.length = arity
  loads : ∀ i < arity, b.code[i]? = some (.param i)
  loadsOnly : ∀ i (_ : i < b.code.size), b.code[i].isParam = true → i < arity
  reads : Ordered b.code
  returns : Defines b.code .number b.result

instance (b : Body) (arity : Nat) : Decidable (b.WellFormed arity) :=
  decidable_of_iff
    (b.params.length = arity ∧ (∀ i < arity, b.code[i]? = some (.param i)) ∧
      (∀ i (_ : i < b.code.size), b.code[i].isParam = true → i < arity) ∧ Ordered b.code ∧
      Defines b.code .number b.result)
    ⟨fun ⟨h₁, h₂, h₃, h₄, h₅⟩ => ⟨h₁, h₂, h₃, h₄, h₅⟩,
      fun ⟨h₁, h₂, h₃, h₄, h₅⟩ => ⟨h₁, h₂, h₃, h₄, h₅⟩⟩

/-- A truth value is not returned. -/
example : ¬ Body.WellFormed ⟨["a", "b"], #[.param 0, .param 1, .less ⟨0⟩ ⟨1⟩], ⟨2⟩⟩ 2 := by decide

/-- Every body of the module is well formed for the arity of its function. -/
def Module.WellFormed (m : Module) : Prop :=
  ∀ d ∈ m.functions, ∀ body ∈ d.body, body.WellFormed d.arity

instance (m : Module) : Decidable m.WellFormed :=
  inferInstanceAs (Decidable (∀ d ∈ m.functions, ∀ body ∈ d.body, body.WellFormed d.arity))

/-! ### Code that grows -/

/-- The code goes on with instructions that load nothing and read what is defined before them. -/
inductive Grown (code : Array Instr) : Array Instr → Prop where
  | refl : Grown code code
  | push {more : Array Instr} {i : Instr} (h : Grown code more) (hload : i.isParam = false)
      (hreads : ∀ r ∈ i.operands, Defines more i.wants r) : Grown code (more.push i)

theorem Defines.lt_size {code : Array Instr} {shape : Shape} {r : Reg} (h : Defines code shape r) :
    r.index < code.size := by
  obtain ⟨i, hi, -⟩ := Option.map_eq_some_iff.mp h
  exact (Array.getElem?_eq_some_iff.mp hi).1

theorem Defines.push {code : Array Instr} {shape : Shape} {r : Reg} (h : Defines code shape r)
    (i : Instr) : Defines (code.push i) shape r := by
  rw [Defines, Array.getElem?_push_lt h.lt_size, ← Array.getElem?_eq_getElem]
  exact h

theorem defines_push (code : Array Instr) (i : Instr) :
    Defines (code.push i) i.gives ⟨code.size⟩ := by
  simp [Defines]

namespace Grown

variable {code more most : Array Instr}

theorem trans (h : Grown code more) (h' : Grown more most) : Grown code most := by
  induction h' with
  | refl => exact h
  | push _ hload hreads ih => exact .push ih hload hreads

theorem defines (h : Grown code more) {shape : Shape} {r : Reg} (hr : Defines code shape r) :
    Defines more shape r := by
  induction h with
  | refl => exact hr
  | push _ _ _ ih => exact ih.push _

theorem getElem?_eq (h : Grown code more) {k : Nat} {i : Instr} (hi : code[k]? = some i) :
    more[k]? = some i := by
  induction h with
  | refl => exact hi
  | push _ _ _ ih =>
      obtain ⟨hlt, -⟩ := Array.getElem?_eq_some_iff.mp ih
      rw [Array.getElem?_push_lt hlt, ← Array.getElem?_eq_getElem]
      exact ih

/-- What loads a parameter was there before. -/
theorem loadsOnly (h : Grown code more) :
    ∀ k (_ : k < more.size), more[k].isParam = true → k < code.size := by
  induction h with
  | refl => exact fun k hk _ => hk
  | @push more i _ hload _ ih =>
      intro k hk hp
      by_cases hlt : k < more.size
      · rw [Array.getElem_push_lt hlt] at hp
        exact ih k hlt hp
      · obtain rfl : k = more.size := by simp at hk; omega
        rw [Array.getElem_push_eq, hload] at hp
        cases hp

theorem ordered (h : Grown code more) (hcode : Ordered code) : Ordered more := by
  induction h with
  | refl => exact hcode
  | @push more i _ _ hreads ih =>
      intro k hk r hr
      by_cases hlt : k < more.size
      · rw [Array.getElem_push_lt hlt] at hr ⊢
        obtain ⟨hk, hd⟩ := ih k hlt r hr
        exact ⟨hk, hd.push i⟩
      · obtain rfl : k = more.size := by simp at hk; omega
        rw [Array.getElem_push_eq] at hr ⊢
        have hd := hreads r hr
        exact ⟨hd.lt_size, hd.push i⟩

end Grown

/-! ### Emission grows code -/

/-- The builder has come from one with the open body by growing its code, which then satisfies
`holds`. -/
def GrownTo (body : OpenBody) (b : Builder) (holds : Array Instr → Prop) : Prop :=
  ∃ code, b.current = some { body with code := code } ∧ Grown body.code code ∧ holds code

namespace Lowering

variable {b b' : Builder} {body : OpenBody} {reg : Reg}

theorem grownTo_emit {i : Instr} (hb : b.current = some body) (h : emit i b = .ok reg b')
    (hload : i.isParam = false) (hreads : ∀ r ∈ i.operands, Defines body.code i.wants r) :
    GrownTo body b' fun code => Defines code i.gives reg := by
  rw [emit_of_open hb] at h
  cases h
  refine ⟨body.code.push i, ?_, .push .refl hload hreads, defines_push _ _⟩
  rw [Builder.extend_current hb]
  simp

theorem grownTo_operator {op : Char} {l r : Reg} (hb : b.current = some body)
    (hl : Defines body.code .number l) (hr : Defines body.code .number r)
    (h : operator op l r b = .ok reg b') :
    GrownTo body b' fun code => Defines code .number reg := by
  have hpair : ∀ r' ∈ [l, r], Defines body.code .number r' := by simp [hl, hr]
  cases ha : Arith.ofChar? op with
  | some arith =>
      simp only [operator, ha] at h
      exact grownTo_emit hb h rfl hpair
  | none =>
      by_cases hop : op = '<'
      · simp only [operator, ha, if_pos hop] at h
        obtain ⟨flag, b₁, h₁, h⟩ := bind_eq_ok h
        obtain ⟨code, hb₁, hgrown, hflag⟩ := grownTo_emit hb h₁ rfl hpair
        have hread : ∀ r' ∈ [flag], Defines code .flag r' := by
          rintro r' (_ | ⟨_, ⟨⟩⟩)
          exact hflag
        obtain ⟨code', hb', hgrown', hreg⟩ := grownTo_emit hb₁ h rfl hread
        exact ⟨code', hb', hgrown.trans hgrown', hreg⟩
      · simp only [operator, ha, if_neg hop] at h
        cases h

end Lowering

/-- Every parameter that has a register has a number there. -/
def Bound (code : Array Instr) (params : List (String × Reg)) : Prop :=
  ∀ x r, params.lookup x = some r → Defines code .number r

theorem Bound.grown {code more : Array Instr} {params : List (String × Reg)}
    (h : Bound code params) (hgrown : Grown code more) : Bound more params :=
  fun x r hr => hgrown.defines (h x r hr)

mutual

/-- The code of an expression reads what is defined before it, and defines a number. -/
theorem Expr.emit_grownTo {env : Env} (e : Expr) {b b' : Builder} {body : OpenBody} {reg : Reg}
    (hb : b.current = some body) (hp : Bound body.code env.params)
    (h : e.emit env b = .ok reg b') : GrownTo body b' fun code => Defines code .number reg := by
  cases e with
  | number v =>
      rw [Expr.emit] at h
      exact Lowering.grownTo_emit hb h rfl (by simp [Instr.operands])
  | var x =>
      rw [Expr.emit] at h
      cases hx : env.params.lookup x with
      | none => simp only [Lowering.variableReg, hx] at h; cases h
      | some r =>
          simp only [Lowering.variableReg, hx] at h
          cases h
          exact ⟨body.code, hb, .refl, hp x _ hx⟩
  | binary op l r =>
      rw [Expr.emit] at h
      obtain ⟨rl, b₁, hl, h⟩ := bind_eq_ok h
      obtain ⟨rr, b₂, hr, h⟩ := bind_eq_ok h
      obtain ⟨cl, hb₁, gl, dl⟩ := l.emit_grownTo hb hp hl
      obtain ⟨cr, hb₂, gr, dr⟩ := r.emit_grownTo hb₁ (hp.grown gl) hr
      obtain ⟨code, hb', go, hreg⟩ := Lowering.grownTo_operator hb₂ (gr.defines dl) dr h
      exact ⟨code, hb', (gl.trans gr).trans go, hreg⟩
  | call f es =>
      rw [Expr.emit] at h
      obtain ⟨handle, b₁, hc, h⟩ := bind_eq_ok h
      obtain ⟨regs, b₂, hs, h⟩ := bind_eq_ok h
      rw [(Lowering.callee_eq_ok hc).1] at hs
      obtain ⟨cs, hb₂, gs, ds⟩ := emitAll_grownTo es hb hp hs
      obtain ⟨code, hb', gc, hreg⟩ := Lowering.grownTo_emit hb₂ h rfl ds
      exact ⟨code, hb', gs.trans gc, hreg⟩

theorem Expr.emitAll_grownTo {env : Env} (es : List Expr) {b b' : Builder} {body : OpenBody}
    {regs : List Reg} (hb : b.current = some body) (hp : Bound body.code env.params)
    (h : emitAll env es b = .ok regs b') :
    GrownTo body b' fun code => ∀ r ∈ regs, Defines code .number r := by
  cases es with
  | nil =>
      rw [emitAll] at h
      cases h
      exact ⟨body.code, hb, .refl, nofun⟩
  | cons e es =>
      rw [emitAll] at h
      obtain ⟨reg, b₁, he, h⟩ := bind_eq_ok h
      obtain ⟨regs, b₂, hs, h⟩ := bind_eq_ok h
      cases h
      obtain ⟨ce, hb₁, ge, de⟩ := e.emit_grownTo hb hp he
      obtain ⟨cs, hb', gs, ds⟩ := emitAll_grownTo es hb₁ (hp.grown ge) hs
      refine ⟨cs, hb', ge.trans gs, fun r hr => ?_⟩
      rcases List.mem_cons.mp hr with rfl | hr
      · exact gs.defines de
      · exact ds r hr

end

/-! ### Bodies and modules -/

theorem getElem?_loaded (handle : Handle) (params : List String) {k : Nat}
    (hk : k < params.length) : (OpenBody.loaded handle params []).code[k]? = some (.param k) := by
  simp [OpenBody.loaded, hk]

theorem size_loaded (handle : Handle) (params : List String) :
    (OpenBody.loaded handle params []).code.size = params.length := by
  simp [OpenBody.loaded]

theorem ordered_loaded (handle : Handle) (params : List String) :
    Ordered (OpenBody.loaded handle params []).code := by
  intro k hk r hr
  rw [size_loaded] at hk
  rw [(Array.getElem?_eq_some_iff.mp (getElem?_loaded handle params hk)).2] at hr
  cases hr

theorem bound_loaded (handle : Handle) (params : List String) :
    Bound (OpenBody.loaded handle params []).code
      (params.zip ((List.range' 0 params.length).map Reg.mk)) := by
  intro x r hr
  obtain ⟨before, after, hzip, -⟩ := List.lookup_eq_some_iff.mp hr
  have hmem : (x, r) ∈ params.zip ((List.range' 0 params.length).map Reg.mk) := by
    rw [hzip]
    simp
  obtain ⟨k, hk, rfl⟩ := List.mem_map.mp (List.of_mem_zip hmem).2
  rw [Defines, getElem?_loaded handle params (by simpa using hk)]
  rfl

/-- **A body made of a tree is well formed.** -/
theorem Emitted.wellFormed {signatures : Signatures} {m : Module} {body : Body}
    {params : List String} {e : Expr} (h : Emitted signatures m body params e) :
    body.WellFormed params.length := by
  obtain ⟨handle, code, reg, rfl, hemit⟩ := h
  obtain ⟨code', hcode, hgrown, hreg⟩ := e.emit_grownTo rfl (bound_loaded handle params) hemit
  obtain rfl : (OpenBody.loaded handle params code).code = code' := by
    simpa using congrArg (Option.map OpenBody.code) hcode
  refine ⟨rfl, fun k hk => ?_, fun k hk hp => ?_, hgrown.ordered (ordered_loaded handle params),
    hreg⟩
  · exact hgrown.getElem?_eq (getElem?_loaded handle params hk)
  · have hlt := hgrown.loadsOnly k hk hp
    rwa [size_loaded] at hlt

theorem Generator.Effect.wellFormed {form : Form} {g : Generator}
    {r : Except GenError Handle × Generator} (h : Effect form g r)
    (hg : g.builder.module.WellFormed) : r.2.builder.module.WellFormed := by
  cases h with
  | generated d hname harity hbody =>
      intro x hx body hb
      rcases Module.mem_put hx with rfl | hx
      · rw [harity]
        rw [Option.mem_def.mp hb] at hbody
        generalize form.body? = e at hbody
        cases hbody with
        | some hm => exact hm.wellFormed
      · exact hg x hx body hb
  | repeated x => exact hg
  | failed he => exact fun x hx => hg x (List.mem_of_mem_filter hx)

theorem wellFormed_runAll (moduleName : String) (commands : List Command) :
    (Command.runAll moduleName commands).1.builder.module.WellFormed := by
  have h := Generator.runAll_invariant (P := fun g => g.Clear ∧ g.builder.module.WellFormed)
    moduleName ⟨Generator.clear_fresh moduleName, nofun⟩ (fun g form ⟨hc, hm⟩ => ?_)
    (fun g ⟨hc, hm⟩ => ⟨hc.reset, hm⟩) commands
  · exact h.2
  · have heffect := Generator.effect_after form hc.toIdle
    exact ⟨heffect.clear hc, heffect.wellFormed hm⟩

/-! ### Runs that never misread -/

/-- The run fails in allowed ways only, and what it gives satisfies `holds`. -/
def Confined {α : Type} (allowed : ExecError → Prop) (m : Run α) (holds : α → Prop) : Prop :=
  ∀ acts, match m acts with
    | .ok a _ => holds a
    | .error e _ => allowed e

namespace Confined

variable {α β : Type} {allowed : ExecError → Prop} {m : Run α} {P : α → Prop}

theorem pure {a : α} (h : P a) : Confined allowed (Pure.pure a) P := fun _ => h

theorem throw {e : ExecError} (h : allowed e) : Confined allowed (throw e : Run α) P := fun _ => h

theorem bind {f : α → Run β} {R : β → Prop} (hm : Confined allowed m P)
    (hf : ∀ a, P a → Confined allowed (f a) R) : Confined allowed (m >>= f) R := by
  intro acts
  have h₁ := hm acts
  cases h : m acts with
  | error e acts₁ => rw [h] at h₁; rw [bind_of_error h]; exact h₁
  | ok a acts₁ => rw [h] at h₁; rw [bind_of_ok h]; exact hf a h₁ acts₁

theorem note (act : Act) : Confined allowed (modify (·.push act) : Run PUnit) fun _ => True :=
  fun _ => trivial

end Confined

/-- The run never fails at an operand, and what it gives satisfies `holds`. -/
abbrev Safe {α : Type} (m : Run α) (holds : α → Prop) : Prop :=
  Confined (fun e => ∀ r f, e ≠ .invalidOperand r f) m holds

/-- The shape of what a register holds. -/
def Slot.shape : Slot → Shape
  | .number _ => .number
  | .flag _ => .flag

namespace Slots

/-- The register holds something of the shape. -/
def Has (slots : Slots) (shape : Shape) (r : Reg) : Prop :=
  slots[r.index]?.map Slot.shape = some shape

/-- Every register defined so far holds what the code leaves in it. -/
def Fit (slots : Slots) (code : Array Instr) : Prop :=
  ∀ shape r, r.index < slots.size → Defines code shape r → slots.Has shape r

variable {allowed : ExecError → Prop}

theorem safe_number {slots : Slots} {r : Reg} (h : slots.Has .number r) (function : String) :
    Confined allowed (slots.number function r) fun _ => True := by
  obtain ⟨slot, hslot, hshape⟩ := Option.map_eq_some_iff.mp h
  cases slot with
  | number x => rw [number, hslot]; exact .pure trivial
  | flag b => cases hshape

theorem safe_flag {slots : Slots} {r : Reg} (h : slots.Has .flag r) (function : String) :
    Confined allowed (slots.flag function r) fun _ => True := by
  obtain ⟨slot, hslot, hshape⟩ := Option.map_eq_some_iff.mp h
  cases slot with
  | number x => cases hshape
  | flag b => rw [flag, hslot]; exact .pure trivial

theorem safe_numbers {slots : Slots} {rs : List Reg} (h : ∀ r ∈ rs, slots.Has .number r)
    (function : String) :
    Confined allowed (rs.mapM (slots.number function)) fun xs => xs.length = rs.length := by
  induction rs with
  | nil => exact .pure rfl
  | cons r rs ih =>
      rw [List.mapM_cons]
      refine .bind (safe_number (h r List.mem_cons_self) function) fun _ _ =>
        .bind (ih fun r' hr => h r' (List.mem_cons_of_mem _ hr)) fun xs hxs => .pure ?_
      rw [List.length_cons, List.length_cons, hxs]

end Slots

section Runs

variable {allowed : ExecError → Prop} {call : String → List Float → Run Float} {args : List Float}

/-- An instruction whose operands hold what it wants leaves what it gives, unless its call fails. -/
theorem Instr.safe_run (i : Instr)
    (hcall : ∀ f operands xs, i = .call f operands → xs.length = operands.length →
      Confined allowed (call f xs) fun _ => True)
    (function : String) {slots : Slots} (hparam : ∀ j, i = .param j → j < args.length)
    (hreads : ∀ r ∈ i.operands, slots.Has i.wants r) :
    Confined allowed (i.run call function args slots) fun slot => slot.shape = i.gives := by
  cases i with
  | const v => exact .pure rfl
  | param j =>
      rw [Instr.run, List.getElem?_eq_getElem (hparam j rfl)]
      exact .pure rfl
  | arith op l r =>
      exact .bind (Slots.safe_number (hreads l (by simp [operands])) function) fun _ _ =>
        .bind (Slots.safe_number (hreads r (by simp [operands])) function) fun _ _ => .pure rfl
  | less l r =>
      exact .bind (Slots.safe_number (hreads l (by simp [operands])) function) fun _ _ =>
        .bind (Slots.safe_number (hreads r (by simp [operands])) function) fun _ _ => .pure rfl
  | widen r =>
      exact .bind (Slots.safe_flag (hreads r (by simp [operands])) function) fun _ _ => .pure rfl
  | call f rs =>
      exact .bind (Slots.safe_numbers hreads function) fun xs hxs =>
        .bind (hcall f rs xs rfl hxs) fun _ _ => .pure rfl

theorem Slots.Fit.push {slots : Slots} {code : Array Instr} {i : Instr} {slot : Slot}
    (h : slots.Fit code) (hi : code[slots.size]? = some i) (hslot : slot.shape = i.gives) :
    Slots.Fit (slots.push slot) code := by
  intro shape r hr hd
  by_cases hlt : r.index < slots.size
  · rw [Has, Array.getElem?_push_lt hlt, ← Array.getElem?_eq_getElem]
    exact h shape r hlt hd
  · have heq : r.index = slots.size := by simp at hr; omega
    rw [Defines, heq, hi] at hd
    rw [Has, heq, Array.getElem?_push_size, Option.map_some, hslot]
    exact hd

/-- Running on through the code fills the registers as the code says. -/
theorem Slots.safe_runAll {code : Array Instr} (hcode : Ordered code)
    (hparam : ∀ i j : Nat, code[i]? = some (.param j) → j < args.length)
    (hcall : ∀ f operands xs, .call f operands ∈ code → xs.length = operands.length →
      Confined allowed (call f xs) fun _ => True)
    (function : String) {rest : List Instr} {slots : Slots}
    (hrest : code.toList.drop slots.size = rest) (hfit : slots.Fit code) :
    Confined allowed (slots.runAll call function args rest) fun slots' =>
      slots'.Fit code ∧ code.size ≤ slots'.size := by
  induction rest generalizing slots with
  | nil => exact .pure ⟨hfit, by simpa using hrest⟩
  | cons i rest ih =>
      have hi : code[slots.size]? = some i := by
        rw [← Array.getElem?_toList, ← List.head?_drop, hrest, List.head?_cons]
      obtain ⟨hlt, hget⟩ := Array.getElem?_eq_some_iff.mp hi
      have hreads : ∀ r ∈ i.operands, slots.Has i.wants r := by
        intro r hr
        obtain ⟨hr, hd⟩ := hcode slots.size hlt r (hget ▸ hr)
        exact hfit _ r hr (hget ▸ hd)
      rw [Slots.runAll_cons]
      refine .bind (i.safe_run (fun f operands xs hf => ?_) function
        (fun j hj => hparam slots.size j (hj ▸ hi)) hreads) fun slot hslot =>
        ih ?_ (hfit.push hi hslot)
      · exact hcall f operands xs (hf ▸ Array.mem_of_getElem? hi)
      · rw [Array.size_push, ← List.drop_drop, hrest, List.drop_one, List.tail_cons]

/-- A well-formed body fails only as one of its calls fails. -/
theorem Body.WellFormed.safe_run {body : Body} {arity : Nat} (h : body.WellFormed arity)
    (hargs : arity = args.length)
    (hcall : ∀ f operands xs, .call f operands ∈ body.code → xs.length = operands.length →
      Confined allowed (call f xs) fun _ => True)
    (function : String) : Confined allowed (body.run call function args) fun _ => True := by
  have hparam : ∀ i j : Nat, body.code[i]? = some (.param j) → j < args.length := by
    intro i j hi
    obtain ⟨hlt, hget⟩ := Array.getElem?_eq_some_iff.mp hi
    have hlt' := h.loadsOnly i hlt (by rw [hget]; rfl)
    obtain rfl : i = j := by simpa [hi, eq_comm] using h.loads i hlt'
    exact hargs ▸ hlt'
  rw [Body.run_eq]
  refine .bind (Slots.safe_runAll h.reads hparam hcall function rfl nofun) fun slots hslots => ?_
  have hresult := Nat.lt_of_lt_of_le h.returns.lt_size hslots.2
  exact Slots.safe_number (hslots.1 _ _ hresult h.returns) function

end Runs

theorem Native.safe_run (name : String) (args : List Float) :
    Safe (Native.run name args) fun _ => True := by
  unfold Native.run
  split
  · exact .throw (by simp)
  · split
    · exact .bind (.note _) fun _ _ => .pure trivial
    · exact .throw (by simp)

/-- **Where all bodies are well formed, no call misreads a register.** -/
theorem Module.WellFormed.safe_call {m : Module} (h : m.WellFormed) (left : Nat) (name : String)
    (args : List Float) : Safe (m.call left name args) fun _ => True := by
  induction left generalizing name args with
  | zero => exact .throw (by simp)
  | succ left ih =>
      rw [Module.call]
      cases hfind : m.find? name with
      | none => exact .throw (by simp)
      | some decl =>
          have hmem : decl ∈ m.functions := List.mem_of_find?_eq_some hfind
          by_cases ha : decl.arity = args.length
          · simp only [if_pos ha]
            cases hbody : decl.body with
            | none => exact Native.safe_run name args
            | some body =>
                exact .bind (.note _) fun _ _ =>
                  (h decl hmem body hbody).safe_run ha (fun f _ xs _ _ => ih f xs) name
          · simp only [if_neg ha]
            exact .throw (by simp)

/-- **Generated code is well formed, and well-formed code never misreads a register.**  Every module
that commands to a fresh generator lead to is well formed; and no execution of a function of a
well-formed module, with whatever arguments, fails because a register does not hold what is read
from it. -/
theorem wellFormed_and_never_misread :
    (∀ (moduleName : String) (commands : List Command),
      (Command.runAll moduleName commands).1.builder.module.WellFormed) ∧
    ∀ m : Module, m.WellFormed → ∀ (name : String) (args : List Float) (r : Reg) (f : String),
      (m.execute name args).result ≠ .error (.invalidOperand r f) := by
  refine ⟨wellFormed_runAll, fun m hm name args r f => ?_⟩
  have hsafe := hm.safe_call maxCallDepth name args #[]
  rw [Module.execute]
  cases hrun : m.call maxCallDepth name args #[] with
  | ok x acts =>
      intro heq
      cases heq
  | error e acts =>
      rw [hrun] at hsafe
      exact fun heq => hsafe r f (Except.error.inj heq)

/-- A comparison, and a function that calls it with what it was given, as commands generate them
with a definition between that is refused. -/
theorem wellFormed_and_never_misread_less :
    let less : Body := ⟨["a", "b"], #[.param 0, .param 1, .less ⟨0⟩ ⟨1⟩, .widen ⟨2⟩], ⟨3⟩⟩
    let main : Body := ⟨["x"], #[.param 0, .const 2, .call "less" [⟨0⟩, ⟨1⟩]], ⟨2⟩⟩
    let m : Module := ⟨"pair", [⟨"less", 2, some less⟩, ⟨"main", 1, some main⟩]⟩
    let commands : List Command :=
      [.generate (.definition ⟨⟨"less", ["a", "b"]⟩, .binary '<' (.var "a") (.var "b")⟩),
        .generate (.definition ⟨⟨"other", ["y"]⟩, .call "less" [.var "y", .var "z"]⟩),
        .generate (.definition ⟨⟨"main", ["x"]⟩, .call "less" [.var "x", .number 2]⟩)]
    (Command.runAll "pair" commands).1.builder.module = m ∧
    m.WellFormed ∧ ∀ (x : Float) (r : Reg) (f : String),
      (m.execute "main" [x]).result ≠ .error (.invalidOperand r f) := by
  intro less main m commands
  have hcommands : (Command.runAll "pair" commands).1.builder.module = m := by decide +kernel
  have hm : m.WellFormed := hcommands ▸ wellFormed_and_never_misread.1 "pair" commands
  exact ⟨hcommands, hm, fun x => wellFormed_and_never_misread.2 m hm "main" [x]⟩

end Reckon
