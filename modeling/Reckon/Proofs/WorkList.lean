import Reckon.Proofs.Registry

/-!
# Proofs — WorkList

The work list and the recursion it stands for.  `Expr.lowerRec` emits the code of an expression by
recursion, with every check written out where it is made; the work list gives the same register or
the same failure and leaves the same builder (`Expr.lower_eq_lowerRec`).

An operator or a call takes its operands from the stack of finished registers, whatever is there.
Tasks are *balanced* over a stack (`Lowering.Balanced`) when each finds as many registers as it
takes and the last one leaves a single register.  Doing a task leaves balanced tasks balanced
(`Lowering.Balanced.move`), and so does all the work (`Lowering.Balanced.comes`): from an expression
on an empty stack, no task ever meets a stack that is too short.

* `Expr.lower_recursive`: the work list is the recursion, and never takes from too short a stack.
-/

namespace Reckon

/-! ### Recursion -/

mutual

/-- Emit the code of an expression, by recursion.  Whether there is such an operator is asked behind
its operands; whether a callee is registered, with as many parameters, and declared is asked in this
order and before its arguments. -/
def Expr.lowerRec (env : Env) : Expr → LowerM Reg
  | .number value => Lowering.emit (.const value)
  | .var name =>
    match env.params.lookup name with
    | some reg => return reg
    | none => throw (.unknownVariable name)
  | .binary op left right => do
    let l ← left.lowerRec env
    let r ← right.lowerRec env
    match op with
    | '+' => Lowering.emit (.arith .add l r)
    | '-' => Lowering.emit (.arith .sub l r)
    | '*' => Lowering.emit (.arith .mul l r)
    | '<' => do
      let flag ← Lowering.emit (.less l r)
      Lowering.emit (.widen flag)
    | _ => throw (.invalidOperator op)
  | .call name args =>
    match env.signatures.arity? name with
    | none => throw (.unknownFunction name)
    | some arity =>
      if arity ≠ args.length then throw (.arityMismatch name arity args.length)
      else do
        let b ← get
        if (b.module.find? name).isNone then throw (.unknownFunction name)
        else do
          let regs ← lowerRecAll env args
          Lowering.emit (.call name regs)

/-- Emit the code of several expressions, the first one first. -/
def Expr.lowerRecAll (env : Env) : List Expr → LowerM (List Reg)
  | [] => return []
  | e :: es => do
    let reg ← e.lowerRec env
    let regs ← lowerRecAll env es
    return reg :: regs

end

namespace Lowering

theorem operator_eq (op : Char) (l r : Reg) :
    operator op l r = match op with
      | '+' => emit (.arith .add l r)
      | '-' => emit (.arith .sub l r)
      | '*' => emit (.arith .mul l r)
      | '<' => do
        let flag ← emit (.less l r)
        emit (.widen flag)
      | _ => throw (.invalidOperator op) := by
  unfold operator
  fun_cases Arith.ofChar? op with
  | case1 | case2 | case3 => rfl
  | case4 op h₁ h₂ h₃ =>
      by_cases h : op = '<'
      · subst h; rfl
      · simp only [if_neg h]

/-- What follows a callee knows it by the name that was asked for. -/
theorem callee_bind (env : Env) (name : String) (count : Nat) {α : Type} (k : String → LowerM α) :
    (callee env name count >>= fun handle => k handle.name) =
      match env.signatures.arity? name with
      | none => throw (.unknownFunction name)
      | some arity =>
        if arity ≠ count then throw (.arityMismatch name arity count)
        else get >>= fun b =>
          if (b.module.find? name).isNone then throw (.unknownFunction name) else k name := by
  funext b
  have hcallee := callee_eq env name count b
  cases hs : env.signatures.arity? name with
  | none =>
      rw [hs] at hcallee
      exact bind_of_error hcallee
  | some arity =>
      simp only [hs] at hcallee
      by_cases hc : arity = count
      · rw [if_pos hc, Builder.lookup] at hcallee
        have hget : (get : LowerM Builder) b = .ok b b := rfl
        simp only [ne_eq, hc, not_true_eq_false, if_false]
        rw [bind_of_ok hget]
        cases hd : b.module.find? name with
        | none =>
            rw [hd] at hcallee
            exact bind_of_error hcallee
        | some d =>
            have hname : d.name = name := by simpa using List.find?_some hd
            rw [hd] at hcallee
            rw [bind_of_ok hcallee, Decl.handle, hname]
            rfl
      · rw [if_neg hc] at hcallee
        simp only [ne_eq, hc, not_false_eq_true, if_true]
        exact bind_of_error hcallee

end Lowering

mutual

theorem Expr.emit_eq_lowerRec (env : Env) (e : Expr) : e.emit env = e.lowerRec env := by
  cases e with
  | number v => rw [emit, lowerRec]
  | var x =>
      rw [emit, lowerRec]
      rfl
  | binary op l r =>
      rw [emit, lowerRec, l.emit_eq_lowerRec env, r.emit_eq_lowerRec env]
      simp only [Lowering.operator_eq]
  | call f args =>
      rw [emit, lowerRec, emitAll_eq_lowerRecAll env args]
      exact Lowering.callee_bind env f args.length fun name => do
        let regs ← lowerRecAll env args
        Lowering.emit (.call name regs)

theorem Expr.emitAll_eq_lowerRecAll (env : Env) (es : List Expr) :
    emitAll env es = lowerRecAll env es := by
  cases es with
  | nil => rw [emitAll, lowerRecAll]
  | cons e es =>
      rw [emitAll, lowerRecAll, e.emit_eq_lowerRec env, emitAll_eq_lowerRecAll env es]

end

/-- The work list emits the code of an expression as the recursion does. -/
theorem Expr.lower_eq_lowerRec (env : Env) (e : Expr) : e.lower env = e.lowerRec env :=
  (e.lower_eq_emit env).trans (e.emit_eq_lowerRec env)

/-! ### The stack -/

namespace Lowering

/-- The tasks, done on a stack of so many registers, all find what they take and leave one. -/
def Balanced : List Task → Nat → Prop
  | [], height => height = 1
  | .visit _ :: rest, height => Balanced rest (height + 1)
  | .operate _ :: rest, height => 2 ≤ height ∧ Balanced rest (height - 1)
  | .invoke _ count :: rest, height => count ≤ height ∧ Balanced rest (height - count + 1)

/-- The first task finds the registers it takes; where no task is left, there is the one register of
the result. -/
def Work.Supplied : Work → Prop
  | ⟨[], values⟩ => values.length = 1
  | ⟨.visit _ :: _, _⟩ => True
  | ⟨.operate _ :: _, values⟩ => 2 ≤ values.length
  | ⟨.invoke _ count :: _, values⟩ => count ≤ values.length

variable {env : Env} {w w' : Work} {b b' : Builder}

/-- Expressions to emit put a register each on the stack. -/
theorem balanced_visits (es : List Expr) (rest : List Task) (height : Nat) :
    Balanced (es.map .visit ++ rest) height ↔ Balanced rest (height + es.length) := by
  induction es generalizing height with
  | nil => rfl
  | cons e es ih =>
      rw [List.map_cons, List.cons_append, Balanced, ih, List.length_cons, Nat.add_right_comm,
        Nat.add_assoc]

theorem Balanced.supplied (h : Balanced w.tasks w.values.length) : w.Supplied := by
  obtain ⟨tasks, values⟩ := w
  cases tasks with
  | nil => exact h
  | cons task rest =>
      cases task with
      | visit e => trivial
      | operate op => exact h.1
      | invoke handle count => exact h.1

/-- Doing a task leaves balanced tasks balanced. -/
theorem Balanced.move (h : Balanced w.tasks w.values.length)
    (hmove : Lowering.move env w b = .ok (.inr w') b') :
    Balanced w'.tasks w'.values.length := by
  fun_cases Lowering.move env w with
  | case1 => cases hmove
  | case2 => cases hmove
  | case3 v rest values =>
      obtain ⟨reg, b₁, -, hdone⟩ := bind_eq_ok hmove
      cases hdone
      exact h
  | case4 x rest values =>
      obtain ⟨reg, b₁, -, hdone⟩ := bind_eq_ok hmove
      cases hdone
      exact h
  | case5 op l r rest values =>
      -- both operands are there when the operator's turn comes
      cases hmove
      exact ⟨by omega, h⟩
  | case6 f args rest values =>
      obtain ⟨handle, b₁, -, hdone⟩ := bind_eq_ok hmove
      cases hdone
      refine (balanced_visits args _ _).mpr ⟨by omega, ?_⟩
      rwa [Nat.add_sub_cancel]
  | case7 op rest r l values =>
      obtain ⟨reg, b₁, -, hdone⟩ := bind_eq_ok hmove
      cases hdone
      exact h.2
  | case8 op rest values hshort =>
      rw [Lowering.move] at hmove
      · cases hmove
      · exact hshort
  | case9 handle count rest values =>
      obtain ⟨reg, b₁, -, hdone⟩ := bind_eq_ok hmove
      cases hdone
      simpa [List.length_drop] using h.2

/-- Balanced tasks stay balanced as long as the work goes on. -/
theorem Balanced.comes {s s' : Work × Builder} (h : Balanced s.1.tasks s.1.values.length)
    (hcomes : Comes env s s') : Balanced s'.1.tasks s'.1.values.length := by
  induction hcomes with
  | refl => exact h
  | tail _ hmove ih => exact ih.move hmove

/-- What the work comes to is what is left of it. -/
theorem Comes.run_eq {s s' : Work × Builder} (h : Comes env s s') :
    run env s.1.tasks s.1.values s.2 = run env s'.1.tasks s'.1.values s'.2 := by
  induction h with
  | refl => rfl
  | tail _ hmove ih =>
      rw [ih, run_eq_move, bind_of_ok hmove]

end Lowering

/-- **The work list is the recursion it stands for.**  For every expression, registered functions,
parameters and builder, the work list gives the register or the failure that the recursion gives and
leaves the builder that the recursion leaves; this is the builder before with some code behind that
of its open body, and where a body is open it is the expression that fails and not the builder.
Whatever the work comes to on the way is what is left of it, and the stack of finished registers is
then high enough for the next task: operators find two operands, calls find all their arguments, and
in the end there is the one register of the result. -/
theorem Expr.lower_recursive (env : Env) (e : Expr) (b : Builder) :
    e.lower env b = e.lowerRec env b ∧
    (match e.lower env b with
      | .ok _ b' => ∃ code, b' = b.extend code
      | .error failure b' =>
          (∃ code, b' = b.extend code) ∧ (b.current.isSome → failure.OfTree)) ∧
    ∀ w b', Lowering.Comes env (⟨[.visit e], []⟩, b) (w, b') →
      e.lower env b = Lowering.run env w.tasks w.values b' ∧ w.Supplied := by
  refine ⟨congrFun (e.lower_eq_lowerRec env) b, ?_, fun w b' h => ⟨h.run_eq, ?_⟩⟩
  · have hextends := e.emit_extends env b
    rw [Expr.lower_eq_emit]
    cases hr : e.emit env b with
    | ok reg b' => rw [hr] at hextends; exact hextends
    | error failure b' => rw [hr] at hextends; exact hextends
  · have hone : Lowering.Balanced [.visit e] ([] : List Reg).length := rfl
    exact (hone.comes h).supplied

/-- A call of a registered function and an operator: when the operator's turn comes, its operands
are the register of the call and that of the number. -/
theorem Expr.lower_recursive_product :
    let env : Env := ⟨⟨[("f", 1)]⟩, [("x", ⟨0⟩)]⟩
    let opened (code : Array Instr) : Builder :=
      ⟨⟨"main", [⟨"f", 1, none⟩, ⟨"g", 1, none⟩]⟩, some ⟨⟨"g", 1⟩, ["x"], code⟩⟩
    let e : Expr := .binary '*' (.call "f" [.var "x"]) (.number 2)
    let left : Lowering.Work := ⟨[.operate '*'], [⟨2⟩, ⟨1⟩]⟩
    let done : Array Instr := #[.param 0, .call "f" [⟨0⟩], .const 2]
    Lowering.Comes env (⟨[.visit e], []⟩, opened #[.param 0]) (left, opened done) ∧
    left.Supplied ∧
    e.lower env (opened #[.param 0]) =
      .ok ⟨3⟩ (opened (done.push (.arith .mul ⟨1⟩ ⟨2⟩))) := by
  intro env opened e left done
  have next {w w' : Lowering.Work} {b b' : Builder} {s : Lowering.Work × Builder}
      (h : Lowering.move env w b = .ok (.inr w') b') (hrest : Lowering.Comes env (w', b') s) :
      Lowering.Comes env (w, b) s := .head h hrest
  have hcomes : Lowering.Comes env (⟨[.visit e], []⟩, opened #[.param 0]) (left, opened done) :=
    next rfl (next rfl (next rfl (next rfl (next rfl .refl))))
  obtain ⟨hrun, hleft⟩ := (e.lower_recursive env (opened #[.param 0])).2.2 _ _ hcomes
  refine ⟨hcomes, hleft, hrun.trans ?_⟩
  simp only [left, Lowering.run]
  rfl

end Reckon
