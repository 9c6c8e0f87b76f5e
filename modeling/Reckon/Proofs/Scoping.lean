import Reckon.Proofs.Registry

/-!
# Proofs — Scoping

The forms that are generated.  An expression is *scoped* (`Expr.Scoped`) when all its variables are
bound, all its calls known and all its operators among those there are, wherever they stand.  Work
*accepts* a condition (`Lowering.Accepts`) when on an open body it succeeds just under it.  What is
done one after the other accepts both conditions, so emission accepts the scoped expressions, node
by node (`Expr.accepts_emit`).

* `firstRepeated_eq_some`: the repeated parameter that is reported is the first one.
* `Generator.define_ok_iff`: a function is generated when no parameter is repeated and its body can
  be emitted.
* `generate_ok_iff_scoped`: the forms that are generated in every state commands lead to.
-/

namespace Reckon

/-! ### Repeated parameters -/

/-- The name that is found repeats one before it, and up to it no name is repeated. -/
theorem firstRepeated_eq_some {seen xs : List String} {x : String}
    (h : firstRepeated seen xs = some x) :
    ∃ before after, xs = before ++ x :: after ∧ before.Nodup ∧ (∀ y ∈ before, y ∉ seen) ∧
      (x ∈ before ∨ x ∈ seen) := by
  induction xs generalizing seen with
  | nil => cases h
  | cons y ys ih =>
      rw [firstRepeated] at h
      split at h
      · next hy =>
          cases h
          exact ⟨[], ys, rfl, .nil, by simp, .inr hy⟩
      · next hy =>
          obtain ⟨before, after, rfl, hdistinct, hseen, hx⟩ := ih h
          refine ⟨y :: before, after, rfl, ?_, ?_, ?_⟩
          · exact List.nodup_cons.mpr ⟨fun hmem => hseen y hmem List.mem_cons_self, hdistinct⟩
          · intro z hz
            rcases List.mem_cons.mp hz with rfl | hz
            · exact hy
            · exact fun hmem => hseen z hz (List.mem_cons_of_mem _ hmem)
          · rcases hx with hx | hx
            · exact .inl (List.mem_cons_of_mem _ hx)
            · rcases List.mem_cons.mp hx with rfl | hx
              · exact .inl List.mem_cons_self
              · exact .inr hx

/-! ### Scoped expressions -/

namespace Expr

mutual

/-- The operator stands somewhere in the expression. -/
def Operates (op : Char) : Expr → Prop
  | .number _ => False
  | .var _ => False
  | .binary o left right => o = op ∨ left.Operates op ∨ right.Operates op
  | .call _ args => AnyOperates op args

/-- The operator stands somewhere in one of the expressions. -/
def AnyOperates (op : Char) : List Expr → Prop
  | [] => False
  | e :: es => e.Operates op ∨ AnyOperates op es

end

/-- All variables of the expression are bound, all its calls are known, with their numbers of
arguments, and all its operators are among the four there are. -/
@[mk_iff] structure Scoped (known : String → Nat → Prop) (bound : String → Prop) (e : Expr) :
    Prop where
  mentions : ∀ x, e.Mentions x → bound x
  invokes : ∀ f count, e.Invokes f count → known f count
  operates : ∀ op, e.Operates op → op ∈ ['+', '-', '*', '<']

/-- All of the expressions are scoped. -/
@[mk_iff] structure AllScoped (known : String → Nat → Prop) (bound : String → Prop)
    (es : List Expr) : Prop where
  mentions : ∀ x, AnyMentions x es → bound x
  invokes : ∀ f count, AnyInvokes f count es → known f count
  operates : ∀ op, AnyOperates op es → op ∈ ['+', '-', '*', '<']

variable {known : String → Nat → Prop} {bound : String → Prop}

theorem scoped_number (v : Float) : (number v).Scoped known bound := ⟨nofun, nofun, nofun⟩

theorem scoped_var {x : String} : (var x).Scoped known bound ↔ bound x :=
  ⟨fun h => h.mentions x rfl, fun h => ⟨by rintro y rfl; exact h, nofun, nofun⟩⟩

theorem scoped_binary {op : Char} {l r : Expr} :
    (binary op l r).Scoped known bound ↔
      l.Scoped known bound ∧ r.Scoped known bound ∧ op ∈ ['+', '-', '*', '<'] := by
  simp only [scoped_iff, Mentions, Invokes, Operates, or_imp, forall_and, forall_eq']
  tauto

theorem scoped_call {f : String} {args : List Expr} :
    (call f args).Scoped known bound ↔ known f args.length ∧ AllScoped known bound args := by
  constructor
  · intro h
    exact ⟨h.invokes f _ (.inl ⟨rfl, rfl⟩), h.mentions, fun g n hg => h.invokes g n (.inr hg),
      h.operates⟩
  · rintro ⟨hf, hargs⟩
    refine ⟨hargs.mentions, ?_, hargs.operates⟩
    rintro g n (⟨rfl, rfl⟩ | hg)
    · exact hf
    · exact hargs.invokes g n hg

theorem allScoped_nil : AllScoped known bound [] := ⟨nofun, nofun, nofun⟩

theorem allScoped_cons {e : Expr} {es : List Expr} :
    AllScoped known bound (e :: es) ↔ e.Scoped known bound ∧ AllScoped known bound es := by
  simp only [scoped_iff, allScoped_iff, AnyMentions, AnyInvokes, AnyOperates, or_imp, forall_and]
  tauto

end Expr

/-! ### What emission accepts -/

namespace Lowering

/-- On an open body over the module, the work succeeds just under the condition. -/
def Accepts (m : Module) {α : Type} (work : LowerM α) (condition : Prop) : Prop :=
  ∀ b : Builder, b.module = m → b.current.isSome →
    ((∃ a b', work b = .ok a b') ↔ condition)

namespace Accepts

variable {m : Module} {α β : Type} {work : LowerM α} {P Q : Prop}

theorem of_ok (h : ∀ b : Builder, b.current.isSome → ∃ a b', work b = .ok a b') :
    Accepts m work True :=
  fun b _ hopen => iff_true_intro (h b hopen)

theorem pure (a : α) : Accepts m (Pure.pure a) True := of_ok fun b _ => ⟨a, b, rfl⟩

/-- Work that only adds to the open body leaves the rest to be accepted where it was. -/
theorem bind {rest : α → LowerM β} (hwork : Accepts m work P) (hextends : Extends work)
    (hrest : ∀ a, Accepts m (rest a) Q) : Accepts m (work >>= rest) (P ∧ Q) := by
  intro b hm hopen
  have hfirst := hwork b hm hopen
  have hadds := hextends b
  cases hr : work b with
  | error e b' =>
      rw [hr] at hfirst
      rw [bind_of_error hr]
      simpa using fun hP => absurd (hfirst.mpr hP) (by simp)
  | ok a b' =>
      rw [hr] at hfirst hadds
      obtain ⟨code, rfl⟩ := hadds
      have hthen := hrest a (b.extend code) hm (by rwa [Builder.isSome_current_extend])
      rw [bind_of_ok hr]
      exact hthen.trans (and_iff_right (hfirst.mp ⟨a, _, rfl⟩)).symm

theorem congr (h : Accepts m work P) (hPQ : P ↔ Q) : Accepts m work Q :=
  fun b hm hopen => (h b hm hopen).trans hPQ

theorem emit (i : Instr) : Accepts m (Lowering.emit i) True := by
  refine of_ok fun b hopen => ?_
  obtain ⟨body, hbody⟩ := Option.isSome_iff_exists.mp hopen
  exact ⟨_, _, Lowering.emit_of_open hbody i⟩

theorem variableReg (env : Env) (x : String) :
    Accepts m (Lowering.variableReg env x) (env.params.lookup x).isSome := by
  unfold Lowering.variableReg
  cases env.params.lookup x with
  | some reg => exact (pure reg).congr (by simp)
  | none => exact fun b _ _ => ⟨nofun, nofun⟩

theorem callee (env : Env) (f : String) (count : Nat) :
    Accepts m (Lowering.callee env f count)
      (env.signatures.arity? f = some count ∧ (m.find? f).isSome) := by
  rintro b rfl -
  constructor
  · rintro ⟨handle, b', h⟩
    exact known_of_callee h
  · rintro ⟨harity, hfind⟩
    obtain ⟨d, hd⟩ := Option.isSome_iff_exists.mp hfind
    have hlookup : b.lookup f = some d.handle := by rw [Builder.lookup, hd]; rfl
    refine ⟨d.handle, b, ?_⟩
    simp only [callee_eq, harity, hlookup, if_true]

theorem operator (op : Char) (l r : Reg) :
    Accepts m (Lowering.operator op l r) (op ∈ ['+', '-', '*', '<']) := by
  unfold Lowering.operator
  fun_cases Arith.ofChar? op with
  | case1 | case2 | case3 => exact (emit _).congr (by simp)
  | case4 op hadd hsub hmul =>
      by_cases hless : op = '<'
      · simp only [if_pos hless]
        exact ((emit _).bind (.emit _) fun _ => emit _).congr (by simp [hless])
      · simp only [if_neg hless]
        exact fun b _ _ => ⟨nofun, fun h => by simp_all⟩

end Accepts

end Lowering

mutual

/-- **Emission accepts the scoped expressions.** -/
theorem Expr.accepts_emit (m : Module) (env : Env) (e : Expr) :
    Lowering.Accepts m (e.emit env)
      (e.Scoped (fun f count => env.signatures.arity? f = some count ∧ (m.find? f).isSome)
        fun x => (env.params.lookup x).isSome) := by
  cases e with
  | number v =>
      rw [emit]
      exact (Lowering.Accepts.emit _).congr (iff_of_true trivial (scoped_number v))
  | var x =>
      rw [emit]
      refine (Lowering.Accepts.variableReg env x).congr ?_
      rw [scoped_var]
  | binary op l r =>
      rw [emit]
      refine (Lowering.Accepts.bind (l.accepts_emit m env) (l.emit_extends env) fun rl =>
        .bind (r.accepts_emit m env) (r.emit_extends env) fun rr => .operator op rl rr).congr ?_
      rw [scoped_binary]
  | call f args =>
      rw [emit]
      refine (Lowering.Accepts.bind (.callee env f args.length) (.callee _ _ _) fun handle =>
        .bind (emitAll_accepts m env args) (emitAll_extends env args) fun regs => .emit _).congr ?_
      rw [and_true, scoped_call]

theorem Expr.emitAll_accepts (m : Module) (env : Env) (es : List Expr) :
    Lowering.Accepts m (emitAll env es)
      (AllScoped (fun f count => env.signatures.arity? f = some count ∧ (m.find? f).isSome)
        (fun x => (env.params.lookup x).isSome) es) := by
  cases es with
  | nil =>
      rw [emitAll]
      exact (Lowering.Accepts.pure _).congr (iff_of_true trivial allScoped_nil)
  | cons e es =>
      rw [emitAll]
      refine (Lowering.Accepts.bind (e.accepts_emit m env) (e.emit_extends env) fun reg =>
        .bind (emitAll_accepts m env es) (emitAll_extends env es) fun regs => .pure _).congr ?_
      rw [and_true, allScoped_cons]

end

/-! ### Functions -/

/-- A body that is open can be given to a function that is declared. -/
theorem Builder.finish_of_open {b : Builder} {body : OpenBody} (hopen : b.current = some body)
    (scope : Scope) (hdeclared : (b.module.find? scope.function.name).isSome) (reg : Reg) :
    BuildM.lift (finish scope reg) b = .ok scope.function
      { module := b.module.define scope.function.name ⟨body.params, body.code, reg⟩ } := by
  simp only [BuildM.lift, finish, hopen, if_pos hdeclared]

/-- A name has a register if it is a parameter. -/
theorem isSome_lookup_zip {x : String} {params : List String} {regs : List Reg}
    (h : params.length = regs.length) :
    ((params.zip regs).lookup x).isSome ↔ x ∈ params := by
  induction params generalizing regs with
  | nil => simp
  | cons p ps ih =>
      cases regs with
      | nil => cases h
      | cons r rs =>
          rw [List.zip_cons_cons, List.lookup_cons, List.mem_cons]
          cases hp : x == p with
          | true => simp_all
          | false =>
              have hne : x ≠ p := by simpa using hp
              simpa [hne] using ih (Nat.succ.inj h)

namespace Generator

variable {g : Generator}

/-- What is registered while the body of a function is generated: the function itself, and the
others as before. -/
theorem arity?_declare (g : Generator) (p : Prototype) (f : String) :
    (g.declare p).2.arity? f = if f = p.name then some p.params.length else g.arity? f :=
  Signatures.arity?_insert _ _ _ _

/-- **When a function is generated**: no parameter is repeated, and its body can be emitted. -/
theorem define_ok_iff (hg : g.builder.current = none) (f : Function) :
    (∃ handle g', define f g = .ok handle g') ↔
      firstRepeated [] f.prototype.params = none ∧
      ∃ reg b, f.body.emit (g.scopeOf f.prototype) (g.opened f.prototype) = .ok reg b := by
  have hrun : Lowering.run (g.scopeOf f.prototype) [.visit f.body] [] =
      f.body.emit (g.scopeOf f.prototype) := Expr.lower_eq_emit _ _
  have hextends := f.body.emit_extends (g.scopeOf f.prototype) (g.opened f.prototype)
  rw [define]
  cases hr : firstRepeated [] f.prototype.params with
  | some x => simp
  | none =>
      have hbody := emitBody_opened hg (firstRepeated_eq_none_iff.mp hr).1
      rw [hrun] at hbody
      cases hemit : f.body.emit (g.scopeOf f.prototype) (g.opened f.prototype) with
      | error e b =>
          rw [bind_of_error hemit] at hbody
          simp [hbody, around]
      | ok reg b =>
          rw [hemit] at hextends
          obtain ⟨code, rfl⟩ := hextends
          -- the function has been declared, so the builder takes the body
          have hdeclared : ((g.opened f.prototype).module.find? f.prototype.name).isSome := by
            simp [opened, declare, Builder.declare, Module.find?_declare]
          have hopen := Builder.extend_current (b := g.opened f.prototype) rfl code
          rw [bind_of_ok hemit,
            Builder.finish_of_open hopen ⟨(g.declare f.prototype).1⟩ hdeclared] at hbody
          simp [hbody, around]

/-- A body can be emitted if it is scoped, with what is registered then for what is known and the
parameters for what is bound. -/
theorem emit_ok_iff (hb : g.Backed) (p : Prototype) (e : Expr) :
    (∃ reg b, e.emit (g.scopeOf p) (g.opened p) = .ok reg b) ↔
      e.Scoped (fun f count => if f = p.name then count = p.params.length
        else g.arity? f = some count) (· ∈ p.params) := by
  rw [e.accepts_emit (g.opened p).module (g.scopeOf p) (g.opened p) rfl rfl]
  -- what is registered is declared, so asking for both asks for the first
  have hknown (f : String) (count : Nat) :
      ((g.scopeOf p).signatures.arity? f = some count ∧ ((g.opened p).module.find? f).isSome) ↔
        if f = p.name then count = p.params.length else g.arity? f = some count := by
    have harity : (g.scopeOf p).signatures.arity? f = (g.declare p).2.arity? f := rfl
    have hdeclared : (g.declare p).2.arity? f = some count →
        ((g.opened p).module.find? f).isSome := by
      intro h
      obtain ⟨d, hd, -⟩ := Option.map_eq_some_iff.mp (hb.declare p f count h)
      exact Option.isSome_of_eq_some hd
    rw [harity, and_iff_left_of_imp hdeclared, arity?_declare]
    split
    · rw [Option.some_inj, eq_comm]
    · rfl
  have hbound (x : String) : ((g.scopeOf p).params.lookup x).isSome ↔ x ∈ p.params :=
    isSome_lookup_zip (by simp)
  simp only [hknown, hbound]

/-- **When a form with a body is generated.** -/
theorem generate_ok_iff (hg : g.builder.current = none) (hb : g.Backed) {form : Form} {body : Expr}
    (h : form.body? = some body) :
    (∃ handle g', generate form g = .ok handle g') ↔
      form.prototype.params.Nodup ∧
      body.Scoped (fun f count => if f = form.prototype.name
        then count = form.prototype.params.length else g.arity? f = some count)
        (· ∈ form.prototype.params) := by
  have hdefine (f : Function) : (∃ handle g', define f g = .ok handle g') ↔
      f.prototype.params.Nodup ∧
      f.body.Scoped (fun h count => if h = f.prototype.name then count = f.prototype.params.length
        else g.arity? h = some count) (· ∈ f.prototype.params) := by
    rw [define_ok_iff hg, emit_ok_iff hb, firstRepeated_eq_none_iff]
    simp
  cases form with
  | definition f => cases h; exact hdefine f
  | expression f => cases h; exact hdefine f
  | declaration p => cases h

/-- Repeated parameters are reported by the first one that repeats another. -/
theorem generate_of_repeated {form : Form} {body : Expr} (h : form.body? = some body)
    (hrepeated : ¬ form.prototype.params.Nodup) :
    ∃ before x after, form.prototype.params = before ++ x :: after ∧ before.Nodup ∧ x ∈ before ∧
      generate form g = .error (.duplicateParameter form.prototype.name x) g := by
  have hdefine (f : Function) (hrepeated : ¬ f.prototype.params.Nodup) :
      ∃ before x after, f.prototype.params = before ++ x :: after ∧ before.Nodup ∧ x ∈ before ∧
        define f g = .error (.duplicateParameter f.prototype.name x) g := by
    cases hr : firstRepeated [] f.prototype.params with
    | none => exact absurd (firstRepeated_eq_none_iff.mp hr).1 hrepeated
    | some x =>
        obtain ⟨before, after, hparams, hdistinct, -, hx⟩ := firstRepeated_eq_some hr
        refine ⟨before, x, after, hparams, hdistinct, hx.resolve_right List.not_mem_nil, ?_⟩
        simp only [define, hr]
  cases form with
  | definition f => exact hdefine f hrepeated
  | expression f => exact hdefine f hrepeated
  | declaration p => cases h

end Generator

/-- **The forms that are generated are the scoped ones.**  In every state commands lead to, a
declaration is always generated.  A definition or a bare expression is generated if and only if its
parameters are distinct, every variable of its body is one of them, every call is of the function
itself with as many arguments as it has parameters, or of another function that is registered with
as many, and every operator is one of the four.  Where the parameters are not distinct, the failure
names the first one that repeats another before it.  No failure is one of the builder. -/
theorem generate_ok_iff_scoped (moduleName : String) (commands : List Command) :
    let g := (Command.runAll moduleName commands).1
    (∀ p, ∃ g', Generator.generate (.declaration p) g = .ok ⟨p.name, p.params.length⟩ g') ∧
    (∀ (form : Form) (body : Expr), form.body? = some body →
      let name := form.prototype.name
      let params := form.prototype.params
      ((∃ handle g', Generator.generate form g = .ok handle g') ↔
        params.Nodup ∧
        (∀ x, body.Mentions x → x ∈ params) ∧
        (∀ f count, body.Invokes f count →
          if f = name then count = params.length else g.arity? f = some count) ∧
        ∀ op, body.Operates op → op ∈ ['+', '-', '*', '<']) ∧
      (¬ params.Nodup → ∃ before x after,
        params = before ++ x :: after ∧ before.Nodup ∧ x ∈ before ∧
        Generator.generate form g = .error (.duplicateParameter name x) g)) ∧
    ∀ form e g', Generator.generate form g ≠ .error (.build e) g' := by
  intro g
  have hg : g.Clear := Generator.clear_runAll moduleName commands
  have hb : g.Backed := Generator.backed_runAll moduleName commands
  refine ⟨fun p => ⟨_, rfl⟩, fun form body h => ⟨?_, Generator.generate_of_repeated h⟩,
    fun form e g' => Generator.generate_ne_build hg.toIdle⟩
  rw [Generator.generate_ok_iff hg.closed hb h, Expr.scoped_iff]

/-- A function that calls a declared one and itself is generated; one whose parameters are repeated
is not. -/
theorem generate_ok_iff_scoped_calls :
    let g := (Command.runAll "main" [.generate (.declaration ⟨"f", ["x"]⟩)]).1
    let body : Expr := .binary '+' (.call "f" [.var "a"]) (.call "h" [.var "b", .number 1])
    (∃ handle g', Generator.generate (.definition ⟨⟨"h", ["a", "b"]⟩, body⟩) g = .ok handle g') ∧
    ∃ before x after, ["a", "b", "a", "b"] = before ++ x :: after ∧ before.Nodup ∧ x ∈ before ∧
      Generator.generate (.definition ⟨⟨"h", ["a", "b", "a", "b"]⟩, body⟩) g =
        .error (.duplicateParameter "h" x) g := by
  intro g body
  obtain ⟨-, hforms, -⟩ := generate_ok_iff_scoped "main" [.generate (.declaration ⟨"f", ["x"]⟩)]
  refine ⟨(hforms (.definition ⟨⟨"h", ["a", "b"]⟩, body⟩) body rfl).1.mpr ⟨?_, ?_, ?_, ?_⟩,
    (hforms (.definition ⟨⟨"h", ["a", "b", "a", "b"]⟩, body⟩) body rfl).2 (by decide)⟩
  · decide
  · intro x hx
    have hx : x = "a" ∨ x = "b" := by
      simpa [body, Expr.Mentions, Expr.AnyMentions, eq_comm] using hx
    simpa [Form.prototype] using hx
  · intro f count hf
    have hf : f = "f" ∧ count = 1 ∨ f = "h" ∧ count = 2 := by
      simpa [body, Expr.Invokes, Expr.AnyInvokes, eq_comm] using hf
    rcases hf with ⟨rfl, rfl⟩ | ⟨rfl, rfl⟩
    · decide +kernel
    · decide +kernel
  · simp [body, Expr.Operates, Expr.AnyOperates]

end Reckon
