import Mathlib.Logic.Relation
import Reckon.Proofs.Linking

/-!
# Proofs — Registry

The signatures and the module, which are kept apart and changed at different moments, agree.  What
is registered is declared with its arity, and until the signatures are forgotten what is declared is
registered.  The same goes for every state the work list comes to while a body is generated
(`Lowering.Comes`), for the function is declared before and the work leaves the module alone.

* `Lowering.stops_of_error`: a failure of the work list is the failure of one task.
* `Generator.lookup_of_emitting`: while a body is generated, what is registered is found.
* `signatures_agree`: the agreement between commands, and during each of them.
-/

namespace Reckon

/-! ### Task by task -/

namespace Lowering

/-- What is left to do: the tasks, and the registers of finished operands. -/
structure Work where
  tasks : List Task
  values : List Reg

/-- Do the first task: what is left then, or the register of the result. -/
def move (env : Env) : Work → LowerM (Reg ⊕ Work)
  | ⟨[], reg :: _⟩ => return .inl reg
  | ⟨[], []⟩ => throw (.build .noActiveFunction)
  | ⟨.visit (.number value) :: rest, values⟩ => do
    let reg ← emit (.const value)
    return .inr ⟨rest, reg :: values⟩
  | ⟨.visit (.var name) :: rest, values⟩ => do
    let reg ← variableReg env name
    return .inr ⟨rest, reg :: values⟩
  | ⟨.visit (.binary op left right) :: rest, values⟩ =>
    return .inr ⟨.visit left :: .visit right :: .operate op :: rest, values⟩
  | ⟨.visit (.call name args) :: rest, values⟩ => do
    let handle ← callee env name args.length
    return .inr ⟨args.map .visit ++ .invoke handle args.length :: rest, values⟩
  | ⟨.operate op :: rest, right :: left :: values⟩ => do
    let reg ← operator op left right
    return .inr ⟨rest, reg :: values⟩
  | ⟨.operate _ :: _, _⟩ => throw (.build .noActiveFunction)
  | ⟨.invoke handle count :: rest, values⟩ => do
    let reg ← emit (.call handle.name (values.take count).reverse)
    return .inr ⟨rest, reg :: values.drop count⟩

variable {env : Env} {w w' : Work} {b b' : Builder}

/-- Doing the tasks is doing the first one and then those that are left. -/
theorem run_eq_move (env : Env) (w : Work) :
    run env w.tasks w.values = (do
      match ← move env w with
      | .inl reg => return reg
      | .inr w' => run env w'.tasks w'.values) := by
  fun_cases move env w with
  | case1 | case3 | case4 | case5 | case6 | case7 | case9 => rw [run]; simp
  | case2 => rw [run]; rfl
  | case8 op rest values h =>
      rw [run]
      · rfl
      · exact h

/-- A task that is done leaves less to do, and the module as it is. -/
theorem less_of_move (h : move env w b = .ok (.inr w') b') :
    weight w'.tasks < weight w.tasks ∧ b'.module = b.module := by
  fun_cases move env w with
  | case1 => cases h
  | case2 => cases h
  | case3 v rest values =>
      obtain ⟨reg, b₁, hemit, h⟩ := bind_eq_ok h
      cases h
      exact ⟨by simp [weight, Task.weight, Expr.size], (Extends.emit _).module_eq hemit⟩
  | case4 x rest values =>
      obtain ⟨reg, b₁, hvar, h⟩ := bind_eq_ok h
      cases h
      exact ⟨by simp [weight, Task.weight, Expr.size], (Extends.variableReg _ _).module_eq hvar⟩
  | case5 op l r rest values =>
      cases h
      exact ⟨by simp [weight, Task.weight, Expr.size]; omega, rfl⟩
  | case6 f args rest values =>
      obtain ⟨handle, b₁, hcallee, h⟩ := bind_eq_ok h
      cases h
      exact ⟨by simp [weight, weight_append, weight_visits, Task.weight, Expr.size]; omega,
        (Extends.callee _ _ _).module_eq hcallee⟩
  | case7 op rest r l values =>
      obtain ⟨reg, b₁, hop, h⟩ := bind_eq_ok h
      cases h
      exact ⟨by simp [weight, Task.weight], (Extends.operator _ _ _).module_eq hop⟩
  | case8 op rest values hv =>
      rw [move] at h
      · cases h
      · exact hv
  | case9 handle count rest values =>
      obtain ⟨reg, b₁, hemit, h⟩ := bind_eq_ok h
      cases h
      exact ⟨by simp [weight, Task.weight], (Extends.emit _).module_eq hemit⟩

/-- The work comes, task by task, to what is left and the builder then. -/
abbrev Comes (env : Env) : Work × Builder → Work × Builder → Prop :=
  Relation.ReflTransGen fun s s' => move env s.1 s.2 = .ok (.inr s'.1) s'.2

theorem Comes.module_eq {s s' : Work × Builder} (h : Comes env s s') :
    s'.2.module = s.2.module := by
  induction h with
  | refl => rfl
  | tail _ hmove ih => exact (less_of_move hmove).2.trans ih

/-- **A failure of the work list is the failure of one task** the work comes to. -/
theorem stops_of_error {e : GenError} (w : Work) {b : Builder}
    (h : run env w.tasks w.values b = .error e b') :
    ∃ w₁ b₁, Comes env (w, b) (w₁, b₁) ∧ move env w₁ b₁ = .error e b' := by
  rw [run_eq_move] at h
  match hm : move env w b with
  | .error e₁ b₁ =>
      rw [bind_of_error hm] at h
      cases h
      exact ⟨w, b, .refl, hm⟩
  | .ok (.inl reg) b₁ =>
      rw [bind_of_ok hm] at h
      cases h
  | .ok (.inr w') b₁ =>
      rw [bind_of_ok hm] at h
      obtain ⟨w₁, b₂, hcomes, hstop⟩ := stops_of_error w' h
      exact ⟨w₁, b₂, .head hm hcomes, hstop⟩
termination_by weight w.tasks
decreasing_by exact (less_of_move hm).1

/-! ### Unknown functions -/

/-- Work that never fails because of an unknown function. -/
def Unasking {α : Type} (m : LowerM α) : Prop :=
  ∀ b f b', m b ≠ .error (.unknownFunction f) b'

theorem Unasking.pure {α : Type} (a : α) : Unasking (Pure.pure a) := fun _ _ _ => nofun

/-- Where what follows asks for no function, the one that is unknown was asked for before. -/
theorem Unasking.of_bind {α β : Type} {m : LowerM α} {k : α → LowerM β} (hk : ∀ a, Unasking (k a))
    {f : String} (h : (m >>= k) b = .error (.unknownFunction f) b') :
    m b = .error (.unknownFunction f) b' := by
  match hb : m b with
  | .ok a b₁ =>
      rw [bind_of_ok hb] at h
      exact absurd h (hk a b₁ f b')
  | .error e b₁ =>
      rw [bind_of_error hb] at h
      cases h
      rfl

theorem Unasking.bind {α β : Type} {m : LowerM α} {k : α → LowerM β} (hm : Unasking m)
    (hk : ∀ a, Unasking (k a)) : Unasking (m >>= k) :=
  fun b f b' h => hm b f b' (of_bind hk h)

theorem unasking_lift {α : Type} (m : BuildM α) : Unasking (BuildM.lift m) := by
  intro b f b' h
  simp only [BuildM.lift] at h
  cases hb : m b with
  | ok a b₁ => rw [hb] at h; cases h
  | error e b₁ => rw [hb] at h; cases h

theorem unasking_variableReg (env : Env) (x : String) : Unasking (variableReg env x) := by
  unfold variableReg
  split
  · exact .pure _
  · exact fun _ _ _ => nofun

theorem unasking_operator (op : Char) (l r : Reg) : Unasking (operator op l r) := by
  unfold operator
  split
  · exact unasking_lift _
  · split
    · exact .bind (unasking_lift _) fun _ => unasking_lift _
    · exact fun _ _ _ => nofun

/-- A callee is looked for among the signatures, and then in the module. -/
theorem callee_eq (env : Env) (name : String) (count : Nat) (b : Builder) :
    callee env name count b = match env.signatures.arity? name with
      | none => .error (.unknownFunction name) b
      | some expected =>
        if expected = count then
          match b.lookup name with
          | some handle => .ok handle b
          | none => .error (.unknownFunction name) b
        else .error (.arityMismatch name expected count) b := by
  unfold callee
  cases env.signatures.arity? name with
  | none => rfl
  | some expected =>
      by_cases hc : expected = count
      · simp only [if_pos hc]
        show (match b.lookup name with
          | some handle => pure handle
          | none => throw (.unknownFunction name) : LowerM Handle) b = _
        cases b.lookup name with
        | some handle => rfl
        | none => rfl
      · simp only [if_neg hc]
        rfl

/-- A function is unknown if it is not registered, or else if it is not declared. -/
theorem unknown_of_callee {name f : String} {count : Nat}
    (h : callee env name count b = .error (.unknownFunction f) b') :
    env.signatures.arity? f = none ∨
      ∃ a, env.signatures.arity? f = some a ∧ b.lookup f = none := by
  rw [callee_eq] at h
  split at h
  · next hs =>
      cases h
      exact .inl hs
  · next expected hs =>
      split at h
      · split at h
        · cases h
        · next hl =>
            cases h
            exact .inr ⟨expected, hs, hl⟩
      · cases h

/-- The one task that asks for a function is a call. -/
theorem unknown_of_move {f : String} (h : move env w b = .error (.unknownFunction f) b') :
    env.signatures.arity? f = none ∨
      ∃ a, env.signatures.arity? f = some a ∧ b.lookup f = none := by
  fun_cases move env w with
  | case1 => cases h
  | case2 => cases h
  | case3 v rest values => exact absurd h ((unasking_lift _).bind (fun _ => .pure _) b f b')
  | case4 x rest values =>
      exact absurd h ((unasking_variableReg env x).bind (fun _ => .pure _) b f b')
  | case5 op l r rest values => cases h
  | case6 g args rest values => exact unknown_of_callee (Unasking.of_bind (fun _ => .pure _) h)
  | case7 op rest r l values =>
      exact absurd h ((unasking_operator op l r).bind (fun _ => .pure _) b f b')
  | case8 op rest values hv =>
      rw [move] at h
      · cases h
      · exact hv
  | case9 handle count rest values =>
      exact absurd h ((unasking_lift _).bind (fun _ => .pure _) b f b')

end Lowering

/-! ### While a body is generated -/

namespace Builder

/-- The function that is found is the declared one. -/
theorem lookup_eq_some_iff {b : Builder} {name : String} {a : Nat} :
    b.lookup name = some ⟨name, a⟩ ↔ b.module.arity? name = some a := by
  rw [lookup, Module.arity?]
  cases hd : b.module.find? name with
  | none => simp
  | some d =>
      have hname : d.name = name := by simpa using List.find?_some hd
      simp [Decl.handle, hname]

end Builder

namespace Generator

/-- What the body of a function may refer to: the functions registered when it is declared, and its
parameters. -/
def scopeOf (g : Generator) (p : Prototype) : Env where
  signatures := (g.declare p).2.signatures
  params := p.params.zip ((List.range' 0 p.params.length).map Reg.mk)

/-- The builder when the function has been declared, its body opened and its parameters loaded. -/
def opened (g : Generator) (p : Prototype) : Builder :=
  { (g.declare p).2.builder with current := some (.loaded (g.declare p).1 p.params []) }

/-- While the form is generated, the work on its body comes to `w` and the builder `b`. -/
def Emitting (g : Generator) (form : Form) (w : Lowering.Work) (b : Builder) : Prop :=
  ∃ e ∈ form.body?, Lowering.Comes (g.scopeOf form.prototype)
    (⟨[.visit e], []⟩, g.opened form.prototype) (w, b)

theorem Backed.declare {g : Generator} (hg : g.Backed) (p : Prototype) :
    (g.declare p).2.Backed := by
  intro name a ha
  rw [arity?, Generator.declare, Signatures.arity?_insert] at ha
  rw [Generator.declare, Builder.declare, Module.functions_declare, Module.arity?_put]
  split at ha
  · next hn => rw [if_pos hn]; exact ha
  · next hn => rw [if_neg hn]; exact hg name a ha

/-- **While a body is generated, what is registered is found.** -/
theorem lookup_of_emitting {g : Generator} (hg : g.Backed) {form : Form} {w : Lowering.Work}
    {b : Builder} (h : g.Emitting form w b) {name : String} {a : Nat}
    (ha : (g.declare form.prototype).2.arity? name = some a) :
    b.lookup name = some ⟨name, a⟩ := by
  obtain ⟨e, -, hcomes⟩ := h
  rw [Builder.lookup_eq_some_iff, hcomes.module_eq]
  exact hg.declare form.prototype name a ha

/-- Generating a body opens it and does the work on it. -/
theorem emitBody_opened {g : Generator} (hg : g.builder.current = none) {f : Function}
    (hparams : f.prototype.params.Nodup) :
    emitBody (g.declare f.prototype).1 f (g.declare f.prototype).2 =
      (g.declare f.prototype).2.around ((do
        let result ← Lowering.run (g.scopeOf f.prototype) [.visit f.body] []
        BuildM.lift (Builder.finish ⟨(g.declare f.prototype).1⟩ result))
      (g.opened f.prototype)) := by
  have hlower : Lowering.run (g.scopeOf f.prototype) [.visit f.body] [] =
      f.body.emit (g.scopeOf f.prototype) := Expr.lower_eq_emit _ _
  rw [hlower]
  exact emitBody_eq f.body (g := (g.declare f.prototype).2) hg rfl hparams

/-- What fails with the signatures around it fails by itself. -/
theorem around_eq_error {α : Type} {g g' : Generator} {r : EStateM.Result GenError Builder α}
    {e : GenError} (h : g.around r = .error e g') : ∃ b, r = .error e b := by
  cases r with
  | ok a b => cases h
  | error e b =>
      cases h
      exact ⟨b, rfl⟩

/-- A function is generated as its body is, unless parameters are repeated. -/
theorem emitBody_of_define {g g' : Generator} {f : Function} {name : String}
    (h : define f g = .error (.unknownFunction name) g') :
    f.prototype.params.Nodup ∧ ∃ g₁, emitBody (g.declare f.prototype).1 f
      (g.declare f.prototype).2 = .error (.unknownFunction name) g₁ := by
  rw [define] at h
  cases hr : firstRepeated [] f.prototype.params with
  | some x => rw [hr] at h; cases h
  | none =>
      simp only [hr] at h
      cases hb : emitBody (g.declare f.prototype).1 f (g.declare f.prototype).2 with
      | ok handle g₁ => rw [hb] at h; cases h
      | error e g₁ =>
          rw [hb] at h
          cases h
          exact ⟨(firstRepeated_eq_none_iff.mp hr).1, g₁, rfl⟩

/-- **A function that is unknown to a form is not registered**: of those that are, none is ever
missing from the module. -/
theorem unregistered_of_unknown {g g' : Generator} (hc : g.builder.current = none) (hg : g.Backed)
    {form : Form} {name : String} (h : generate form g = .error (.unknownFunction name) g') :
    (g.declare form.prototype).2.arity? name = none := by
  have hdefine (f : Function) (hp : form.prototype = f.prototype) (hb : form.body? = some f.body)
      (h : define f g = .error (.unknownFunction name) g') :
      (g.declare form.prototype).2.arity? name = none := by
    obtain ⟨hparams, g₁, hbody⟩ := emitBody_of_define h
    rw [emitBody_opened hc hparams] at hbody
    obtain ⟨b, hwork⟩ := around_eq_error hbody
    have hrun := Lowering.Unasking.of_bind (fun _ => Lowering.unasking_lift _) hwork
    obtain ⟨w, b₁, hcomes, hstop⟩ := Lowering.stops_of_error ⟨[.visit f.body], []⟩ hrun
    rcases Lowering.unknown_of_move hstop with hnone | ⟨a, ha, hmissing⟩
    · exact hp ▸ hnone
    · have hfound := lookup_of_emitting hg ⟨f.body, hb, hp ▸ hcomes⟩ (hp ▸ ha)
      cases hmissing.symm.trans hfound
  cases form with
  | definition f => exact hdefine f rfl rfl h
  | expression f => exact hdefine f rfl rfl h
  | declaration p => cases h

/-! ### What is declared is registered -/

/-- Every declared function is registered with its arity. -/
def Listed (g : Generator) : Prop :=
  ∀ d ∈ g.builder.module.functions, g.arity? d.name = some d.arity

theorem Effect.listed {form : Form} {g : Generator} {r : Except GenError Handle × Generator}
    (h : Effect form g r) (hc : g.Clear) (hg : g.Listed) : r.2.Listed := by
  have hclear := h.clear hc
  intro x hx
  cases h with
  | generated d hname harity hbody =>
      rw [arity?, Signatures.arity?_insert]
      split
      · next hn =>
          -- of the name there is the one function that has been put there
          have hfind := Module.find?_of_mem hclear.distinct hx
          rw [Module.find?_put, if_pos hn] at hfind
          rw [Option.some.inj hfind]
      · next hn =>
          rcases Module.mem_put hx with rfl | hx
          · exact absurd rfl hn
          · exact hg x hx
  | repeated y => exact hg x hx
  | failed he =>
      obtain ⟨hx, hn⟩ := List.mem_filter.mp hx
      rw [arity?, Signatures.arity?_erase, if_neg (by simpa using hn)]
      exact hg x hx

theorem listed_runAll (moduleName : String) {commands : List Command}
    (h : .reset ∉ commands) : (Command.runAll moduleName commands).1.Listed := by
  have hrun (s : Generator × Library) (hs : s.1.Clear ∧ s.1.Listed) :
      (commands.foldl (fun s c => c.run s) s).1.Listed := by
    induction commands generalizing s with
    | nil => exact hs.2
    | cons c cs ih =>
        rw [List.mem_cons, not_or] at h
        cases c with
        | generate form =>
            have heffect := effect_after form hs.1.toIdle
            exact ih h.2 _ ⟨heffect.clear hs.1, heffect.listed hs.1 hs.2⟩
        | reset => exact absurd rfl h.1
  exact hrun _ ⟨clear_fresh moduleName, nofun⟩

end Generator

/-- **The signatures and the module agree.**  In every state commands lead to, no two functions have
one name, and what is registered is found in the module with its arity; if the signatures have never
been forgotten, every function of the module is registered with its arity.  The same holds while a
form is generated: at every task the work on its body comes to, what is registered then is found
with its arity.  So no form fails because a function is missing that is registered. -/
theorem signatures_agree (moduleName : String) (commands : List Command) :
    let g := (Command.runAll moduleName commands).1
    (g.builder.module.functions.map Decl.name).Nodup ∧
    (∀ name a, g.arity? name = some a → g.builder.lookup name = some ⟨name, a⟩) ∧
    (.reset ∉ commands → ∀ d ∈ g.builder.module.functions, g.arity? d.name = some d.arity) ∧
    ∀ form : Form,
      (∀ w b, g.Emitting form w b → ∀ name a,
        (g.declare form.prototype).2.arity? name = some a → b.lookup name = some ⟨name, a⟩) ∧
      ∀ name g', Generator.generate form g = .error (.unknownFunction name) g' →
        (g.declare form.prototype).2.arity? name = none := by
  intro g
  have hg : g.Clear := Generator.clear_runAll moduleName commands
  have hb : g.Backed := Generator.backed_runAll moduleName commands
  refine ⟨hg.distinct, fun name a ha => Builder.lookup_eq_some_iff.mpr (hb name a ha),
    fun h => Generator.listed_runAll moduleName h, fun form => ⟨?_, ?_⟩⟩
  · exact fun w b h name a => Generator.lookup_of_emitting hb h
  · exact fun name g' => Generator.unregistered_of_unknown hg.closed hb

/-- A function that is given another arity, one that is taken back, and then a form that calls the
first and fails at the second: by then the call of the first has found it. -/
theorem signatures_agree_redefined :
    let commands : List Command :=
      [.generate (.definition ⟨⟨"f", ["x"]⟩, .var "x"⟩),
       .generate (.declaration ⟨"f", ["x", "y"]⟩),
       .generate (.definition ⟨⟨"g", []⟩, .var "x"⟩)]
    let form : Form := .definition ⟨⟨"h", ["x"]⟩, .call "f" [.var "x", .call "g" []]⟩
    let left : Lowering.Work :=
      ⟨[.visit (.var "x"), .visit (.call "g" []), .invoke ⟨"f", 2⟩ 2], []⟩
    let g := (Command.runAll "main" commands).1
    (.reset ∉ commands ∧ ∀ d ∈ g.builder.module.functions, g.arity? d.name = some d.arity) ∧
    (g.arity? "f" = some 2 ∧ g.builder.lookup "f" = some ⟨"f", 2⟩) ∧
    (g.Emitting form left (g.opened form.prototype) ∧
      (g.opened form.prototype).lookup "h" = some ⟨"h", 1⟩) ∧
    (g.after form).1 = .error (.unknownFunction "g") ∧
    (g.declare form.prototype).2.arity? "g" = none := by
  intro commands form left g
  have hreset : .reset ∉ commands := by simp [commands]
  have hf : g.arity? "f" = some 2 := by decide +kernel
  have hfails : (g.after form).1 = .error (.unknownFunction "g") := by decide +kernel
  obtain ⟨-, hfound, hlisted, hforms⟩ := signatures_agree "main" commands
  have hcallee : Lowering.callee (g.scopeOf form.prototype) "f" 2 (g.opened form.prototype) =
      .ok ⟨"f", 2⟩ (g.opened form.prototype) := by
    have hknown : (g.scopeOf form.prototype).signatures.arity? "f" = some 2 := by decide +kernel
    have hdeclared : (g.opened form.prototype).lookup "f" = some ⟨"f", 2⟩ := by decide +kernel
    simp only [Lowering.callee_eq, hknown, hdeclared, if_true]
  have hemitting : g.Emitting form left (g.opened form.prototype) :=
    ⟨_, rfl, .single (bind_of_ok hcallee)⟩
  refine ⟨⟨hreset, hlisted hreset⟩, ⟨hf, hfound "f" 2 hf⟩, ⟨hemitting, ?_⟩, hfails, ?_⟩
  · exact (hforms form).1 left _ hemitting "h" 1 (by decide +kernel)
  · rw [Generator.after] at hfails
    cases hg : Generator.generate form g with
    | ok handle g' => rw [hg] at hfails; cases hfails
    | error e g' =>
        rw [hg] at hfails
        cases hfails
        exact (hforms form).2 "g" g' hg

end Reckon
