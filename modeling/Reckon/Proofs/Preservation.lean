import Reckon.Proofs.Simulation

/-!
# Proofs — Preservation

Generated code means its tree over whole sessions.  A generated body does what evaluating its tree
does wherever its calls lead (`Means`), so it keeps its meaning whatever becomes of the functions it
calls.  A module agrees with a library when every function of the one means the tree of the other
(`Agrees`); a module and a library that agree execute alike (`Agrees.call_eq`).

What a form does to the module is said once (`Generator.define_cases`): the body it is given is the
code of its tree behind the loads of its parameters (`Emitted`), or it fails with an error of the
tree.  Every command keeps the module and the library in agreement (`Settled.run`).
-/

namespace Reckon

/-! ### The parameters -/

theorem firstRepeated_eq_none_iff {seen xs : List String} :
    firstRepeated seen xs = none ↔ xs.Nodup ∧ ∀ x ∈ xs, x ∉ seen := by
  induction xs generalizing seen with
  | nil => simp [firstRepeated]
  | cons x xs ih =>
      rw [firstRepeated]
      by_cases hx : x ∈ seen
      · simp [hx]
      · rw [if_neg hx, ih, List.nodup_cons]
        constructor
        · rintro ⟨hxs, hseen⟩
          refine ⟨⟨fun hmem => hseen x hmem List.mem_cons_self, hxs⟩, fun y hy => ?_⟩
          rcases List.mem_cons.mp hy with rfl | hy
          · exact hx
          · exact fun hmem => hseen y hy (List.mem_cons_of_mem _ hmem)
        · rintro ⟨⟨hfirst, hxs⟩, hseen⟩
          refine ⟨hxs, fun y hy hmem => ?_⟩
          rcases List.mem_cons.mp hmem with rfl | hmem
          · exact hfirst hy
          · exact hseen y (List.mem_cons_of_mem _ hy) hmem

/-- Parameters within the arity of the function are emitted and bound in their order. -/
theorem Generator.bindParams_eq (scope : Scope) (xs : List String) (index : Nat) {g : Generator}
    {body : OpenBody} (hg : g.builder.current = some body)
    (ha : index + xs.length ≤ scope.function.arity)
    (hxs : (g.bindings.map Prod.fst ++ xs).Nodup) :
    bindParams scope index xs g = .ok ()
      { g with
        builder := g.builder.extend ((List.range' index xs.length).map Instr.param)
        bindings := g.bindings ++ xs.zip ((List.range' body.code.size xs.length).map Reg.mk) } := by
  induction xs generalizing index g body with
  | nil => simp [bindParams]; rfl
  | cons x xs ih =>
      let next : Generator :=
        { g with
          builder := g.builder.extend [.param index]
          bindings := g.bindings ++ [(x, ⟨body.code.size⟩)] }
      have hlt : ¬ scope.function.arity ≤ index := by simp at ha; omega
      have hparam : build (Builder.parameter scope index) g =
          .ok ⟨body.code.size⟩ { g with builder := g.builder.extend [.param index] } := by
        simp only [build, BuildM.lift, Builder.parameter, if_neg hlt, Builder.emit_of_open hg]
      -- the name is new, so no binding is lost
      have hnew : g.bindings.filter (·.1 != x) = g.bindings := by
        rw [List.filter_eq_self]
        intro binding hbinding
        have hne := (List.nodup_append.mp hxs).2.2 _ (List.mem_map_of_mem hbinding) x
          List.mem_cons_self
        simpa using hne
      have hbind : bindVariable x ⟨body.code.size⟩
          { g with builder := g.builder.extend [.param index] } = next := by
        rw [bindVariable, hnew]
      have hrest := ih (index + 1) (g := next) (Builder.extend_current hg [.param index])
        (by simp at ha; omega) (by simpa [next] using hxs)
      rw [bindParams, bind_of_ok hparam, modify_bind, hbind, hrest]
      simp [next, List.range'_succ]

section Parameters

variable (call : String → List Float → Run Float) (function : String) (args : List Float)

theorem Slots.runAll_params (index count : Nat) (h : index + count = args.length) (slots : Slots) :
    slots.runAll call function args ((List.range' index count).map .param) =
      pure (slots ++ ((args.drop index).map Slot.number).toArray) := by
  induction count generalizing index slots with
  | zero =>
      rw [List.drop_eq_nil_of_le (by omega)]
      simp [runAll]
  | succ count ih =>
      have hlt : index < args.length := by omega
      have hi : (Instr.param index).run call function args slots = pure (.number args[index]) := by
        simp [Instr.run, List.getElem?_eq_getElem hlt]
      rw [List.range'_succ, List.map_cons, runAll_cons, hi, pure_bind, ih _ (by omega),
        List.drop_eq_getElem_cons hlt, List.map_cons]
      congr 1
      simp [-List.map_drop]

end Parameters

/-- Registers that hold the arguments in order bind the parameters to them. -/
theorem Slots.binds_params {params : List String} {args : List Float}
    (h : args.length = params.length) (slots : Slots) :
    Binds (slots ++ (args.map Slot.number).toArray)
      (params.zip ((List.range' slots.size params.length).map Reg.mk)) (params.zip args) := by
  induction params generalizing args slots with
  | nil => intro name r hr; cases hr
  | cons p ps ih =>
      rcases args with _ | ⟨x, xs⟩
      · cases h
      · have hs : slots ++ ((x :: xs).map Slot.number).toArray =
            slots.push (.number x) ++ (xs.map Slot.number).toArray := by simp
        have ih := ih (by simpa using h) (slots.push (.number x))
        rw [Array.size_push] at ih
        intro name r hr
        rw [List.length_cons, List.range'_succ, List.map_cons, List.zip_cons_cons,
          List.lookup_cons] at hr
        rw [List.zip_cons_cons, List.lookup_cons, hs]
        cases hp : name == p with
        | true =>
            rw [hp] at hr
            cases hr
            exact ⟨x, rfl, (slots.holds_push x).append _⟩
        | false =>
            rw [hp] at hr
            exact ih name r hr

/-! ### Bodies -/

/-- The body does what evaluating the tree does, whatever its calls do. -/
def Means (body : Body) (params : List String) (e : Expr) : Prop :=
  ∀ call function args, args.length = params.length →
    (body.run call function args).toEval
      = e.eval (fun f xs => (call f xs).toEval) (params.zip args)

/-- The code of an expression behind the loaded parameters means the expression. -/
theorem Realizes.means {params : List String} {e : Expr} {reg : Reg} {code : List Instr}
    (h : Realizes params.length (params.zip ((List.range' 0 params.length).map Reg.mk)) code
      (fun x slots => slots.Holds reg x) fun call vals => e.eval call vals) :
    Means ⟨params, ((List.range' 0 params.length).map Instr.param).toArray ++ code.toArray, reg⟩
      params e := by
  intro call function args ha
  funext acts
  have hp := Slots.runAll_params call function args 0 params.length (by simpa using ha.symm) #[]
  have hm := h call function args (params.zip args) _ acts (by simp [ha])
    (Slots.binds_params ha #[])
  simp only [Run.toEval, Body.run_eq, Array.toList_append, Slots.runAll_append, hp, pure_bind,
    List.drop_zero] at hm ⊢
  cases hr : Slots.runAll call function args code (#[] ++ (args.map Slot.number).toArray) acts with
  | error e₁ acts₁ =>
      rw [hr] at hm
      rw [bind_of_error hr, hm.of_error]
  | ok slots acts₁ =>
      rw [hr] at hm
      obtain ⟨x, he, hx⟩ := hm.of_ok
      rw [bind_of_ok hr, he, Slots.number_of_holds hx]
      rfl

/-- A body that has loaded its parameters and gone on with the code. -/
def OpenBody.loaded (handle : Handle) (params : List String) (code : List Instr) : OpenBody where
  function := handle
  params := params
  code := ((List.range' 0 params.length).map Instr.param).toArray ++ code.toArray

/-- What has come of the builder, with the signatures and without bindings. -/
def Generator.around {α : Type} (g : Generator) :
    EStateM.Result GenError Builder α → EStateM.Result GenError Generator α
  | .ok a builder => .ok a ⟨builder, g.signatures, []⟩
  | .error e builder => .error e ⟨builder, g.signatures, []⟩

/-- No binding outlasts the emission of an expression, whatever comes of it. -/
theorem Generator.lowerBody_bind (e : Expr) (scope : Scope) (g : Generator) :
    (lowerBody e >>= fun result => build (Builder.finish scope result)) g = g.around
      ((e.emit ⟨g.signatures, g.bindings⟩ >>= fun result =>
        BuildM.lift (Builder.finish scope result)) g.builder) := by
  rw [← Expr.lower_eq_emit]
  cases h : e.lower ⟨g.signatures, g.bindings⟩ g.builder with
  | error failure b =>
      have hlower : lowerBody e g = .error failure (clearBindings { g with builder := b }) := by
        rw [lowerBody, h]
      rw [bind_of_error hlower, bind_of_error h]
      rfl
  | ok reg b =>
      have hlower : lowerBody e g = .ok reg (clearBindings { g with builder := b }) := by
        rw [lowerBody, h]
      rw [bind_of_ok hlower, bind_of_ok h]
      simp only [build, clearBindings]
      cases BuildM.lift (Builder.finish scope reg) b with
      | ok handle b' => rfl
      | error failure b' => rfl

/-- Beginning a body and loading its parameters cannot fail. -/
theorem Generator.emitBody_eq {handle : Handle} {name : String} {params : List String} (e : Expr)
    {g : Generator} (hg : g.builder.current = none) (ha : handle.arity = params.length)
    (hparams : params.Nodup) :
    emitBody handle ⟨⟨name, params⟩, e⟩ g = g.around
      ((do
        let regs := (List.range' 0 params.length).map Reg.mk
        let result ← e.emit ⟨g.signatures, params.zip regs⟩
        BuildM.lift (Builder.finish ⟨handle⟩ result))
      { g.builder with current := some (.loaded handle params []) }) := by
  let begun : Generator :=
    { g with builder := { g.builder with current := some { function := handle, params } } }
  have hbegin : build (Builder.begin handle params) g = .ok ⟨handle⟩ begun := by
    simp only [build, BuildM.lift, Builder.begin, hg, begun]
  have hbound := bindParams_eq ⟨handle⟩ params 0 (g := clearBindings begun) rfl (by simp [ha])
    (by simpa [clearBindings] using hparams)
  rw [emitBody, bind_of_ok hbegin, modify_bind, bind_of_ok hbound, lowerBody_bind]
  simp [begun, clearBindings, Builder.extend, OpenBody.loaded, around]

/-- The body is made of the tree, where the callees are found in the signatures and the module: it
loads the parameters, goes on with the code emitted for the expression, and returns the register the
emission gave. -/
def Emitted (signatures : Signatures) (m : Module) (body : Body) (params : List String)
    (e : Expr) : Prop :=
  ∃ (handle : Handle) (code : List Instr) (reg : Reg),
    body = ⟨params, (OpenBody.loaded handle params code).code, reg⟩ ∧
    e.emit ⟨signatures, params.zip ((List.range' 0 params.length).map Reg.mk)⟩
        { module := m, current := some (.loaded handle params []) } =
      .ok reg { module := m, current := some (.loaded handle params code) }

theorem extend_loaded (m : Module) (handle : Handle) (params : List String) (code : List Instr) :
    Builder.extend { module := m, current := some (.loaded handle params []) } code =
      { module := m, current := some (.loaded handle params code) } := by
  simp [Builder.extend, OpenBody.loaded]

/-- A body made of a tree means it. -/
theorem Emitted.means {signatures : Signatures} {m : Module} {body : Body} {params : List String}
    {e : Expr} (h : Emitted signatures m body params e) : Means body params e := by
  obtain ⟨handle, code, reg, rfl, hemit⟩ := h
  obtain ⟨code', hext, hm⟩ := e.emit_realizes _ rfl hemit
  obtain rfl : code' = code := by
    rw [extend_loaded] at hext
    simpa [OpenBody.loaded] using hext.symm
  rw [show (OpenBody.loaded handle params []).code.size = params.length by
    simp [OpenBody.loaded]] at hm
  exact hm.means

/-- What becomes of a body: it is made of the tree and given to its function, or the code so far is
left open.  No variable is left bound. -/
theorem Generator.emitBody_cases (handle : Handle) (f : Function) {g : Generator}
    (hg : g.builder.current = none) (ha : handle.arity = f.prototype.params.length)
    (hparams : f.prototype.params.Nodup) (hd : (g.builder.module.find? handle.name).isSome) :
    (∃ body, emitBody handle f g =
        .ok handle ⟨{ module := g.builder.module.define handle.name body }, g.signatures, []⟩ ∧
      Emitted g.signatures g.builder.module body f.prototype.params f.body) ∨
    (∃ e code, emitBody handle f g =
        .error e ⟨{ g.builder with current := some (.loaded handle f.prototype.params code) },
          g.signatures, []⟩ ∧
      e.OfTree) := by
  obtain ⟨⟨name, params⟩, e⟩ := f
  simp only [emitBody_eq e hg ha hparams]
  generalize hl : e.emit _ { g.builder with current := some (.loaded handle params []) } = r
  have hx := e.emit_extends ⟨g.signatures, params.zip ((List.range' 0 params.length).map Reg.mk)⟩
    { g.builder with current := some (.loaded handle params []) }
  rw [hl] at hx
  cases r with
  | error err b₁ =>
      -- what was emitted before the failure is still in the open body
      obtain ⟨⟨code, rfl⟩, he⟩ := hx
      refine .inr ⟨err, code, ?_, he rfl⟩
      rw [bind_of_error hl, extend_loaded]
      rfl
  | ok reg b₁ =>
      obtain ⟨code, rfl⟩ := hx
      rw [extend_loaded] at hl
      refine .inl ⟨_, ?_, handle, code, reg, rfl, hl⟩
      rw [bind_of_ok hl]
      simp [BuildM.lift, Builder.finish, OpenBody.loaded, hd, around]

/-! ### Forms -/

/-- **What generating a function does.**  Repeated parameters change nothing; otherwise the function
is declared and given a body made of its tree, or it is taken away, and no variable is left
bound. -/
theorem Generator.define_cases (f : Function) (g : Generator) (hg : g.builder.current = none) :
    let name := f.prototype.name
    let arity := f.prototype.params.length
    (∃ x, firstRepeated [] f.prototype.params = some x ∧
      define f g = .error (.duplicateParameter name x) g) ∨
    (∃ body, define f g = .ok ⟨name, arity⟩
        ⟨{ module := (g.builder.module.declare name arity).define name body },
          g.signatures.insert name arity, []⟩ ∧
      Emitted (g.signatures.insert name arity) (g.builder.module.declare name arity) body
        f.prototype.params f.body) ∨
    (∃ e, define f g = .error e
        ⟨{ module := (g.builder.module.declare name arity).remove name },
          (g.signatures.insert name arity).erase name, []⟩ ∧
      e.OfTree) := by
  intro name arity
  cases hr : firstRepeated [] f.prototype.params with
  | some x => exact .inl ⟨x, rfl, by simp only [define, hr, name]⟩
  | none =>
      let declared : Generator := (g.declare f.prototype).2
      have hd : (declared.builder.module.find? name).isSome := by
        simp [declared, declare, Builder.declare, Module.find?_declare, name]
      simp only [define, hr]
      rcases emitBody_cases (g.declare f.prototype).1 f (g := declared) hg rfl
        (firstRepeated_eq_none_iff.mp hr).1 hd with ⟨body, hb, hm⟩ | ⟨e, code, hb, he⟩
      · refine .inr (.inl ⟨body, ?_, hm⟩)
        rw [hb]
        rfl
      · refine .inr (.inr ⟨e, ?_, he⟩)
        rw [hb]
        simp [declare, Builder.declare, Builder.discard, OpenBody.loaded, declared, name, arity]

/-! ### Modules and libraries -/

/-- The declared function is the tree: it takes as many arguments, and its body, if there is one,
means the tree's. -/
structure Decl.Renders (d : Decl) (tree : Tree) : Prop where
  arity : d.arity = tree.params.length
  body : Option.Rel (fun body e => Means body tree.params e) d.body tree.body

/-- The module and the library have the same functions. -/
def Agrees (m : Module) (lib : Library) : Prop :=
  ∀ name, Option.Rel Decl.Renders (m.find? name) (lib name)

theorem Agrees.declare {m : Module} {lib : Library} (h : Agrees m lib) (name : String)
    (params : List String) :
    Agrees (m.declare name params.length) (lib.insert name ⟨params, none⟩) := by
  intro other
  rw [Module.find?_declare, Library.insert]
  by_cases ho : other = name
  · rw [if_pos ho, if_pos ho]
    exact .some ⟨rfl, .none⟩
  · rw [if_neg ho, if_neg ho]
    exact h other

theorem Agrees.define {m : Module} {lib : Library} (h : Agrees m lib) (name : String)
    {params : List String} {body : Body} {e : Expr} (hm : Means body params e) :
    Agrees ((m.declare name params.length).define name body)
      (lib.insert name ⟨params, some e⟩) := by
  intro other
  rw [Module.find?_define, Module.find?_declare, Module.find?_declare, Library.insert]
  by_cases ho : other = name
  · rw [if_pos ho, if_pos ho, if_pos rfl]
    exact .some ⟨rfl, .some hm⟩
  · rw [if_neg ho, if_neg ho, if_neg ho]
    exact h other

theorem Agrees.remove {m : Module} {lib : Library} (h : Agrees m lib) (name : String)
    (arity : Nat) : Agrees ((m.declare name arity).remove name) (lib.erase name) := by
  intro other
  rw [Module.find?_remove, Module.find?_declare, Library.erase]
  by_cases ho : other = name
  · rw [if_pos ho, if_pos ho]
    exact .none
  · rw [if_neg ho, if_neg ho, if_neg ho]
    exact h other

/-- **A module and a library that agree call alike.** -/
theorem Agrees.call_eq {m : Module} {lib : Library} (h : Agrees m lib) (left : Nat) (name : String)
    (args : List Float) : lib.call left name args = (m.call left name args).toEval := by
  -- on the calls that may still be under way: a body means its tree whatever the calls below do
  induction left generalizing name args with
  | zero => rfl
  | succ left ih =>
      have hn := h name
      simp only [Library.call, Module.call]
      generalize m.find? name = found at hn ⊢
      generalize lib name = tree at hn ⊢
      cases hn with
      | none => rfl
      | @some decl tree hd =>
          simp only [hd.arity]
          by_cases ha : tree.params.length = args.length
          · rw [if_pos ha, if_pos ha]
            have hb := hd.body
            generalize decl.body = body at hb ⊢
            generalize tree.body = e at hb ⊢
            cases hb with
            | none => rfl
            | some hm =>
                have hc : lib.call left = fun f xs => (m.call left f xs).toEval :=
                  funext fun f => funext fun xs => ih f xs
                simp only [hc, ← hm (m.call left) name args ha.symm]
                rfl
          · rw [if_neg ha, if_neg ha]
            rfl

/-! ### Sessions -/

/-- No body is open, and the module agrees with the library. -/
structure Settled (s : Generator × Library) : Prop where
  closed : s.1.builder.current = none
  agrees : Agrees s.1.builder.module s.2

theorem settled_fresh (name : String) : Settled ({ builder := .empty name }, .empty) :=
  ⟨rfl, fun _ => .none⟩

/-- A form leaves the library as it leaves the module. -/
theorem Settled.generate {g : Generator} {lib : Library} (h : Settled (g, lib)) (form : Form) :
    Settled ((Command.generate form).run (g, lib)) := by
  obtain ⟨hc, ha⟩ := h
  have hfun (f : Function) (hgen : Generator.generate form = Generator.define f)
      (hp : form.prototype = f.prototype) (hb : form.body? = some f.body) :
      Settled ((Command.generate form).run (g, lib)) := by
    simp only [Command.run, Generator.after, hgen]
    rcases Generator.define_cases f g hc with ⟨x, -, hd⟩ | ⟨body, hd, hm⟩ | ⟨e, hd, he⟩
    · rw [hd]
      exact ⟨hc, ha⟩
    · rw [hd]
      refine ⟨rfl, ?_⟩
      simp only [Library.record, hp, hb]
      exact ha.define _ hm.means
    · rw [hd]
      have hr : lib.record form (.error e) = lib.erase f.prototype.name := by
        cases e with
        | duplicateParameter g x => exact he.elim
        | _ => simp only [Library.record, hp]
      refine ⟨rfl, ?_⟩
      simp only [hr]
      exact ha.remove _ _
  cases form with
  | definition f => exact hfun f rfl rfl rfl
  | expression f => exact hfun f rfl rfl rfl
  | declaration p => exact ⟨hc, ha.declare p.name p.params⟩

theorem Settled.run {s : Generator × Library} (h : Settled s) (c : Command) :
    Settled (c.run s) := by
  cases c with
  | generate form => exact h.generate form
  | reset => exact ⟨h.closed, h.agrees⟩

theorem settled_runAll (name : String) (commands : List Command) :
    Settled (Command.runAll name commands) := by
  have hrun (s : Generator × Library) (hs : Settled s) :
      Settled (commands.foldl (fun s c => c.run s) s) := by
    induction commands generalizing s with
    | nil => exact hs
    | cons c cs ih => exact ih _ (hs.run c)
  exact hrun _ (settled_fresh name)

/-- **Generated code keeps the meaning of its trees over whole sessions.**  After any commands to a
fresh generator, calling a function of its module gives what evaluating the trees gives: the same
value or the same failure, and the same acts on the way. -/
theorem execute_eq_eval (moduleName : String) (commands : List Command) (name : String)
    (args : List Float) :
    (Command.runAll moduleName commands).2.execute name args =
      let run := (Command.runAll moduleName commands).1.builder.module.execute name args
      (run.result.mapError Fault.run, run.acts) := by
  have ha := (settled_runAll moduleName commands).agrees
  simp only [Library.execute, Module.execute, ha.call_eq, Run.toEval]
  cases (Command.runAll moduleName commands).1.builder.module.call maxCallDepth name args #[] with
  | ok x acts => rfl
  | error e acts => rfl

end Reckon
