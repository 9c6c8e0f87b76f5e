import Reckon.Proofs.Preservation

/-!
# Proofs — Effect

What generating a form does to the generator.  A form that is generated puts its function in the
place of the one of its name, or behind all others, and registers its arity.  Repeated parameters
change nothing; any other failure takes the function and its signature away.  Nothing else changes,
nothing is left open, and no variable is left bound.

* `Generator.effect_after`: the three things that can become of a form.
* `Emitted.mem_params`: a body is made of a tree only if all its variables are parameters.
* `Generator.generate_effect`: the effect of a form in every state commands lead to, and what the
  next form finds.
-/

namespace Reckon

/-! ### Functions in their place -/

namespace Module

/-- The functions with the declaration in the place of the first one of its name, or behind all
others. -/
def put (d : Decl) : List Decl → List Decl
  | [] => [d]
  | x :: xs => if x.name = d.name then d :: xs else x :: put d xs

/-- The declaration is in the place of the only one of its name, or, if there was none, behind all
others. -/
inductive Placed (d : Decl) : List Decl → List Decl → Prop where
  | replaced (before after : List Decl) {old : Decl} (hold : old.name = d.name)
      (hothers : ∀ x ∈ before ++ after, x.name ≠ d.name) :
      Placed d (before ++ old :: after) (before ++ d :: after)
  | appended {ds : List Decl} (habsent : ∀ x ∈ ds, x.name ≠ d.name) : Placed d ds (ds ++ [d])

theorem put_eq (d : Decl) (ds : List Decl) :
    put d ds = if (ds.find? (·.name == d.name)).isSome then replaceFirst d.name (fun _ => d) ds
      else ds ++ [d] := by
  induction ds with
  | nil => rfl
  | cons x xs ih => grind [put, replaceFirst]

theorem replaceFirst_put {d : Decl} {f : Decl → Decl} (hf : (f d).name = d.name)
    (ds : List Decl) : replaceFirst d.name f (put d ds) = put (f d) ds := by
  induction ds with
  | nil => simp [put, replaceFirst]
  | cons x xs ih => grind [put, replaceFirst]

theorem filter_put (d : Decl) (ds : List Decl) :
    (put d ds).filter (·.name != d.name) = ds.filter (·.name != d.name) := by
  induction ds with
  | nil => simp [put]
  | cons x xs ih => grind [put]

theorem mem_put {d x : Decl} {ds : List Decl} (h : x ∈ put d ds) : x = d ∨ x ∈ ds := by
  induction ds with
  | nil => simpa [put] using h
  | cons y ys ih => grind [put]

/-- The declaration is found under its name, and the other functions as before. -/
theorem find?_put (m : Module) (d : Decl) (other : String) :
    find? { m with functions := put d m.functions } other =
      if other = d.name then some d else m.find? other := by
  unfold find?
  induction m.functions with
  | nil => grind [put]
  | cons x xs ih => grind [put]

/-- Where no two functions have one name, the declaration is in its place. -/
theorem placed_put {ds : List Decl} (hds : (ds.map Decl.name).Nodup) (d : Decl) :
    Placed d ds (put d ds) := by
  induction ds with
  | nil => exact .appended (by simp)
  | cons x xs ih =>
      rw [List.map_cons, List.nodup_cons] at hds
      obtain ⟨hx, hxs⟩ := hds
      by_cases h : x.name = d.name
      · rw [put, if_pos h]
        refine .replaced [] xs h fun y hy heq => hx ?_
        exact h ▸ heq ▸ List.mem_map_of_mem hy
      · rw [put, if_neg h]
        generalize put d xs = ys at ih
        cases ih hxs with
        | replaced before after hold hothers =>
            refine .replaced (x :: before) after hold fun y hy => ?_
            rcases List.mem_cons.mp hy with rfl | hy
            · exact h
            · exact hothers y hy
        | appended habsent =>
            refine .appended fun y hy => ?_
            rcases List.mem_cons.mp hy with rfl | hy
            · exact h
            · exact habsent y hy

theorem Placed.nodup {d : Decl} {ds ds' : List Decl} (h : Placed d ds ds')
    (hds : (ds.map Decl.name).Nodup) : (ds'.map Decl.name).Nodup := by
  cases h with
  | replaced before after hold hothers => simpa [hold] using hds
  | appended habsent =>
      rw [List.map_append, List.nodup_append]
      refine ⟨hds, by simp, ?_⟩
      intro n hn m hm
      obtain ⟨x, hx, rfl⟩ := List.mem_map.mp hn
      obtain rfl : m = d.name := by simpa using hm
      exact habsent x hx

theorem functions_declare (m : Module) (name : String) (arity : Nat) :
    m.declare name arity = { m with functions := put ⟨name, arity, none⟩ m.functions } := by
  have hfind : m.functions.find? (·.name == name) = m.find? name := rfl
  rw [put_eq, hfind, declare]
  cases m.find? name with
  | none => rfl
  | some d => rfl

theorem functions_declare_define (m : Module) (name : String) (arity : Nat) (body : Body) :
    (m.declare name arity).define name body =
      { m with functions := put ⟨name, arity, some body⟩ m.functions } := by
  rw [functions_declare, define]
  exact congrArg (fun ds => { m with functions := ds })
    (replaceFirst_put (d := ⟨name, arity, none⟩) (f := fun d => { d with body := some body }) rfl _)

theorem remove_declare (m : Module) (name : String) (arity : Nat) :
    (m.declare name arity).remove name = m.remove name := by
  rw [functions_declare, remove, remove]
  exact congrArg (fun ds => { m with functions := ds }) (filter_put ⟨name, arity, none⟩ _)

end Module

theorem Signatures.erase_insert (s : Signatures) (name : String) (arity : Nat) :
    (s.insert name arity).erase name = s.erase name := by
  simp [insert, erase]

/-! ### The three effects -/

namespace Generator

/-- No body is open, and no variable is bound. -/
structure Idle (g : Generator) : Prop where
  closed : g.builder.current = none
  unbound : g.bindings = []

/-- What can become of a form, and of the generator with it. -/
inductive Effect (form : Form) (g : Generator) : Except GenError Handle × Generator → Prop where
  | generated (d : Decl) (hname : d.name = form.prototype.name)
      (harity : d.arity = form.prototype.params.length)
      (hbody : Option.Rel (fun body e => Emitted (g.signatures.insert d.name d.arity)
        (g.builder.module.declare d.name d.arity) body form.prototype.params e) d.body form.body?) :
      Effect form g (.ok d.handle,
        ⟨{ module := { g.builder.module with
            functions := Module.put d g.builder.module.functions } },
          g.signatures.insert d.name d.arity, []⟩)
  | repeated (x : String) : Effect form g (.error (.duplicateParameter form.prototype.name x), g)
  | failed {e : GenError} (he : e.OfTree) :
      Effect form g (.error e,
        ⟨{ module := g.builder.module.remove form.prototype.name },
          g.signatures.erase form.prototype.name, []⟩)

theorem effect_define {form : Form} {f : Function} {g : Generator}
    (hgen : generate form = define f) (hp : form.prototype = f.prototype)
    (hb : form.body? = some f.body) (hg : g.builder.current = none) :
    Effect form g (g.after form) := by
  rw [after, hgen]
  rcases define_cases f g hg with ⟨x, -, hd⟩ | ⟨body, hd, hm⟩ | ⟨e, hd, he⟩
  · rw [hd, ← hp]
    exact .repeated x
  · rw [hd, Module.functions_declare_define]
    exact .generated ⟨f.prototype.name, f.prototype.params.length, some body⟩ (by rw [hp])
      (by rw [hp]) (by rw [hb, hp]; exact .some hm)
  · rw [hd, Module.remove_declare, Signatures.erase_insert, ← hp]
    exact .failed he

/-- **What can become of a form.** -/
theorem effect_after (form : Form) {g : Generator} (hg : g.Idle) :
    Effect form g (g.after form) := by
  cases form with
  | definition f => exact effect_define (f := f) rfl rfl rfl hg.closed
  | expression f => exact effect_define (f := f) rfl rfl rfl hg.closed
  | declaration p =>
      obtain ⟨⟨m, current⟩, s, bindings⟩ := g
      obtain ⟨rfl, rfl⟩ : current = none ∧ bindings = [] := ⟨hg.closed, hg.unbound⟩
      simp only [after, generate, declare, Builder.declare, Module.functions_declare]
      exact .generated ⟨p.name, p.params.length, none⟩ rfl rfl .none

end Generator

/-! ### Variables -/

mutual

/-- The name occurs in the expression as a variable. -/
def Expr.Mentions (x : String) : Expr → Prop
  | .number _ => False
  | .var y => y = x
  | .binary _ left right => left.Mentions x ∨ right.Mentions x
  | .call _ args => AnyMentions x args

/-- The name occurs in one of the expressions as a variable. -/
def Expr.AnyMentions (x : String) : List Expr → Prop
  | [] => False
  | e :: es => e.Mentions x ∨ AnyMentions x es

end

mutual

/-- Code is emitted only for an expression all of whose variables have a register. -/
theorem Expr.emit_bound {env : Env} {x : String} (e : Expr) {b b' : Builder} {reg : Reg}
    (h : e.emit env b = .ok reg b') (hx : e.Mentions x) : (env.params.lookup x).isSome := by
  cases e with
  | number v => exact hx.elim
  | var y =>
      obtain rfl : y = x := hx
      rw [Expr.emit] at h
      cases hy : env.params.lookup y with
      | some r => rfl
      | none => simp only [Lowering.variableReg, hy] at h; cases h
  | binary op l r =>
      rw [Expr.emit] at h
      obtain ⟨rl, b₁, hl, h⟩ := bind_eq_ok h
      obtain ⟨rr, b₂, hr, h⟩ := bind_eq_ok h
      rcases hx with hx | hx
      · exact l.emit_bound hl hx
      · exact r.emit_bound hr hx
  | call f es =>
      rw [Expr.emit] at h
      obtain ⟨handle, b₁, -, h⟩ := bind_eq_ok h
      obtain ⟨regs, b₂, hs, -⟩ := bind_eq_ok h
      exact emitAll_bound es hs hx

theorem Expr.emitAll_bound {env : Env} {x : String} (es : List Expr) {b b' : Builder}
    {regs : List Reg} (h : emitAll env es b = .ok regs b') (hx : AnyMentions x es) :
    (env.params.lookup x).isSome := by
  cases es with
  | nil => exact hx.elim
  | cons e es =>
      rw [emitAll] at h
      obtain ⟨reg, b₁, he, h⟩ := bind_eq_ok h
      obtain ⟨regs, b₂, hs, -⟩ := bind_eq_ok h
      rcases hx with hx | hx
      · exact e.emit_bound he hx
      · exact emitAll_bound es hs hx

end

/-- A body is made of a tree only if all its variables are parameters. -/
theorem Emitted.mem_params {signatures : Signatures} {m : Module} {body : Body}
    {params : List String} {e : Expr} {x : String} (h : Emitted signatures m body params e)
    (hx : e.Mentions x) : x ∈ params := by
  obtain ⟨handle, code, reg, -, hemit⟩ := h
  have hsome := e.emit_bound hemit hx
  obtain ⟨r, hr⟩ := Option.isSome_iff_exists.mp hsome
  obtain ⟨before, after, hzip, -⟩ := List.lookup_eq_some_iff.mp hr
  have hmem : (x, r) ∈ params.zip ((List.range' 0 params.length).map Reg.mk) := by
    rw [show params.zip _ = _ from hzip]
    simp
  exact (List.of_mem_zip hmem).1

/-! ### Whole sessions -/

namespace Generator

/-- Between forms no body is open, no variable is bound, and no two functions have one name. -/
structure Clear (g : Generator) : Prop extends g.Idle where
  distinct : (g.builder.module.functions.map Decl.name).Nodup

theorem Effect.clear {form : Form} {g : Generator} {r : Except GenError Handle × Generator}
    (h : Effect form g r) (hg : g.Clear) : r.2.Clear := by
  cases h with
  | generated d hname harity hbody =>
      exact ⟨⟨rfl, rfl⟩, (Module.placed_put hg.distinct d).nodup hg.distinct⟩
  | repeated x => exact hg
  | failed he => exact ⟨⟨rfl, rfl⟩, hg.distinct.sublist (List.filter_sublist.map _)⟩

theorem clear_fresh (moduleName : String) : Clear { builder := .empty moduleName } :=
  ⟨⟨rfl, rfl⟩, .nil⟩

theorem Clear.reset {g : Generator} (hg : g.Clear) : g.reset.Clear :=
  ⟨⟨hg.closed, rfl⟩, hg.distinct⟩

/-- What holds of a fresh generator and outlasts forms and resets holds in every state commands lead
to. -/
theorem runAll_invariant {P : Generator → Prop} (moduleName : String)
    (hfresh : P { builder := .empty moduleName })
    (hform : ∀ g form, P g → P (g.after form).2) (hreset : ∀ g, P g → P g.reset)
    (commands : List Command) : P (Command.runAll moduleName commands).1 := by
  have hrun (s : Generator × Library) (hs : P s.1) :
      P (commands.foldl (fun s c => c.run s) s).1 := by
    induction commands generalizing s with
    | nil => exact hs
    | cons c cs ih =>
        cases c with
        | generate form => exact ih _ (hform s.1 form hs)
        | reset => exact ih _ (hreset s.1 hs)
  exact hrun _ hfresh

theorem clear_runAll (moduleName : String) (commands : List Command) :
    (Command.runAll moduleName commands).1.Clear :=
  runAll_invariant moduleName (clear_fresh moduleName)
    (fun _ form hg => (effect_after form hg.toIdle).clear hg) (fun _ hg => hg.reset) commands

/-- What a form leaves as it was: the other functions in their order, and their signatures. -/
theorem Effect.others {form : Form} {g : Generator} {r : Except GenError Handle × Generator}
    (h : Effect form g r) :
    r.2.builder.module.functions.filter (·.name != form.prototype.name) =
        g.builder.module.functions.filter (·.name != form.prototype.name) ∧
      ∀ other, other ≠ form.prototype.name → r.2.arity? other = g.arity? other := by
  cases h with
  | generated d hname harity hbody =>
      refine ⟨hname ▸ Module.filter_put d _, fun other ho => ?_⟩
      rw [arity?, Signatures.arity?_insert, hname, if_neg ho]
      rfl
  | repeated x => exact ⟨rfl, fun _ _ => rfl⟩
  | failed he =>
      refine ⟨by simp [Module.remove], fun other ho => ?_⟩
      rw [arity?, Signatures.arity?_erase, if_neg ho]
      rfl

theorem effect_of_ok {form : Form} {g g' : Generator} {handle : Handle}
    (hg : g.Idle) (h : generate form g = .ok handle g') :
    Effect form g (.ok handle, g') := by
  have heffect := effect_after form hg
  rwa [after, h] at heffect

theorem effect_of_error {form : Form} {g g' : Generator} {e : GenError}
    (hg : g.Idle) (h : generate form g = .error e g') :
    Effect form g (.error e, g') := by
  have heffect := effect_after form hg
  rwa [after, h] at heffect

/-- A function gets a body exactly when its form has one. -/
theorem isSome_body_iff {form : Form} {P : Body → Expr → Prop} {body : Option Body}
    (h : Option.Rel P body form.body?) : body.isSome ↔ form.kind ≠ .declaration := by
  cases form with
  | declaration p => cases h; simp [Form.kind]
  | definition f => cases h; simp [Form.kind]
  | expression f => cases h; simp [Form.kind]

/-- The builder refuses no form while no body is open and no variable bound. -/
theorem generate_ne_build {form : Form} {g g' : Generator} {e : BuildError}
    (hg : g.Idle) : generate form g ≠ .error (.build e) g' := by
  intro h
  cases effect_of_error hg h with
  | failed he => exact he

/-- The variables of a form that is generated are its own parameters. -/
theorem mem_params_of_ok {form : Form} {g g' : Generator} {handle : Handle} {body : Expr}
    {x : String} (hg : g.Idle) (h : generate form g = .ok handle g')
    (hb : form.body? = some body) (hx : body.Mentions x) : x ∈ form.prototype.params := by
  cases effect_of_ok hg h with
  | generated d hname harity hbody =>
      rw [hb] at hbody
      generalize d.body = made at hbody
      cases hbody with
      | some hm => exact hm.mem_params hx

/-- **The effect of a form.**  In every state commands lead to: a form that is generated puts its
function in its place, with a body unless it comes from outside, and registers its arity; repeated
parameters change nothing; any other failure takes the function and its signature away.  Whatever
becomes of the form, the other functions stay as they are and in their order, and so do their
signatures; no body is left open and no variable is left bound, so the next form is never refused by
the builder, and it is refused if it mentions a variable that is none of its own parameters. -/
theorem generate_effect (moduleName : String) (commands : List Command) (form : Form) :
    let g := (Command.runAll moduleName commands).1
    let name := form.prototype.name
    let arity := form.prototype.params.length
    (match generate form g with
      | .ok handle g' => handle = ⟨name, arity⟩ ∧
          (∃ d : Decl, d.name = name ∧ d.arity = arity ∧
            (d.body.isSome ↔ form.kind ≠ .declaration) ∧
            g'.builder.module.name = g.builder.module.name ∧
            Module.Placed d g.builder.module.functions g'.builder.module.functions) ∧
          ∀ other, g'.arity? other = if other = name then some arity else g.arity? other
      | .error (.duplicateParameter _ _) g' => g' = g
      | .error _ g' => g'.builder.module = g.builder.module.remove name ∧
          ∀ other, g'.arity? other = if other = name then none else g.arity? other) ∧
    let g' := (g.after form).2
    (g'.builder.module.functions.filter (·.name != name) =
        g.builder.module.functions.filter (·.name != name) ∧
      ∀ other, other ≠ name → g'.arity? other = g.arity? other) ∧
    (g'.builder.current = none ∧ g'.bindings = []) ∧
    ∀ next : Form, (∀ e g'', generate next g' ≠ .error (.build e) g'') ∧
      ∀ body x, next.body? = some body → body.Mentions x → x ∉ next.prototype.params →
        ∃ e g'', generate next g' = .error e g'' := by
  intro g name arity
  have hg : g.Clear := clear_runAll moduleName commands
  have heffect := effect_after form hg.toIdle
  have hidle := (heffect.clear hg).toIdle
  refine ⟨?_, heffect.others, ⟨hidle.closed, hidle.unbound⟩, fun next => ?_⟩
  · cases hr : generate form g with
    | ok handle g' =>
        cases effect_of_ok hg.toIdle hr with
        | generated d hname harity hbody =>
            refine ⟨by rw [Decl.handle, hname, harity], ⟨d, hname, harity, isSome_body_iff hbody,
              rfl, Module.placed_put hg.distinct d⟩, fun other => ?_⟩
            rw [Generator.arity?, Signatures.arity?_insert, hname, harity]
            rfl
    | error e g' =>
        cases effect_of_error hg.toIdle hr with
        | repeated x => rfl
        | failed he =>
            have hregistry (other : String) :
                (g.signatures.erase name).arity? other =
                  if other = name then none else g.arity? other :=
              Signatures.arity?_erase _ _ _
            cases e with
            | duplicateParameter f x => exact he.elim
            | _ => exact ⟨rfl, hregistry⟩
  · refine ⟨fun e g'' => generate_ne_build hidle, fun body x hb hx hp => ?_⟩
    cases hr : generate next (g.after form).2 with
    | error e g'' => exact ⟨e, g'', rfl⟩
    | ok handle g'' => exact absurd (mem_params_of_ok hidle hr hb hx) hp

end Generator

end Reckon
