import Reckon.Proofs.Calls
import Reckon.Proofs.WellFormed

/-!
# Proofs — Linking

Calls that lead somewhere.  A call is checked against the signatures when its code is generated, but
its callee is looked up by name when it is run.  In a *closed* module (`Module.Closed`) every call
leads to a declared function with as many parameters as the call has operands.

* `Generator.backed_runAll`: what is registered is declared, with the registered arity.
* `Generator.Effect.closed`: a form keeps a module closed, unless it *unsettles* it: it changes the
  arity of a declared function, or takes a declared function away.
* `Module.Closed.confined_call`: in a closed module no call misses its callee, and no arity is wrong
  but that of a built-in function.
* `calls_resolve`: the three together.
-/

namespace Reckon

/-! ### Closed modules -/

namespace Module

/-- The number of parameters of the function of the name. -/
def arity? (m : Module) (name : String) : Option Nat := (m.find? name).map Decl.arity

/-- The instruction is no call, or one to a declared function with as many parameters as there are
operands. -/
def Resolves (m : Module) : Instr → Prop
  | .call f operands => m.arity? f = some operands.length
  | _ => True

instance (m : Module) : DecidablePred m.Resolves
  | .call f operands => inferInstanceAs (Decidable (m.arity? f = some operands.length))
  | .const _ | .param _ | .arith _ _ _ | .less _ _ | .widen _ => inferInstanceAs (Decidable True)

/-- Every call of every body leads to a declared function with as many parameters as there are
operands. -/
def Closed (m : Module) : Prop := ∀ d ∈ m.functions, ∀ body ∈ d.body, ∀ i ∈ body.code, m.Resolves i

instance (m : Module) : Decidable m.Closed :=
  inferInstanceAs (Decidable (∀ d ∈ m.functions, ∀ body ∈ d.body, ∀ i ∈ body.code, m.Resolves i))

theorem arity?_put (m : Module) (d : Decl) (other : String) :
    arity? { m with functions := put d m.functions } other =
      if other = d.name then some d.arity else m.arity? other := by
  rw [arity?, find?_put]
  split
  · rfl
  · rfl

theorem arity?_remove (m : Module) (name other : String) :
    (m.remove name).arity? other = if other = name then none else m.arity? other := by
  rw [arity?, find?_remove]
  split
  · rfl
  · rfl

/-- What resolves in one module resolves in another that has its functions with their arities. -/
theorem Resolves.mono {m m' : Module} {i : Instr} (h : m.Resolves i)
    (hm : ∀ f a, m.arity? f = some a → m'.arity? f = some a) : m'.Resolves i := by
  cases i with
  | call f operands => exact hm f _ h
  | _ => trivial

end Module

/-! ### What is registered is declared -/

namespace Generator

/-- Every registered function is declared with the registered arity. -/
def Backed (g : Generator) : Prop :=
  ∀ name a, g.arity? name = some a → g.builder.module.arity? name = some a

theorem Effect.backed {form : Form} {g : Generator} {r : Except GenError Handle × Generator}
    (h : Effect form g r) (hg : g.Backed) : r.2.Backed := by
  intro name a ha
  cases h with
  | generated d hname harity hbody =>
      rw [arity?, Signatures.arity?_insert] at ha
      rw [Module.arity?_put]
      split at ha
      · next hn => rw [if_pos hn]; exact ha
      · next hn => rw [if_neg hn]; exact hg name a ha
  | repeated x => exact hg name a ha
  | failed he =>
      rw [arity?, Signatures.arity?_erase] at ha
      rw [Module.arity?_remove]
      split at ha
      · cases ha
      · next hn => rw [if_neg hn]; exact hg name a ha

theorem backed_runAll (moduleName : String) (commands : List Command) :
    (Command.runAll moduleName commands).1.Backed := by
  have h := runAll_invariant (P := fun g => g.Clear ∧ g.Backed) moduleName
    ⟨clear_fresh moduleName, nofun⟩ (fun g form ⟨hc, hb⟩ => ?_)
    (fun g ⟨hc, hb⟩ => ⟨hc.reset, nofun⟩) commands
  · exact h.2
  · have heffect := effect_after form hc.toIdle
    exact ⟨heffect.clear hc, heffect.backed hb⟩

/-! ### Forms that keep a module closed -/

/-- The form, with this outcome, takes something away that may be called: it changes the arity of a
declared function, or it fails after its function has replaced a declared one. -/
def Unsettles (g : Generator) (form : Form) : Except GenError Handle → Prop
  | .ok _ => ∃ a ∈ g.builder.module.arity? form.prototype.name, a ≠ form.prototype.params.length
  | .error (.duplicateParameter _ _) => False
  | .error _ => (g.builder.module.find? form.prototype.name).isSome

instance (g : Generator) (form : Form) : DecidablePred (g.Unsettles form)
  | .ok _ => inferInstanceAs (Decidable (∃ a ∈ g.builder.module.arity? _, _))
  | .error (.duplicateParameter _ _) => inferInstanceAs (Decidable False)
  | .error (.unknownVariable _) | .error (.invalidOperator _) | .error (.unknownFunction _)
  | .error (.arityMismatch _ _ _) | .error (.build _) =>
      inferInstanceAs (Decidable ((g.builder.module.find? _).isSome = true))

/-- A form that does not unsettle a module keeps the arities of its functions. -/
theorem Effect.arity?_eq {form : Form} {g : Generator} {r : Except GenError Handle × Generator}
    (h : Effect form g r) (hr : ¬ g.Unsettles form r.1) {f : String} {a : Nat}
    (hf : g.builder.module.arity? f = some a) : r.2.builder.module.arity? f = some a := by
  cases h with
  | generated d hname harity hbody =>
      rw [Module.arity?_put]
      split
      · next hfd =>
          rw [hfd, hname] at hf
          have ha : ¬ a ≠ form.prototype.params.length := fun ha => hr ⟨a, hf, ha⟩
          rw [harity, Decidable.not_not.mp ha]
      · exact hf
  | repeated x => exact hf
  | @failed e he =>
      have hnone : ¬ (g.builder.module.find? form.prototype.name).isSome := by
        cases e with
        | duplicateParameter n x => exact he.elim
        | _ => exact hr
      rw [Module.arity?_remove, if_neg]
      · exact hf
      · rintro rfl
        rw [Module.arity?, Option.not_isSome_iff_eq_none.mp hnone] at hf
        cases hf

/-- **A form that does not unsettle a module keeps it closed.**  The calls that were there find what
they found; those of a new body were checked against the signatures, and what is registered is
declared. -/
theorem Effect.closed {form : Form} {g : Generator} {r : Except GenError Handle × Generator}
    (h : Effect form g r) (hb : g.Backed) (hc : g.builder.module.Closed)
    (hr : ¬ g.Unsettles form r.1) : r.2.builder.module.Closed := by
  have hold : ∀ x ∈ g.builder.module.functions, ∀ body ∈ x.body, ∀ i ∈ body.code,
      r.2.builder.module.Resolves i := fun x hx body hbody i hi =>
    (hc x hx body hbody i hi).mono fun f a hf => h.arity?_eq hr hf
  have hbacked := h.backed hb
  cases h with
  | generated d hname harity hbody =>
      intro x hx body hxb i hi
      rcases Module.mem_put hx with rfl | hx
      · rw [Option.mem_def.mp hxb] at hbody
        generalize form.body? = e at hbody
        cases hbody with
        | some hm =>
            cases i with
            | call f operands => exact hbacked f _ (hm.known (hm.invokes hi)).1
            | _ => trivial
      · exact hold x hx body hxb i hi
  | repeated x => exact hc
  | failed he => exact fun x hx => hold x (List.mem_of_mem_filter hx)

end Generator

/-! ### Running closed modules -/

section Runs

variable {allowed : ExecError → Prop} {call : String → List Float → Run Float} {args : List Float}

theorem Slots.confined_number (hop : ∀ r f, allowed (.invalidOperand r f)) (slots : Slots)
    (function : String) (r : Reg) :
    Confined allowed (slots.number function r) fun _ => True := by
  unfold Slots.number
  split
  · exact .pure trivial
  · exact .throw (hop _ _)

theorem Slots.confined_flag (hop : ∀ r f, allowed (.invalidOperand r f)) (slots : Slots)
    (function : String) (r : Reg) :
    Confined allowed (slots.flag function r) fun _ => True := by
  unfold Slots.flag
  split
  · exact .pure trivial
  · exact .throw (hop _ _)

/-- As many numbers are read as there are registers. -/
theorem Slots.confined_numbers (hop : ∀ r f, allowed (.invalidOperand r f)) (slots : Slots)
    (function : String) (rs : List Reg) :
    Confined allowed (rs.mapM (slots.number function)) fun xs => xs.length = rs.length := by
  induction rs with
  | nil => exact .pure rfl
  | cons r rs ih =>
      rw [List.mapM_cons]
      refine .bind (slots.confined_number hop function r) fun x _ => .bind ih fun xs hxs => .pure ?_
      rw [List.length_cons, List.length_cons, hxs]

/-- An instruction fails at an operand, or as its call fails. -/
theorem Instr.confined_run (hop : ∀ r f, allowed (.invalidOperand r f)) (function : String)
    (slots : Slots) (i : Instr)
    (hcall : ∀ f operands xs, i = .call f operands → xs.length = operands.length →
      Confined allowed (call f xs) fun _ => True) :
    Confined allowed (i.run call function args slots) fun _ => True := by
  cases i with
  | const v => exact .pure trivial
  | param k =>
      rw [Instr.run]
      split
      · exact .pure trivial
      · exact .throw (hop _ _)
  | arith op l r =>
      exact .bind (slots.confined_number hop function l) fun _ _ =>
        .bind (slots.confined_number hop function r) fun _ _ => .pure trivial
  | less l r =>
      exact .bind (slots.confined_number hop function l) fun _ _ =>
        .bind (slots.confined_number hop function r) fun _ _ => .pure trivial
  | widen r => exact .bind (slots.confined_flag hop function r) fun _ _ => .pure trivial
  | call f operands =>
      exact .bind (slots.confined_numbers hop function operands) fun xs hxs =>
        .bind (hcall f operands xs rfl hxs) fun _ _ => .pure trivial

theorem Slots.confined_runAll (hop : ∀ r f, allowed (.invalidOperand r f)) (function : String)
    {code : List Instr}
    (hcall : ∀ f operands xs, .call f operands ∈ code → xs.length = operands.length →
      Confined allowed (call f xs) fun _ => True) (slots : Slots) :
    Confined allowed (slots.runAll call function args code) fun _ => True := by
  induction code generalizing slots with
  | nil => exact .pure trivial
  | cons i code ih =>
      rw [Slots.runAll_cons]
      refine .bind (i.confined_run hop function slots ?_) fun slot _ => ih ?_ _
      · rintro f operands xs rfl hxs
        exact hcall f operands xs List.mem_cons_self hxs
      · exact fun f operands xs hf => hcall f operands xs (List.mem_cons_of_mem _ hf)

/-- A body fails at an operand, or as one of its calls fails. -/
theorem Body.confined_run (hop : ∀ r f, allowed (.invalidOperand r f)) (function : String)
    (b : Body)
    (hcall : ∀ f operands xs, .call f operands ∈ b.code → xs.length = operands.length →
      Confined allowed (call f xs) fun _ => True) :
    Confined allowed (b.run call function args) fun _ => True := by
  rw [Body.run_eq]
  refine .bind (Slots.confined_runAll hop function (fun f operands xs hf => ?_) #[])
    fun slots _ => slots.confined_number hop function b.result
  exact hcall f operands xs (by simpa using hf)

end Runs

namespace Module

/-- The failures a closed module may meet: no function is unknown, and an arity is wrong only where
a function without a body stands for a built-in one of another arity. -/
def Linked (m : Module) : ExecError → Prop
  | .unknownFunction _ => False
  | .arityMismatch f expected found => ∃ d native, m.find? f = some d ∧ d.body = none ∧
      Native.find? f = some native ∧ native.arity = expected ∧ d.arity = found ∧ expected ≠ found
  | _ => True

/-- **In a closed module every call finds its callee.** -/
theorem Closed.confined_call {m : Module} (h : m.Closed) (left : Nat) {name : String}
    {args : List Float} (ha : m.arity? name = some args.length) :
    Confined m.Linked (m.call left name args) fun _ => True := by
  induction left generalizing name args with
  | zero => exact .throw trivial
  | succ left ih =>
      obtain ⟨d, hd, harity⟩ := Option.map_eq_some_iff.mp ha
      rw [Module.call, hd]
      dsimp only
      rw [if_pos harity]
      cases hbody : d.body with
      | none =>
          show Confined m.Linked (Native.run name args) _
          unfold Native.run
          split
          · exact .throw trivial
          · next native hn =>
              split
              · exact .bind (.note _) fun _ _ => .pure trivial
              · next hne => exact .throw ⟨d, native, hd, hbody, hn, rfl, harity, hne⟩
      | some body =>
          refine .bind (.note _) fun _ _ => body.confined_run (fun _ _ => trivial) name ?_
          intro f operands xs hf hxs
          have hresolves := h d (List.mem_of_find?_eq_some hd) body hbody _ hf
          exact ih (hxs ▸ hresolves)

/-- Where no two functions have one name, every function is found under its own. -/
theorem find?_of_mem {m : Module} (hm : (m.functions.map Decl.name).Nodup) {d : Decl}
    (hd : d ∈ m.functions) : m.find? d.name = some d := by
  unfold find?
  generalize m.functions = ds at hm hd
  induction ds with
  | nil => cases hd
  | cons x xs ih =>
      rw [List.map_cons, List.nodup_cons] at hm
      rcases List.mem_cons.mp hd with rfl | hd
      · exact List.find?_cons_of_pos (by simp)
      · have hne : x.name ≠ d.name := fun h => hm.1 (h ▸ List.mem_map_of_mem hd)
        rw [List.find?_cons_of_neg (by simpa using hne)]
        exact ih hm.2 hd

end Module

/-! ### Whole sessions -/

/-- None of the commands unsettles the module as it is when the command is given. -/
def Command.Steady (g : Generator) : List Command → Prop
  | [] => True
  | .generate form :: commands =>
      ¬ g.Unsettles form (g.after form).1 ∧ Steady (g.after form).2 commands
  | .reset :: commands => Steady g.reset commands

instance Command.decidableSteady (g : Generator) :
    (commands : List Command) → Decidable (Command.Steady g commands)
  | [] => inferInstanceAs (Decidable True)
  | .generate form :: commands =>
      have := decidableSteady (g.after form).2 commands
      inferInstanceAs (Decidable (_ ∧ _))
  | .reset :: commands => decidableSteady g.reset commands

/-- Commands that do not unsettle a module leave it closed. -/
theorem Command.Steady.closed {g : Generator} {commands : List Command}
    (h : Steady g commands) (hg : g.Clear) (hb : g.Backed) (hc : g.builder.module.Closed)
    (lib : Library) :
    (commands.foldl (fun s c => c.run s) (g, lib)).1.builder.module.Closed := by
  induction commands generalizing g lib with
  | nil => exact hc
  | cons c commands ih =>
      cases c with
      | generate form =>
          have heffect := Generator.effect_after form hg.toIdle
          exact ih h.2 (heffect.clear hg) (heffect.backed hb) (heffect.closed hb hc h.1) _
      | reset => exact ih h hg.reset nofun hc lib

/-- **Calls lead somewhere as long as no arity changes.**  In every state commands lead to, a form
keeps a closed module closed unless it changes the arity of a declared function, or fails for
another reason than repeated parameters when there was a function of its name; a reset keeps it
closed, and a fresh module is closed, so the module is closed after commands none of which is such a
form.  While it is closed, executing any of its functions with as many arguments as it has
parameters never meets an unknown function, and meets a wrong arity only at a function without a
body whose built-in function has another arity. -/
theorem calls_resolve (moduleName : String) (commands : List Command) :
    let g := (Command.runAll moduleName commands).1
    let m := g.builder.module
    (m.Closed → g.reset.builder.module.Closed ∧
      ∀ form, ¬ g.Unsettles form (g.after form).1 → (g.after form).2.builder.module.Closed) ∧
    (Command.Steady { builder := .empty moduleName } commands → m.Closed) ∧
    (m.Closed → ∀ d ∈ m.functions, ∀ args : List Float, args.length = d.arity →
      (∀ f, (m.execute d.name args).result ≠ .error (.unknownFunction f)) ∧
      ∀ f expected found,
        (m.execute d.name args).result = .error (.arityMismatch f expected found) →
          ∃ x ∈ m.functions, ∃ native, x.name = f ∧ x.arity = found ∧ x.body = none ∧
            Native.find? f = some native ∧ native.arity = expected ∧ expected ≠ found) := by
  intro g m
  have hg : g.Clear := Generator.clear_runAll moduleName commands
  have hb : g.Backed := Generator.backed_runAll moduleName commands
  refine ⟨fun hc => ⟨hc, fun form => (Generator.effect_after form hg.toIdle).closed hb hc⟩,
    fun h => h.closed (Generator.clear_fresh moduleName) nofun nofun .empty,
    fun hc d hd args hargs => ?_⟩
  have harity : m.arity? d.name = some args.length := by
    rw [Module.arity?, Module.find?_of_mem hg.distinct hd, hargs]
    rfl
  have hrun := hc.confined_call maxCallDepth harity #[]
  unfold Module.execute
  cases hcall : m.call maxCallDepth d.name args #[] with
  | ok x acts => exact ⟨nofun, nofun⟩
  | error e acts =>
      rw [hcall] at hrun
      refine ⟨?_, ?_⟩
      · rintro f ⟨⟩
        exact hrun
      · rintro f expected found ⟨⟩
        obtain ⟨x, native, hx, hbody, hnative, hexpected, hfound, hne⟩ := hrun
        exact ⟨x, List.mem_of_find?_eq_some hx, native, by simpa using List.find?_some hx, hfound,
          hbody, hnative, hexpected, hne⟩

/-- A built-in function declared with one parameter too many, a function that calls it, and one
that is taken back: the call finds its callee, and fails there. -/
theorem calls_resolve_square :
    let commands : List Command :=
      [.generate (.declaration ⟨"sqrt", ["a", "b"]⟩),
       .generate (.definition ⟨⟨"f", ["x"]⟩, .call "sqrt" [.var "x", .var "x"]⟩),
       .generate (.definition ⟨⟨"g", []⟩, .var "x"⟩)]
    let m := (Command.runAll "main" commands).1.builder.module
    Command.Steady { builder := .empty "main" } commands ∧ m.Closed ∧
    ∀ x : Float,
      (∀ f, (m.execute "f" [x]).result ≠ .error (.unknownFunction f)) ∧
      (m.execute "f" [x]).result = .error (.arityMismatch "sqrt" 1 2) ∧
      ∃ d ∈ m.functions, ∃ native, d.name = "sqrt" ∧ d.arity = 2 ∧ d.body = none ∧
        Native.find? "sqrt" = some native ∧ native.arity = 1 ∧ 1 ≠ 2 := by
  intro commands m
  have hsteady : Command.Steady { builder := .empty "main" } commands := by decide +kernel
  let f : Decl := ⟨"f", 1, some ⟨["x"], #[.param 0, .call "sqrt" [⟨0⟩, ⟨0⟩]], ⟨1⟩⟩⟩
  have hm : m = ⟨"main", [⟨"sqrt", 2, none⟩, f]⟩ := by decide +kernel
  obtain ⟨-, hclosed, hruns⟩ := calls_resolve "main" commands
  refine ⟨hsteady, hclosed hsteady, fun x => ?_⟩
  have hf : f ∈ m.functions := by
    rw [hm]
    exact .tail _ (.head _)
  obtain ⟨hknown, harity⟩ := hruns (hclosed hsteady) f hf [x] rfl
  have hrun : (m.execute "f" [x]).result = .error (.arityMismatch "sqrt" 1 2) := by
    rw [hm]
    rfl
  exact ⟨hknown, hrun, harity _ _ _ hrun⟩

/-- A callee that gets another arity, and one that is taken away, leave their caller with a call
that leads nowhere. -/
example :
    let caller : List Command :=
      [.generate (.definition ⟨⟨"g", ["a"]⟩, .var "a"⟩),
       .generate (.definition ⟨⟨"f", ["x"]⟩, .call "g" [.var "x"]⟩)]
    let changed : Command := .generate (.declaration ⟨"g", ["a", "b"]⟩)
    let failed : Command := .generate (.definition ⟨⟨"g", ["a"]⟩, .var "b"⟩)
    ¬ (Command.runAll "main" (caller ++ [changed])).1.builder.module.Closed ∧
    ¬ (Command.runAll "main" (caller ++ [failed])).1.builder.module.Closed := by
  decide +kernel

end Reckon
