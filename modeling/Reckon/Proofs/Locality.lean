import Mathlib.Logic.Relation
import Reckon.Proofs.Ending
import Reckon.Proofs.Naming

/-!
# Proofs — Locality

How far a form reaches.  An execution looks only at the functions its calls lead to, those that are
missing among them (`Module.call_eq_of_reaches`), and a form changes no function but its own
(`Generator.Effect.find?_eq`).  So a form changes what a function computes only if its own function
can be reached from there.

The function around a bare expression has a name that no text can spell
(`Lexer.anonymous_notMem_items`), so no code made from texts calls it (`Session.Driven.proper`): a
bare expression changes what no other function computes.

* `execute_local`: both.
-/

namespace Reckon

open ItemStream (Final items)

/-! ### What an execution looks at -/

namespace Module

/-- The body of the one function has a call of the other. -/
def Calls (m : Module) (caller callee : String) : Prop :=
  ∃ d body operands, m.find? caller = some d ∧ d.body = some body ∧
    .call callee operands ∈ body.code

/-- Calls lead from the one function to the other, one after the other or none at all. -/
abbrev Reaches (m : Module) : String → String → Prop := Relation.ReflTransGen m.Calls

end Module

section Runs

variable {call call' : String → List Float → Run Float} {function : String} {args : List Float}

theorem Instr.run_congr {i : Instr} (h : ∀ f operands, i = .call f operands → call' f = call f)
    (slots : Slots) : i.run call' function args slots = i.run call function args slots := by
  cases i with
  | call f operands => rw [Instr.run, Instr.run, h f operands rfl]
  | _ => rfl

theorem Slots.runAll_congr {code : List Instr}
    (h : ∀ f operands, .call f operands ∈ code → call' f = call f) (slots : Slots) :
    slots.runAll call' function args code = slots.runAll call function args code := by
  induction code generalizing slots with
  | nil => rfl
  | cons i code ih =>
      have hi : i.run call' function args slots = i.run call function args slots :=
        i.run_congr (fun f operands hf => h f operands (hf ▸ List.mem_cons_self)) slots
      rw [runAll_cons, runAll_cons, hi]
      refine bind_congr fun slot => ih (fun f operands hf => ?_) _
      exact h f operands (List.mem_cons_of_mem _ hf)

/-- A body runs as its callees run. -/
theorem Body.run_congr {b : Body} (h : ∀ f operands, .call f operands ∈ b.code → call' f = call f) :
    b.run call' function args = b.run call function args := by
  have hcode : ∀ f operands, .call f operands ∈ b.code.toList → call' f = call f :=
    fun f operands hf => h f operands (by simpa using hf)
  rw [Body.run_eq, Body.run_eq, Slots.runAll_congr hcode]

end Runs

namespace Module

/-- **An execution looks only at what can be reached.**  In modules that have the same functions
there, or both have none, the calls go the same way. -/
theorem call_eq_of_reaches {m m' : Module} (left : Nat) {name : String}
    (h : ∀ other, m.Reaches name other → m'.find? other = m.find? other) :
    m'.call left name = m.call left name := by
  -- on the calls that may still be under way; a callee reaches no more than its caller
  induction left generalizing name with
  | zero => rfl
  | succ left ih =>
      funext args
      rw [Module.call, Module.call, h name .refl]
      cases hd : m.find? name with
      | none => rfl
      | some d =>
          cases hbody : d.body with
          | none => simp only [hbody]
          | some body =>
              have hrun : body.run (m'.call left) name args = body.run (m.call left) name args := by
                refine body.run_congr fun f operands hf => ih fun other hother => h other ?_
                exact .head ⟨d, body, operands, hd, hbody, hf⟩ hother
              simp only [hbody, hrun]

theorem execute_eq_of_not_reaches {m m' : Module} {changed name : String}
    (hm : ∀ other, other ≠ changed → m'.find? other = m.find? other)
    (h : ¬ m.Reaches name changed) (args : List Float) :
    m'.execute name args = m.execute name args := by
  have hcall : m'.call maxCallDepth name = m.call maxCallDepth name :=
    call_eq_of_reaches maxCallDepth fun other hother => hm other fun heq => h (heq ▸ hother)
  rw [execute, execute, hcall]

end Module

/-- A form changes no function but its own. -/
theorem Generator.Effect.find?_eq {form : Form} {g : Generator}
    {r : Except GenError Handle × Generator} (h : Effect form g r) {other : String}
    (ho : other ≠ form.prototype.name) :
    r.2.builder.module.find? other = g.builder.module.find? other := by
  cases h with
  | generated d hname harity hbody => rw [Module.find?_put, if_neg (hname ▸ ho)]
  | repeated x => rfl
  | failed he => rw [Module.find?_remove, if_neg ho]

theorem Generator.execute_after {g : Generator} (hg : g.Idle) {form : Form}
    {name : String} (h : ¬ g.builder.module.Reaches name form.prototype.name) (args : List Float) :
    (g.after form).2.builder.module.execute name args = g.builder.module.execute name args :=
  Module.execute_eq_of_not_reaches (fun _ ho => (effect_after form hg).find?_eq ho) h args

/-! ### Functions that nothing calls -/

namespace Module

/-- No body has a call of the function. -/
def Spares (m : Module) (name : String) : Prop :=
  ∀ d ∈ m.functions, ∀ body ∈ d.body, ∀ operands, .call name operands ∉ body.code

theorem Spares.not_reaches {m : Module} {name other : String} (h : m.Spares name)
    (ho : other ≠ name) : ¬ m.Reaches other name := by
  intro hreaches
  rcases hreaches.cases_tail with heq | ⟨caller, -, d, body, operands, hd, hbody, hcall⟩
  · exact ho heq.symm
  · exact h d (List.mem_of_find?_eq_some hd) body hbody operands hcall

end Module

/-- Where no body calls the function, none does after a form whose tree does not. -/
theorem Generator.Effect.spares {form : Form} {g : Generator}
    {r : Except GenError Handle × Generator} (h : Effect form g r) {name : String}
    (hg : g.builder.module.Spares name)
    (hform : ∀ e ∈ form.body?, ∀ count, ¬ e.Invokes name count) :
    r.2.builder.module.Spares name := by
  cases h with
  | generated d hname harity hbody =>
      intro x hx body hxb operands hcall
      rcases Module.mem_put hx with rfl | hx
      · rw [Option.mem_def.mp hxb] at hbody
        generalize form.body? = e at hbody hform
        cases hbody with
        | some hm => exact hform _ rfl _ (hm.invokes hcall)
      · exact hg x hx body hxb operands hcall
  | repeated x => exact hg
  | failed he => exact fun x hx => hg x (List.mem_of_mem_filter hx)

/-! ### Sessions over texts -/

namespace Session

variable {σ : Type} [ItemStream σ]

/-- The form the next step parses, if it parses one. -/
def upcoming? (s : Session σ) : Option Form :=
  match s.hush.parser.nextForm with
  | .error _ _ => none
  | .ok form _ => form

omit [ItemStream σ] in
theorem generator_settle (form : Form) (p : Parser σ) (g : Generator) :
    (settle form p g).2.generator = (g.after form).2 := by
  rw [settle, Generator.after]
  cases Generator.generate form g with
  | ok function g => rfl
  | error e g => rfl

variable [Final σ]

/-- What a step makes of the generator: it generates the form it parses, whose tokens were ahead,
or it leaves the generator as it was.  No item comes back. -/
theorem step_upcoming {s : Session σ} (hs : s.parser.Ready) :
    s.step.2.parser.ahead <:+ s.parser.ahead ∧
    match s.upcoming? with
    | none => s.step.2.generator = s.generator
    | some form => s.step.2.generator = (s.generator.after form).2 ∧
        ∃ (t : Token) (p q : Parser σ), Parser.form t p = .ok form q ∧
          p.ahead <:+ s.parser.ahead := by
  have hto := Parser.ahead_toForm (p := s.hush.parser) ⟨hs.ended, hs.unread⟩
  have hahead : s.hush.parser.ahead = s.parser.ahead := rfl
  have hrecover (e : ParseError) (p : Parser σ) : (p.recover e).ahead <:+ items p.stream := by
    rw [(ahead_recover e p).1]
    exact List.dropWhile_suffix _
  rw [hahead] at hto
  rw [step_eq_nextForm, upcoming?, Parser.nextForm]
  simp only [bind, EStateM.bind]
  cases ht : s.hush.parser.toForm with
  | error e p =>
      rw [ht] at hto
      obtain ⟨k, x, -, hk⟩ := hto
      have hsuf : items p.stream <:+ s.parser.ahead :=
        ⟨List.replicate k (.token (.char ';')) ++ [.malformed x], by simp [hk]⟩
      exact ⟨(hrecover e p).trans hsuf, rfl⟩
  | ok t p =>
      rw [ht] at hto
      obtain ⟨⟨k, hk⟩, -⟩ := hto
      have hsuf : p.ahead <:+ s.parser.ahead := ⟨_, hk.symm⟩
      by_cases heof : t = .eof
      · subst heof
        exact ⟨hsuf, rfl⟩
      · have hgoes := Parser.onward_form t p
        simp only [if_neg heof, EStateM.bind]
        cases hf : Parser.form t p with
        | error e q =>
            rw [hf] at hgoes
            have hq : (q.recover e).ahead <:+ items p.stream := (hrecover e q).trans hgoes
            exact ⟨(hq.trans (Parser.items_suffix_ahead p)).trans hsuf, rfl⟩
        | ok form q =>
            rw [hf] at hgoes
            have hq := (still_settle form q s.generator).ahead_eq
            refine ⟨?_, generator_settle form q s.generator, t, p, q, hf, hsuf⟩
            exact (hq ▸ hgoes.ahead_suffix).trans hsuf

end Session

namespace Session

/-- The states of a session over texts: it is begun with a fresh generator, takes steps, and now and
then forgets the signatures, gets another table of operators, or goes on with another text. -/
inductive Driven : Session Lexer → Prop where
  | fresh (source : Source) (operators : Operators) (moduleName : String) :
      Driven ⟨{ stream := .ofSource source, operators }, { builder := .empty moduleName }⟩
  | step {s : Session Lexer} (h : Driven s) : Driven s.step.2
  | reset {s : Session Lexer} (h : Driven s) : Driven { s with generator := s.generator.reset }
  | retune {s : Session Lexer} (h : Driven s) (operators : Operators) :
      Driven { s with parser := { s.parser with operators } }
  | reopen {s : Session Lexer} (h : Driven s) (source : Source) (operators : Operators) :
      Driven { s with parser := { stream := .ofSource source, operators } }

/-- Neither what is ahead nor what has been generated has the name of a bare expression in it. -/
structure Proper (s : Session Lexer) : Prop where
  ready : s.parser.Ready
  unspelled : .token (.ident anonymousName) ∉ s.parser.ahead
  clear : s.generator.Clear
  spared : s.module.Spares anonymousName

theorem Proper.step {s : Session Lexer} (h : s.Proper) : s.step.2.Proper := by
  obtain ⟨hahead, hgen⟩ := step_upcoming h.ready
  have hready : s.step.2.parser.Ready := ready_after h.ready 1
  have hunspelled : .token (.ident anonymousName) ∉ s.step.2.parser.ahead :=
    fun hmem => h.unspelled (hahead.subset hmem)
  cases hform : s.upcoming? with
  | none =>
      rw [hform] at hgen
      exact ⟨hready, hunspelled, hgen ▸ h.clear, by rw [module, hgen]; exact h.spared⟩
  | some form =>
      rw [hform] at hgen
      obtain ⟨hgen, t, p, q, hparse, hsuf⟩ := hgen
      have heffect := Generator.effect_after form h.clear.toIdle
      refine ⟨hready, hunspelled, hgen ▸ heffect.clear h.clear, ?_⟩
      rw [module, hgen]
      refine heffect.spares h.spared fun e he count hcall => h.unspelled (hsuf.subset ?_)
      exact (Parser.mem_ahead_of_form hparse).1 anonymousName (.body he (.inr ⟨count, hcall⟩))

/-- **No code made from texts calls a bare expression.** -/
theorem Driven.proper {s : Session Lexer} (h : Driven s) : s.Proper := by
  induction h with
  | fresh source operators moduleName =>
      exact ⟨⟨nofun, fun _ => rfl⟩, Lexer.anonymous_notMem_items _,
        Generator.clear_fresh moduleName, nofun⟩
  | step h ih => exact ih.step
  | reset h ih => exact ⟨ih.ready, ih.unspelled, ih.clear.reset, ih.spared⟩
  | retune h operators ih =>
      exact ⟨⟨ih.ready.ended, ih.ready.unread⟩, ih.unspelled, ih.clear, ih.spared⟩
  | reopen h source operators ih =>
      exact ⟨⟨nofun, fun _ => rfl⟩, Lexer.anonymous_notMem_items _, ih.clear, ih.spared⟩

/-- A step that parses nothing but a bare expression changes what no other function computes. -/
theorem Proper.execute_step {s : Session Lexer} (h : s.Proper)
    (hkind : ∀ form ∈ s.upcoming?, form.kind = .expression) {name : String}
    (hname : name ≠ anonymousName) (args : List Float) :
    s.step.2.module.execute name args = s.module.execute name args := by
  obtain ⟨-, hgen⟩ := step_upcoming h.ready
  rw [module, module]
  cases hform : s.upcoming? with
  | none => rw [hform] at hgen; rw [hgen]
  | some form =>
      rw [hform] at hgen
      obtain ⟨hgen, t, p, q, hparse, -⟩ := hgen
      have hp : form.prototype = .anonymous :=
        (Parser.mem_ahead_of_form hparse).2 (hkind form hform)
      rw [hgen]
      refine Generator.execute_after h.clear.toIdle ?_ args
      rw [hp]
      exact h.spared.not_reaches hname

end Session

/-- **A form changes what a function computes only if it can be reached from there.**  In every
state commands lead to, whether a form is generated or not, executing a function from which calls do
not lead to the form's own function gives the same before and after, in its result and in what it
does on the way.  In every state of a session over texts, calls lead to the function of a bare
expression from nowhere else; so a step that parses a bare expression, or nothing, changes what no
other function computes. -/
theorem execute_local :
    (∀ (moduleName : String) (commands : List Command) (form : Form) (name : String),
      let g := (Command.runAll moduleName commands).1
      ¬ g.builder.module.Reaches name form.prototype.name → ∀ args,
        (g.after form).2.builder.module.execute name args = g.builder.module.execute name args) ∧
    ∀ s : Session Lexer, s.Driven →
      s.step.2.generator = (match s.upcoming? with
        | some form => (s.generator.after form).2
        | none => s.generator) ∧
      ∀ name, name ≠ anonymousName →
        ¬ s.module.Reaches name anonymousName ∧
        ((∀ form ∈ s.upcoming?, form.kind = .expression) → ∀ args,
          s.step.2.module.execute name args = s.module.execute name args) := by
  refine ⟨?_, fun s hs => ⟨?_, fun name hname => ?_⟩⟩
  · intro moduleName commands form name g h
    exact Generator.execute_after (Generator.clear_runAll moduleName commands).toIdle h
  · have hgen := (Session.step_upcoming hs.proper.ready).2
    cases hform : s.upcoming? with
    | none => rw [hform] at hgen; exact hgen
    | some form => rw [hform] at hgen; exact hgen.1
  · exact ⟨hs.proper.spared.not_reaches hname, fun hkind => hs.proper.execute_step hkind hname⟩

/-- A caller that is replaced in vain, and a bare expression that fails: in both cases `f` stays
what it is. -/
theorem execute_local_failed :
    let sum : Form := .definition ⟨⟨"f", ["x"]⟩, .binary '+' (.var "x") (.var "x")⟩
    let caller : Form := .definition ⟨⟨"g", ["x"]⟩, .call "f" [.var "x"]⟩
    let failing : Form := .definition ⟨⟨"g", ["x"]⟩, .var "y"⟩
    let g := (Command.runAll "main" [.generate sum, .generate caller]).1
    let s := (⟨.ofText "def f(x) x; f(y)", {}⟩ : Session Lexer).step.2
    (¬ g.builder.module.Reaches "f" "g" ∧ ∀ x,
      (g.after failing).2.builder.module.execute "f" [x] = g.builder.module.execute "f" [x]) ∧
    s.step.1 = some (.error (.generate (.unknownVariable "y"))) ∧
    (∀ form ∈ s.upcoming?, form.kind = .expression) ∧ ∀ x,
      s.step.2.module.execute "f" [x] = s.module.execute "f" [x] := by
  intro sum caller failing g s
  have hf : g.builder.module.find? "f" = some ⟨"f", 1, some ⟨["x"],
      #[.param 0, .arith .add ⟨0⟩ ⟨0⟩], ⟨1⟩⟩⟩ := by decide +kernel
  have hreaches : ¬ g.builder.module.Reaches "f" "g" := by
    intro h
    rcases h.cases_head with heq | ⟨callee, ⟨d, body, operands, hd, hbody, hcall⟩, -⟩
    · exact absurd heq (by decide)
    · cases hf.symm.trans hd
      cases hbody
      simp at hcall
  have hkind : ∀ form ∈ s.upcoming?, form.kind = .expression := by decide +kernel
  have hdriven : s.Driven := .step (.fresh _ .standard _)
  have hsession := execute_local.2 s hdriven
  exact ⟨⟨hreaches, fun x => execute_local.1 "main" _ failing "f" hreaches [x]⟩, by decide +kernel,
    hkind, fun x => (hsession.2 "f" (by decide)).2 hkind [x]⟩

end Reckon
