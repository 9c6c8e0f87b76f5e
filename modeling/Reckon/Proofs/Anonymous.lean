import Reckon.Proofs.Layout
import Reckon.Proofs.Locality

/-!
# Proofs — Anonymous

The function around a bare expression.  The names of a form are words
(`Session.Driven.word_of_names`), and the name of bare expressions is not, so no other form declares
it.  A bare expression that is parsed puts its own function under that name, or takes away the one
that was there (`Generator.leaves_after`), and no other form touches it.  So what is found there is
the function of the bare expression that was parsed last, or nothing (`Session.Driven.keepsLast`).

* `Session.anonymous_unnamed`: the names of the forms, the calls of the code, and the function of
  the last bare expression, after any number of steps.
-/

namespace Reckon

/-! ### Bare expressions -/

namespace Generator

/-- What a bare expression leaves under its name: a function without parameters whose body is made
of the expression, or nothing if no code can be generated. -/
def Leaves (g : Generator) (e : Expr) (found : Option Decl) : Prop :=
  match (g.after (.expression ⟨.anonymous, e⟩)).1 with
  | .ok _ => ∃ body, found = some ⟨anonymousName, 0, some body⟩ ∧
      Emitted (g.signatures.insert anonymousName 0) (g.builder.module.declare anonymousName 0) body
        [] e
  | .error _ => found = none

/-- **A bare expression takes the place of the one before it**, whether or not code is generated. -/
theorem leaves_after {g : Generator} (hg : g.builder.current = none) (e : Expr) :
    g.Leaves e ((g.after (.expression ⟨.anonymous, e⟩)).2.builder.module.find? anonymousName) := by
  rw [Leaves, after, generate]
  rcases define_cases ⟨.anonymous, e⟩ g hg with ⟨x, hx, -⟩ | ⟨body, hd, hm⟩ | ⟨err, hd, -⟩
  · -- it has no parameters to repeat
    cases hx
  · rw [hd]
    refine ⟨body, ?_, hm⟩
    simp [Prototype.anonymous, Module.find?_define, Module.find?_declare]
  · rw [hd]
    exact (Module.find?_remove _ _ _).trans (if_pos rfl)

end Generator

namespace Session

/-! ### The names of the forms -/

theorem Driven.word_of_mem_ahead {s : Session Lexer} (h : s.Driven) {x : String}
    (hx : .token (.ident x) ∈ s.parser.ahead) : Word x := by
  induction h with
  | fresh source operators moduleName => exact Lexer.word_of_mem_items hx
  | step h ih => exact ih ((step_upcoming h.proper.ready).1.subset hx)
  | reset h ih => exact ih hx
  | retune h operators ih => exact ih hx
  | reopen h source operators ih => exact Lexer.word_of_mem_items hx

/-- **The names of a form are words.** -/
theorem Driven.word_of_names {s : Session Lexer} (h : s.Driven) {form : Form}
    (hform : s.upcoming? = some form) {x : String} (hx : form.Names x) : Word x := by
  obtain ⟨-, hstep⟩ := step_upcoming h.proper.ready
  rw [hform] at hstep
  obtain ⟨-, t, p, q, hparse, hsuffix⟩ := hstep
  exact h.word_of_mem_ahead (hsuffix.subset ((Parser.mem_ahead_of_form hparse).1 x hx))

/-- Definitions and declarations do not have the name of bare expressions. -/
theorem Driven.name_ne_anonymous {s : Session Lexer} (h : s.Driven) {form : Form}
    (hform : s.upcoming? = some form) (hkind : form.kind ≠ .expression) :
    form.prototype.name ≠ anonymousName :=
  (h.word_of_names hform (.function hkind rfl)).ne_anonymous

/-! ### The last bare expression -/

/-- The bare expression that was parsed last in so many steps, with the session that parsed it. -/
def lastExpression? (s : Session Lexer) : Nat → Option (Session Lexer × Expr)
  | 0 => none
  | n + 1 =>
    match (s.after n).upcoming? with
    | some (.expression f) => some (s.after n, f.body)
    | _ => s.lastExpression? n

theorem Driven.after {s : Session Lexer} (h : s.Driven) (n : Nat) : (s.after n).Driven := by
  induction n with
  | zero => exact h
  | succ n ih => exact ih.step

/-- Under the name of bare expressions is what the last one left, or what was there before the
first. -/
def KeepsLast (s : Session Lexer) (n : Nat) : Prop :=
  match s.lastExpression? n with
  | none => (s.after n).module.find? anonymousName = s.module.find? anonymousName
  | some (before, e) => before.generator.Leaves e ((s.after n).module.find? anonymousName)

/-- **Steps keep what the last bare expression left.** -/
theorem Driven.keepsLast {s : Session Lexer} (h : s.Driven) (n : Nat) : s.KeepsLast n := by
  induction n with
  | zero => rfl
  | succ n ih =>
      have hdriven := h.after n
      have hclear := hdriven.proper.clear
      obtain ⟨-, hgen⟩ := step_upcoming hdriven.proper.ready
      rw [KeepsLast, lastExpression?, Session.after, module]
      cases hform : (s.after n).upcoming? with
      | none =>
          rw [hform] at hgen
          rw [hgen]
          exact ih
      | some form =>
          rw [hform] at hgen
          obtain ⟨hgen, t, p, q, hparse, -⟩ := hgen
          -- a form of another name leaves the function of bare expressions alone
          have hother (hkind : form.kind ≠ .expression) :
              ((s.after n).generator.after form).2.builder.module.find? anonymousName =
                (s.after n).module.find? anonymousName :=
            (Generator.effect_after form hclear.toIdle).find?_eq
              (hdriven.name_ne_anonymous hform hkind).symm
          rw [hgen]
          cases form with
          | definition f =>
              rw [hother (by simp [Form.kind])]
              exact ih
          | declaration f =>
              rw [hother (by simp [Form.kind])]
              exact ih
          | expression f =>
              obtain ⟨prototype, e⟩ := f
              obtain rfl : prototype = .anonymous := (Parser.mem_ahead_of_form hparse).2 rfl
              exact Generator.leaves_after hclear.closed e

/-- **Programs cannot name the function of a bare expression.**  After any number of steps of a
session over any text: the names of the form that is parsed next begin with a letter, go on with
letters and numerals, and are no keywords, so no definition and no declaration has the name of bare
expressions; no body of the module has a call of that name; and under that name is a function
without parameters, made of the bare expression that was parsed last, or nothing if there was none
or no code could be generated for it. -/
theorem anonymous_unnamed (source : Source) (operators : Operators) (moduleName : String)
    (n : Nat) :
    let s := ofSource operators { builder := .empty moduleName } source
    (∀ form ∈ (s.after n).upcoming?,
      (∀ x, form.Names x → Word x) ∧
      (form.kind ≠ .expression → form.prototype.name ≠ anonymousName)) ∧
    (s.after n).module.Spares anonymousName ∧
    match s.lastExpression? n with
    | none => (s.after n).module.find? anonymousName = none
    | some (before, e) => before.generator.Leaves e ((s.after n).module.find? anonymousName) := by
  intro s
  have hs : s.Driven := .fresh source operators moduleName
  have hafter := hs.after n
  refine ⟨fun form hform => ⟨fun x => hafter.word_of_names hform,
    hafter.name_ne_anonymous hform⟩, hafter.proper.spared, ?_⟩
  exact hs.keepsLast n

/-- A bare expression outlasts a definition and a form that cannot be parsed, and is taken away by
one for which no code can be generated. -/
theorem anonymous_unnamed_call :
    let s := ofSource .standard { builder := .empty "main" }
      (Source.ofText "def f() 2; f(); def g(x) x; f(; f(y)")
    (s.after 4).module.find? anonymousName =
      some ⟨anonymousName, 0, some ⟨[], #[.call "f" []], ⟨0⟩⟩⟩ ∧
    (s.after 4).module.Spares anonymousName ∧
    (s.after 5).module.find? anonymousName = none := by
  intro s
  exact ⟨by decide +kernel, (anonymous_unnamed _ .standard "main" 4).2.1, by decide +kernel⟩

end Session

end Reckon
