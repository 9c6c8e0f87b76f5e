import Reckon.Proofs.Sequel
import Reckon.Session.Report

/-!
# Proofs — Layout

What a session makes of a source is for the items of the source to say.  Two sessions that have read
nothing, over streams with the same items, are abreast from their first step on, so they report the
same and end with the same generator (`Session.same_of_items`).  Blanks, ends of lines and comments
make no items, and so no difference.

* `Session.run_items`: sessions over sources with the same items, and lines that have none.
-/

namespace Reckon

open ItemStream (Final items)

namespace Session

/-- A session over a source that has read nothing, with its table of operators and what has been
generated before. -/
def ofSource (ops : Operators) (g : Generator) (source : Source) : Session Lexer :=
  ⟨{ stream := .ofSource source, operators := ops }, g⟩

/-! ### Sessions that come to the same -/

section Same

variable {σ τ : Type} [ItemStream σ] [ItemStream τ]

/-- What is reported of each form. -/
def reports (s : Session σ) : List Report := s.run.1.map Turn.report

/-- The report of an outcome, which the parser has no part in. -/
def reportOf (turn : Outcome × Generator) : Report :=
  (⟨{ stream := [] }, turn.2⟩ : Session (List Item)).report turn.1

theorem reports_eq (s : Session σ) : s.reports = s.trace.map reportOf := by
  rw [reports, trace, List.map_map]
  rfl

/-- The sessions report the same of their forms, have the same generator behind each of them, and
end with the same one. -/
structure Same (s : Session σ) (s' : Session τ) : Prop where
  trace : s'.trace = s.trace
  reports : s'.reports = s.reports
  last : s'.run.2.generator = s.run.2.generator

variable [Final σ] [Final τ]

/-- **Sessions see the items alone.** -/
theorem same_of_items (ops : Operators) (g : Generator) {a : σ} {b : τ} (h : items b = items a) :
    Same (σ := σ) (τ := τ) ⟨{ stream := a, operators := ops }, g⟩
      ⟨{ stream := b, operators := ops }, g⟩ := by
  let s : Session σ := ⟨{ stream := a, operators := ops }, g⟩
  let s' : Session τ := ⟨{ stream := b, operators := ops }, g⟩
  have hpaired : Paired s.generator (.nil ops) s.step s'.step := by
    -- both are on their way to the first form as if they stood on a semicolon
    have hp := Parser.toForm_of_not_primed (p := s.hush.parser) rfl
    have hq := Parser.toForm_of_not_primed (p := s'.hush.parser) rfl
    rw [step_eq, step_eq, hp, hq]
    exact paired_conclude (Parser.arrives_toForm
      { operators := rfl, operators' := rfl, items := h.trans (List.append_nil _).symm
        current := rfl, primed := rfl, primed' := rfl, ended := nofun })
  obtain ⟨htrace, hlast⟩ := trace_eq rfl hpaired
  exact ⟨htrace, by rw [reports_eq, reports_eq, htrace], hlast⟩

end Same

/-! ### Lines without items -/

/-- A line without items leaves the items of the lines around it. -/
theorem items_layout {layout : String} (h : items (Lexer.ofText layout) = []) (a b : String) :
    items (Lexer.ofText (a ++ "\n" ++ layout ++ "\n" ++ b)) =
      items (Lexer.ofText (a ++ "\n" ++ b)) := by
  rw [Lexer.items_newline, Lexer.items_newline, Lexer.items_newline, h, List.append_nil]

/-- **Sessions depend on the items of their source alone.**  With the same table of operators and
the same generator, sessions over sources that have the same tokens and malformed lexemes report the
same of every form and have the same generator, its signatures and its module, behind each form and
at the end.  So lines that hold nothing but blanks and comments can be put anywhere between others,
or left out. -/
theorem run_items (ops : Operators) (g : Generator) :
    (∀ a b : Source, items (Lexer.ofSource a) = items (Lexer.ofSource b) →
      Same (ofSource ops g a) (ofSource ops g b)) ∧
    ∀ a layout b : String, items (Lexer.ofText layout) = [] →
      Same (ofText ops g (a ++ "\n" ++ layout ++ "\n" ++ b)) (ofText ops g (a ++ "\n" ++ b)) :=
  ⟨fun _ _ h => same_of_items ops g h.symm,
    fun a _ b h => same_of_items ops g (items_layout h a b).symm⟩

/-- A definition, a malformed number and an expression that fails, on one line, and on several with
comments between them. -/
theorem run_items_respaced :
    let line := Source.ofText "def f(x)x+1;1.2.3 f(y)"
    let lines := Source.ofText "def f ( x ) # f(y)\r\n\tx + 1 ;\n1.2.3# 4\nf\n(y) "
    items (Lexer.ofSource line) = items (Lexer.ofSource lines) ∧
    (ofSource .standard {} line).run.1.map Turn.outcome =
      [.ok ⟨.definition, ⟨"f", 1⟩⟩,
       .error (.parse (.lex (.invalidNumber "1.2.3"))),
       .error (.generate (.unknownVariable "y"))] ∧
    Same (ofSource .standard {} line) (ofSource .standard {} lines) := by
  intro line lines
  have hitems : items (Lexer.ofSource line) = items (Lexer.ofSource lines) := by decide +kernel
  exact ⟨hitems, by decide +kernel, (run_items .standard {}).1 line lines hitems⟩

end Session

end Reckon
