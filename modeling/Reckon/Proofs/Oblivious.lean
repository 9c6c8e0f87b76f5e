import Reckon.Proofs.WellFormed

/-!
# Proofs — Oblivious

Runs do not look at their numbers.  There are no branches, so what a run does, and whether and how
it fails, is settled by the code and by how many arguments there are.

Two runs of one function are compared step by step (`Oblivious`): their registers have the same
shapes (`Slots.Alike`), their acts differ in the numbers alone (`Act.blank`), and they fail
together.  Nothing is asked of the code: a register that is not there, or that holds a truth value
for a number, is missed by both runs.

* `Module.oblivious_call`: calls of one function with as many arguments go the same way.
* `Module.execute_oblivious`: so do executions.
-/

namespace Reckon

/-- The act with its numbers left out. -/
def Act.blank : Act → Act
  | .entered name depth => .entered name depth
  | .native name args => .native name (args.map fun _ => 0)

/-- The built-in function the act calls, if it calls one. -/
def Act.native? : Act → Option String
  | .entered _ _ => none
  | .native name _ => some name

/-- The built-in functions the run calls, in order. -/
def Execution.natives (e : Execution) : List String := e.acts.toList.filterMap Act.native?

/-- Whether the run fails, and how. -/
def Execution.failure (e : Execution) : Option ExecError :=
  match e.result with
  | .ok _ => none
  | .error e => some e

theorem Act.native?_blank (act : Act) : act.blank.native? = act.native? := by
  cases act <;> rfl

/-! ### Two runs -/

section Runs

variable {α β : Type}

/-- Two runs end alike: with related values or with the same failure, and with acts that differ in
their numbers alone. -/
inductive Twin (R : α → α → Prop) :
    EStateM.Result ExecError (Array Act) α → EStateM.Result ExecError (Array Act) α → Prop where
  | ok {a b : α} {acts acts' : Array Act} (h : R a b)
      (hacts : acts.map Act.blank = acts'.map Act.blank) : Twin R (.ok a acts) (.ok b acts')
  | error {e : ExecError} {acts acts' : Array Act}
      (hacts : acts.map Act.blank = acts'.map Act.blank) : Twin R (.error e acts) (.error e acts')

/-- The two go the same way from acts that differ in their numbers alone. -/
def Oblivious (R : α → α → Prop) (m m' : Run α) : Prop :=
  ∀ acts acts' : Array Act, acts.map Act.blank = acts'.map Act.blank → Twin R (m acts) (m' acts')

namespace Oblivious

variable {R : α → α → Prop} {m m' : Run α}

theorem pure {a b : α} (h : R a b) : Oblivious R (Pure.pure a) (Pure.pure b) :=
  fun _ _ hacts => .ok h hacts

theorem throw (e : ExecError) : Oblivious R (throw e) (throw e) := fun _ _ hacts => .error hacts

theorem bind {S : β → β → Prop} {f f' : α → Run β} (hm : Oblivious R m m')
    (hf : ∀ a b, R a b → Oblivious S (f a) (f' b)) : Oblivious S (m >>= f) (m' >>= f') := by
  intro acts acts' hacts
  have h := hm acts acts' hacts
  generalize hr : m acts = r at h
  generalize hr' : m' acts' = r' at h
  cases h with
  | ok h hacts => rw [bind_of_ok hr, bind_of_ok hr']; exact hf _ _ h _ _ hacts
  | error hacts => rw [bind_of_error hr, bind_of_error hr']; exact .error hacts

theorem note {act act' : Act} (h : act.blank = act'.blank) :
    Oblivious (fun _ _ => True) (modify (·.push act) : Run PUnit) (modify (·.push act')) := by
  intro acts acts' hacts
  refine .ok trivial ?_
  rw [Array.map_push, Array.map_push, hacts, h]

end Oblivious

end Runs

/-! ### Registers -/

namespace Slots

/-- The registers hold things of the same shapes. -/
def Alike (slots slots' : Slots) : Prop := slots.map Slot.shape = slots'.map Slot.shape

variable {slots slots' : Slots}

theorem Alike.size_eq (h : slots.Alike slots') : slots.size = slots'.size := by
  simpa using congrArg Array.size h

theorem Alike.push (h : slots.Alike slots') {slot slot' : Slot} (hs : slot.shape = slot'.shape) :
    Alike (slots.push slot) (slots'.push slot') := by
  rw [Alike, Array.map_push, Array.map_push, show slots.map _ = slots'.map _ from h, hs]

/-- A register is missing in both, or holds a number in both, or a truth value in both. -/
theorem Alike.cases (h : slots.Alike slots') (k : Nat) :
    (slots[k]? = none ∧ slots'[k]? = none) ∨
    (∃ x y, slots[k]? = some (.number x) ∧ slots'[k]? = some (.number y)) ∨
    ∃ b c, slots[k]? = some (.flag b) ∧ slots'[k]? = some (.flag c) := by
  have hk : slots[k]?.map Slot.shape = slots'[k]?.map Slot.shape := by
    rw [← Array.getElem?_map, ← Array.getElem?_map, show slots.map _ = slots'.map _ from h]
  match hs : slots[k]?, hs' : slots'[k]? with
  | none, none => exact .inl ⟨rfl, rfl⟩
  | some (.number x), some (.number y) => exact .inr (.inl ⟨x, y, rfl, rfl⟩)
  | some (.flag b), some (.flag c) => exact .inr (.inr ⟨b, c, rfl, rfl⟩)
  | none, some _ | some _, none => rw [hs, hs'] at hk; cases hk
  | some (.number x), some (.flag c) | some (.flag b), some (.number y) =>
      rw [hs, hs'] at hk
      cases hk

theorem Alike.number (h : slots.Alike slots') (function : String) (r : Reg) :
    Oblivious (fun _ _ => True) (slots.number function r) (slots'.number function r) := by
  unfold Slots.number
  rcases h.cases r.index with ⟨hs, hs'⟩ | ⟨x, y, hs, hs'⟩ | ⟨b, c, hs, hs'⟩
  · rw [hs, hs']; exact .throw _
  · rw [hs, hs']; exact .pure trivial
  · rw [hs, hs']; exact .throw _

theorem Alike.flag (h : slots.Alike slots') (function : String) (r : Reg) :
    Oblivious (fun _ _ => True) (slots.flag function r) (slots'.flag function r) := by
  unfold Slots.flag
  rcases h.cases r.index with ⟨hs, hs'⟩ | ⟨x, y, hs, hs'⟩ | ⟨b, c, hs, hs'⟩
  · rw [hs, hs']; exact .throw _
  · rw [hs, hs']; exact .throw _
  · rw [hs, hs']; exact .pure trivial

/-- As many numbers are read, or the same register is missed first. -/
theorem Alike.numbers (h : slots.Alike slots') (function : String) (rs : List Reg) :
    Oblivious (fun xs ys => xs.length = ys.length) (rs.mapM (slots.number function))
      (rs.mapM (slots'.number function)) := by
  induction rs with
  | nil => exact .pure rfl
  | cons r rs ih =>
      rw [List.mapM_cons, List.mapM_cons]
      refine .bind (h.number function r) fun x y _ => .bind ih fun xs ys hlen => .pure ?_
      rw [List.length_cons, List.length_cons, hlen]

end Slots

/-! ### Code -/

/-- Calls of one function with as many arguments go the same way. -/
def Uniform (call : String → List Float → Run Float) : Prop :=
  ∀ (f : String) (xs ys : List Float), xs.length = ys.length →
    Oblivious (fun _ _ => True) (call f xs) (call f ys)

section Code

variable {call : String → List Float → Run Float} {args args' : List Float}

/-- An instruction leaves what it gives in both runs, if the calls it makes go the same way. -/
theorem Instr.oblivious_run (hcall : Uniform call)
    (hargs : args.length = args'.length) (function : String) {slots slots' : Slots}
    (hs : slots.Alike slots') (i : Instr) :
    Oblivious (fun slot slot' => slot.shape = i.gives ∧ slot'.shape = i.gives)
      (i.run call function args slots) (i.run call function args' slots') := by
  cases i with
  | const v => exact .pure ⟨rfl, rfl⟩
  | param k =>
      rw [Instr.run, Instr.run, hs.size_eq]
      by_cases hk : k < args.length
      · rw [List.getElem?_eq_getElem hk, List.getElem?_eq_getElem (hargs ▸ hk)]
        exact .pure ⟨rfl, rfl⟩
      · rw [List.getElem?_eq_none (Nat.le_of_not_lt hk),
          List.getElem?_eq_none (hargs ▸ Nat.le_of_not_lt hk)]
        exact .throw _
  | arith op l r =>
      exact .bind (hs.number function l) fun _ _ _ => .bind (hs.number function r) fun _ _ _ =>
        .pure ⟨rfl, rfl⟩
  | less l r =>
      exact .bind (hs.number function l) fun _ _ _ => .bind (hs.number function r) fun _ _ _ =>
        .pure ⟨rfl, rfl⟩
  | widen r => exact .bind (hs.flag function r) fun _ _ _ => .pure ⟨rfl, rfl⟩
  | call f rs =>
      exact .bind (hs.numbers function rs) fun xs ys hlen => .bind (hcall f xs ys hlen)
        fun _ _ _ => .pure ⟨rfl, rfl⟩

/-- Code leaves registers of the same shapes. -/
theorem Slots.Alike.runAll (hcall : Uniform call)
    (hargs : args.length = args'.length) (function : String) (code : List Instr)
    {slots slots' : Slots} (hs : slots.Alike slots') :
    Oblivious Slots.Alike (slots.runAll call function args code)
      (slots'.runAll call function args' code) := by
  induction code generalizing slots slots' with
  | nil => exact .pure hs
  | cons i code ih =>
      rw [Slots.runAll_cons, Slots.runAll_cons]
      exact .bind (i.oblivious_run hcall hargs function hs) fun _ _ hslot =>
        ih (hs.push (hslot.1.trans hslot.2.symm))

theorem Body.oblivious_run (hcall : Uniform call)
    (hargs : args.length = args'.length) (function : String) (b : Body) :
    Oblivious (fun _ _ => True) (b.run call function args) (b.run call function args') := by
  rw [Body.run_eq, Body.run_eq]
  have hstart : Slots.Alike #[] #[] := rfl
  exact .bind (hstart.runAll hcall hargs function b.code.toList) fun _ _ hs =>
    hs.number function b.result

end Code

/-- A built-in function takes its arguments or refuses their number, whatever they are. -/
theorem Native.oblivious_run (name : String) {args args' : List Float}
    (hargs : args.length = args'.length) :
    Oblivious (fun _ _ => True) (Native.run name args) (Native.run name args') := by
  have hblank : (Act.native name args).blank = (Act.native name args').blank := by
    rw [Act.blank, Act.blank, List.map_const', List.map_const', hargs]
  unfold Native.run
  cases Native.find? name with
  | none => exact .throw _
  | some native =>
      dsimp only
      rw [hargs]
      split
      · exact .bind (.note hblank) fun _ _ _ => .pure trivial
      · exact .throw _

/-- **Calls of one function with as many arguments go the same way.** -/
theorem Module.oblivious_call (m : Module) (left : Nat) : Uniform (m.call left) := by
  -- on the calls that may still be under way: the arguments differ, their number does not
  induction left with
  | zero => exact fun _ _ _ _ => .throw _
  | succ left ih =>
      intro name args args' hargs
      rw [Module.call, Module.call]
      cases m.find? name with
      | none => exact .throw _
      | some decl =>
          dsimp only
          rw [hargs]
          split
          · cases decl.body with
            | none => exact Native.oblivious_run name hargs
            | some body =>
                exact .bind (.note rfl) fun _ _ _ => body.oblivious_run ih hargs name
          · exact .throw _

/-- **Whether and how an execution fails does not depend on its numbers.**  In whatever module, two
executions of one function with as many arguments both succeed or fail with the same error; they
enter the same functions at the same depths and call the same built-in functions in the same order,
each with as many arguments. -/
theorem Module.execute_oblivious (m : Module) (name : String) (args args' : List Float)
    (hargs : args.length = args'.length) :
    let run := m.execute name args
    let run' := m.execute name args'
    run.failure = run'.failure ∧ run.natives = run'.natives ∧
      run.acts.map Act.blank = run'.acts.map Act.blank := by
  intro run run'
  have hnatives (acts : Array Act) :
      acts.toList.filterMap Act.native? =
        (acts.map Act.blank).toList.filterMap Act.native? := by
    simp [List.filterMap_map, Act.native?_blank]
  have h := m.oblivious_call maxCallDepth name args args' hargs #[] #[] rfl
  simp only [run, run', Module.execute, Execution.natives, Execution.failure]
  generalize m.call maxCallDepth name args #[] = r at h
  generalize m.call maxCallDepth name args' #[] = r' at h
  cases h with
  | ok h hacts => exact ⟨rfl, by rw [hnatives, hacts, ← hnatives], hacts⟩
  | error hacts => exact ⟨rfl, by rw [hnatives, hacts, ← hnatives], hacts⟩

/-- A function that is declared twice, prints its argument and then takes it for a truth value. -/
theorem Module.execute_oblivious_misread :
    let body : Body := ⟨["x"], #[.param 0, .call "printd" [⟨0⟩], .widen ⟨0⟩], ⟨7⟩⟩
    let m : Module := ⟨"odd", [⟨"f", 1, some body⟩, ⟨"printd", 1, none⟩, ⟨"f", 2, none⟩]⟩
    let run := m.execute "f" [1]
    let run' := m.execute "f" [-2]
    (run.failure = some (.invalidOperand ⟨0⟩ "f") ∧ run.natives = ["printd"]) ∧
    run.failure = run'.failure ∧ run.natives = run'.natives ∧
      run.acts.map Act.blank = run'.acts.map Act.blank := by
  intro body m run run'
  exact ⟨⟨rfl, rfl⟩, m.execute_oblivious "f" [1] [-2] rfl⟩

end Reckon
