import Mathlib.Data.List.DropRight
import Mathlib.Data.List.Induction
import Reckon.Proofs.Effect

/-!
# Proofs — History

What a builder holds, told from the calls that were made of it.  The calls may come in any order:
scopes outlive their bodies, handles need not be declared, functions are declared again and
discarded while a body is open.  A log has every call with its answer (`Builder.history`), and the
log alone says

* which functions stand, and in which order (`standing`): those declared and not discarded since,
  where they were declared first;
* with which arity a function is found (`declared?`): that of its last declaration since it was last
  discarded;
* which body is open (`openBody?`): the one begun last, unless a body has been finished since or its
  function discarded, with the code emitted since.

`Recorded.answer` says that one call keeps log and builder in agreement, and
`Builder.records_history` what this means for the answers.
-/

/-! ### Names of a module -/

namespace Reckon.Module

theorem names_replaceFirst {name : String} {f : Decl → Decl} (hf : ∀ d, (f d).name = d.name)
    (ds : List Decl) : (replaceFirst name f ds).map Decl.name = ds.map Decl.name := by
  induction ds with
  | nil => rfl
  | cons d ds ih =>
      rw [replaceFirst]
      split
      · simp [hf]
      · simp [ih]

theorem names_put (d : Decl) (ds : List Decl) :
    (put d ds).map Decl.name =
      if d.name ∈ ds.map Decl.name then ds.map Decl.name else ds.map Decl.name ++ [d.name] := by
  induction ds with
  | nil => rfl
  | cons x xs ih =>
      rw [put]
      by_cases h : x.name = d.name
      · simp [h]
      · have h' : d.name ≠ x.name := Ne.symm h
        simp only [if_neg h, List.map_cons, ih, List.mem_cons, h', false_or]
        split <;> rfl

/-- A function that is found is replaced in its place. -/
theorem exists_replaceFirst {name : String} {ds : List Decl}
    (h : (ds.find? (·.name == name)).isSome = true) (f : Decl → Decl) :
    ∃ before d after, ds = before ++ d :: after ∧ d.name = name ∧
      replaceFirst name f ds = before ++ f d :: after := by
  induction ds with
  | nil => cases h
  | cons d ds ih =>
      by_cases hd : d.name = name
      · exact ⟨[], d, ds, rfl, hd, by simp [replaceFirst, hd]⟩
      · obtain ⟨before, found, after, hds, hname, hreplace⟩ := ih (by simpa [hd] using h)
        refine ⟨d :: before, found, after, by rw [hds]; rfl, hname, ?_⟩
        simp [replaceFirst, hd, hreplace]

end Reckon.Module

namespace Reckon.Builder

/-! ### Calls and answers -/

/-- A call of the builder. -/
inductive Call where
  | declare (name : String) (arity : Nat)
  | lookup (name : String)
  | begin (function : Handle) (params : List String)
  | parameter (scope : Scope) (index : Nat)
  | const (value : Float)
  | arith (op : Arith) (left right : Reg)
  | less (left right : Reg)
  | widen (flag : Reg)
  | call (function : Handle) (args : List Reg)
  | finish (scope : Scope) (result : Reg)
  | discard (function : Handle)

/-- The instruction the call is to emit. -/
def Call.instr? : Call → Option Instr
  | .parameter _ index => some (.param index)
  | .const value => some (.const value)
  | .arith op left right => some (.arith op left right)
  | .less left right => some (.less left right)
  | .widen flag => some (.widen flag)
  | .call function args => some (.call function.name args)
  | _ => none

/-- What a call gives back. -/
inductive Answer where
  | function (h : Handle)
  | found (h : Option Handle)
  | scope (s : Scope)
  | reg (r : Reg)
  | done
  | refused (e : BuildError)

/-- The answer of a call that can be refused. -/
def Answer.ofResult {α : Type} (give : α → Answer) :
    EStateM.Result BuildError Builder α → Answer × Builder
  | .ok a b => (give a, b)
  | .error e b => (.refused e, b)

/-- The answer to a call, and the builder behind it. -/
def answer (b : Builder) : Call → Answer × Builder
  | .declare name arity => (.function (b.declare name arity).1, (b.declare name arity).2)
  | .lookup name => (.found (b.lookup name), b)
  | .begin function params => Answer.ofResult .scope (begin function params b)
  | .parameter scope index => Answer.ofResult .reg (parameter scope index b)
  | .const value => Answer.ofResult .reg (emit (.const value) b)
  | .arith op left right => Answer.ofResult .reg (emit (.arith op left right) b)
  | .less left right => Answer.ofResult .reg (emit (.less left right) b)
  | .widen flag => Answer.ofResult .reg (emit (.widen flag) b)
  | .call function args => Answer.ofResult .reg (emit (.call function.name args) b)
  | .finish scope result => Answer.ofResult .function (finish scope result b)
  | .discard function => (.done, b.discard function)

/-- The builder answers the call so, and is this one afterwards. -/
inductive Answers (b : Builder) : Call → Answer → Builder → Prop
  | declared (name : String) (arity : Nat) :
      Answers b (.declare name arity) (.function ⟨name, arity⟩)
        { b with module := b.module.declare name arity }
  | found (name : String) : Answers b (.lookup name) (.found (b.lookup name)) b
  | begun {function : Handle} {params : List String} (h : b.current = none) :
      Answers b (.begin function params) (.scope ⟨function⟩)
        { b with current := some { function, params } }
  | busy {function : Handle} {params : List String} {body : OpenBody} (h : b.current = some body) :
      Answers b (.begin function params) (.refused (.alreadyBuilding body.function.name)) b
  | emitted {c : Call} {i : Instr} {body : OpenBody} (hc : c.instr? = some i)
      (h : b.current = some body) :
      Answers b c (.reg ⟨body.code.size⟩)
        { b with current := some { body with code := body.code.push i } }
  | withheld {c : Call} {i : Instr} (hc : c.instr? = some i) (h : b.current = none) :
      Answers b c (.refused .noActiveFunction) b
  | beyond {scope : Scope} {index : Nat} (h : scope.function.arity ≤ index) :
      Answers b (.parameter scope index)
        (.refused (.parameterOutOfRange scope.function.name index)) b
  | finished {scope : Scope} {result : Reg} {opened : OpenBody} (h : b.current = some opened)
      (hfind : (b.module.find? scope.function.name).isSome = true) :
      Answers b (.finish scope result) (.function scope.function)
        { module := b.module.define scope.function.name ⟨opened.params, opened.code, result⟩ }
  | unbegun {scope : Scope} {result : Reg} (h : b.current = none) :
      Answers b (.finish scope result) (.refused .noActiveFunction) b
  | unfound {scope : Scope} {result : Reg} {opened : OpenBody} (h : b.current = some opened)
      (hfind : (b.module.find? scope.function.name).isSome = false) :
      Answers b (.finish scope result) (.refused (.invalidFunction scope.function.name))
        { b with current := none }
  | discarded (function : Handle) : Answers b (.discard function) .done (b.discard function)

theorem answers_emit (b : Builder) {c : Call} {i : Instr} (hc : c.instr? = some i) :
    Answers b c (Answer.ofResult .reg (emit i b)).1 (Answer.ofResult .reg (emit i b)).2 := by
  rw [emit]
  cases h : b.current with
  | none => exact .withheld hc h
  | some body => exact .emitted hc h

/-- **What a call can do.** -/
theorem answers (b : Builder) (c : Call) : Answers b c (b.answer c).1 (b.answer c).2 := by
  cases c with
  | declare name arity => exact .declared name arity
  | lookup name => exact .found name
  | begin function params =>
      rw [answer, begin]
      cases h : b.current with
      | none => exact .begun h
      | some body => exact .busy h
  | parameter scope index =>
      rw [answer, parameter]
      split
      · next hindex => exact .beyond hindex
      · exact answers_emit b rfl
  | const value => exact answers_emit b rfl
  | arith op left right => exact answers_emit b rfl
  | less left right => exact answers_emit b rfl
  | widen flag => exact answers_emit b rfl
  | call function args => exact answers_emit b rfl
  | finish scope result =>
      rw [answer, finish]
      cases h : b.current with
      | none => exact .unbegun h
      | some opened =>
          dsimp only
          split
          · next hfind => exact .finished h hfind
          · next hfind => exact .unfound h (Bool.eq_false_iff.mpr hfind)
  | discard function => exact .discarded function

/-! ### Logs -/

/-- A call that was made, and how it was answered. -/
structure Entry where
  call : Call
  answer : Answer

namespace Entry

/-- The arity the function of the name is declared with. -/
def declares? (name : String) (e : Entry) : Option Nat :=
  match e.call with
  | .declare other arity => if other = name then some arity else none
  | _ => none

/-- The function of the name is discarded. -/
def discards (name : String) (e : Entry) : Bool :=
  match e.call with
  | .discard function => function.name == name
  | _ => false

/-- The function a body is begun for, and the names of its parameters. -/
def begins? (e : Entry) : Option (Handle × List String) :=
  match e.call, e.answer with
  | .begin function params, .scope _ => some (function, params)
  | _, _ => none

/-- A body of the function of the name does not stay open: one is to be finished, whichever it is
and whether or not it can be, or the function is discarded. -/
def closes (name : String) (e : Entry) : Bool :=
  match e.call with
  | .finish _ _ => true
  | .discard function => function.name == name
  | _ => false

/-- The instruction that is emitted, and its register. -/
def emits? (e : Entry) : Option (Instr × Reg) :=
  match e.call.instr?, e.answer with
  | some i, .reg r => some (i, r)
  | _, _ => none

end Entry

/-- What was logged behind the last entry with the property, or all if there is none. -/
def since (p : Entry → Bool) (log : List Entry) : List Entry := log.rtakeWhile (!p ·)

/-- What is found under the name: the last declaration since the function was last discarded. -/
def declared? (name : String) (log : List Entry) : Option Handle :=
  ((since (Entry.discards name) log).filterMap (Entry.declares? name)).getLast?.map (⟨name, ·⟩)

/-- The names declared and not discarded since, each where it was declared first. -/
def standing : List Entry → List String
  | [] => []
  | ⟨.declare name _, _⟩ :: later =>
    if later.any (Entry.discards name) then standing later
    else name :: (standing later).filter (· != name)
  | _ :: later => standing later

/-- The function the last body was begun for, and the names of its parameters. -/
def begun? (log : List Entry) : Option (Handle × List String) :=
  log.reverse.findSome? Entry.begins?

/-- What was logged since a body was last begun. -/
def sinceBegun (log : List Entry) : List Entry := since (·.begins?.isSome) log

/-- The instructions emitted since a body was last begun, and their registers. -/
def emissions (log : List Entry) : List (Instr × Reg) := (sinceBegun log).filterMap Entry.emits?

/-- The code emitted since a body was last begun. -/
def emitted (log : List Entry) : List Instr := (emissions log).map Prod.fst

/-- The open body: the one begun last, unless it has been finished since or its function
discarded. -/
def openBody? (log : List Entry) : Option OpenBody :=
  (begun? log).bind fun begun =>
    if (sinceBegun log).any (Entry.closes begun.1.name) then none
    else some ⟨begun.1, begun.2, (emitted log).toArray⟩

/-- One call more. -/
def perform (state : List Entry × Builder) (c : Call) : List Entry × Builder :=
  (state.1 ++ [⟨c, (state.2.answer c).1⟩], (state.2.answer c).2)

/-- The log of the calls, made of a fresh builder, and the builder behind them. -/
def history (name : String) (calls : List Call) : List Entry × Builder :=
  calls.foldl perform ([], empty name)

/-! ### One entry more -/

theorem since_concat (p : Entry → Bool) (log : List Entry) (e : Entry) :
    since p (log ++ [e]) = if p e then [] else since p log ++ [e] := by
  rw [since, List.rtakeWhile_concat]
  cases p e with
  | true => rfl
  | false => rfl

theorem declared?_concat (name : String) (log : List Entry) (e : Entry) :
    declared? name (log ++ [e]) =
      if e.discards name then none
      else match e.declares? name with
        | some arity => some ⟨name, arity⟩
        | none => declared? name log := by
  rw [declared?, since_concat]
  cases e.discards name with
  | true => rfl
  | false =>
      cases h : e.declares? name with
      | some arity => simp [h]
      | none => simp [h, declared?]

theorem begun?_concat (log : List Entry) (e : Entry) :
    begun? (log ++ [e]) = e.begins?.or (begun? log) := by
  rw [begun?, List.reverse_append]
  cases h : e.begins? with
  | none => simp [h, begun?]
  | some begun => simp [h]

theorem sinceBegun_concat {e : Entry} (h : e.begins? = none) (log : List Entry) :
    sinceBegun (log ++ [e]) = sinceBegun log ++ [e] := by
  rw [sinceBegun, since_concat, h]
  rfl

theorem sinceBegun_concat_begin {e : Entry} (h : e.begins?.isSome = true) (log : List Entry) :
    sinceBegun (log ++ [e]) = [] := by
  rw [sinceBegun, since_concat, if_pos h]

theorem emissions_concat {e : Entry} (h : e.begins? = none) (log : List Entry) :
    emissions (log ++ [e]) = emissions log ++ e.emits?.toList := by
  rw [emissions, sinceBegun_concat h, List.filterMap_append]
  cases he : e.emits? with
  | none => simp [he, emissions]
  | some emission => simp [he, emissions]

/-- A body that is begun is open. -/
theorem openBody?_concat_begin {e : Entry} {function : Handle} {params : List String}
    (h : e.begins? = some (function, params)) (log : List Entry) :
    openBody? (log ++ [e]) = some { function, params } := by
  have hsince := sinceBegun_concat_begin (Option.isSome_of_eq_some h) log
  rw [openBody?, begun?_concat, h, emitted, emissions, hsince]
  rfl

/-- Any other entry leaves no body open that was not, and adds what it emits. -/
theorem openBody?_concat {e : Entry} (h : e.begins? = none) (log : List Entry) :
    openBody? (log ++ [e]) = (openBody? log).bind fun body =>
      if e.closes body.function.name then none
      else some { body with code := body.code ++ (e.emits?.map Prod.fst).toList } := by
  rw [openBody?, openBody?, begun?_concat, h, Option.none_or, sinceBegun_concat h, emitted,
    emissions_concat h]
  cases begun? log with
  | none => rfl
  | some begun =>
      simp only [Option.bind_some, List.any_append, List.any_cons, List.any_nil, Bool.or_false]
      cases (sinceBegun log).any (Entry.closes begun.1.name) with
      | true => simp
      | false => cases e.emits? <;> simp [emitted]

theorem openBody?_eq_some {log : List Entry} {body : OpenBody} (h : openBody? log = some body) :
    begun? log = some (body.function, body.params) ∧ body.code = (emitted log).toArray := by
  obtain ⟨⟨function, params⟩, hbegun, hbody⟩ := Option.bind_eq_some_iff.mp h
  by_cases hclosed : (sinceBegun log).any (Entry.closes function.name) = true
  · simp [hclosed] at hbody
  · rw [if_neg hclosed] at hbody
    obtain rfl := Option.some.inj hbody
    exact ⟨hbegun, rfl⟩

/-- The entry is about what is in the open body alone. -/
structure Entry.Inner (e : Entry) : Prop where
  begins : e.begins? = none
  closes (name : String) : e.closes name = false
  declares (name : String) : e.declares? name = none
  discards (name : String) : e.discards name = false

theorem Entry.inner_of_instr {c : Call} {i : Instr} (hc : c.instr? = some i) (a : Answer) :
    Entry.Inner ⟨c, a⟩ := by
  cases c with
  | parameter | const | arith | less | widen | call =>
      exact ⟨rfl, fun _ => rfl, fun _ => rfl, fun _ => rfl⟩
  | _ => cases hc

/-! ### The names that stand -/

/-- A name that is declared again keeps its place, and a new one comes behind all others. -/
theorem standing_concat_declare (log : List Entry) (name : String) (arity : Nat) (a : Answer) :
    standing (log ++ [⟨.declare name arity, a⟩]) =
      if name ∈ standing log then standing log else standing log ++ [name] := by
  have hdiscards (other : String) : Entry.discards other ⟨.declare name arity, a⟩ = false := rfl
  fun_induction standing log with
  | case1 => simp [standing]
  | case2 other _ _ later hlater ih => simp [standing, hlater, ih]
  | case3 other _ _ later hlater ih =>
      simp only [List.cons_append, standing, List.any_append, List.any_cons, List.any_nil,
        hdiscards, hlater, ih]
      -- behind a first declaration of the name, every later one is dropped
      by_cases hname : name = other
      · subst hname
        by_cases hmem : name ∈ standing later
        · simp [hmem]
        · simp [hmem, List.filter_append]
      · by_cases hmem : name ∈ standing later
        · simp [hname, hmem]
        · simp [hname, hmem, List.filter_append]
  | case4 e later he ih => simp [standing, ih]

theorem standing_concat_discard (log : List Entry) (function : Handle) (a : Answer) :
    standing (log ++ [⟨.discard function, a⟩]) =
      (standing log).filter (· != function.name) := by
  have hdiscards (other : String) :
      Entry.discards other ⟨.discard function, a⟩ = (function.name == other) := rfl
  fun_induction standing log with
  | case1 => simp [standing]
  | case2 other _ _ later hlater ih => simp [standing, hlater, ih]
  | case3 other _ _ later hlater ih =>
      simp only [List.cons_append, standing, List.any_append, List.any_cons, List.any_nil,
        hdiscards, hlater, ih]
      by_cases hname : function.name = other
      · simp [hname]
      · have hname' : other ≠ function.name := Ne.symm hname
        simp [hname, hname', List.filter_filter, Bool.and_comm]
  | case4 e later he ih => simp [standing, ih]

/-- An entry that neither declares nor discards leaves the names as they are. -/
theorem standing_concat {e : Entry} (hdeclares : ∀ name, e.declares? name = none)
    (hdiscards : ∀ name, e.discards name = false) (log : List Entry) :
    standing (log ++ [e]) = standing log := by
  fun_induction standing log with
  | case1 =>
      obtain ⟨c, a⟩ := e
      cases c with
      | declare name arity => simpa [Entry.declares?] using hdeclares name
      | _ => rfl
  | case2 other _ _ later hlater ih => simp [standing, hlater, ih]
  | case3 other _ _ later hlater ih => simp [standing, hlater, hdiscards, ih]
  | case4 e' later he ih => simp [standing, ih]

theorem nodup_standing (log : List Entry) : (standing log).Nodup := by
  fun_induction standing log with
  | case1 => exact .nil
  | case2 name _ _ later hlater ih => exact ih
  | case3 name _ _ later hlater ih => exact List.nodup_cons.mpr ⟨by simp, ih.filter _⟩
  | case4 e later he ih => exact ih

/-! ### The module -/

/-- The module lists the functions that stand, each as it was last declared. -/
structure Lists (log : List Entry) (m : Module) : Prop where
  names : m.functions.map Decl.name = standing log
  handle (name : String) : (m.find? name).map Decl.handle = declared? name log

namespace Lists

variable {log : List Entry} {m : Module}

theorem declare (h : Lists log m) (name : String) (arity : Nat) (a : Answer) :
    Lists (log ++ [⟨.declare name arity, a⟩]) (m.declare name arity) where
  names := by
    rw [standing_concat_declare, ← h.names, Module.functions_declare]
    exact Module.names_put _ _
  handle other := by
    rw [declared?_concat, Module.find?_declare, ← h.handle]
    by_cases hname : other = name
    · simp [hname, Entry.discards, Entry.declares?, Decl.handle]
    · simp [hname, Ne.symm hname, Entry.discards, Entry.declares?]

theorem remove (h : Lists log m) (function : Handle) (a : Answer) :
    Lists (log ++ [⟨.discard function, a⟩]) (m.remove function.name) where
  names := by
    rw [standing_concat_discard, ← h.names, List.filter_map]
    rfl
  handle other := by
    rw [declared?_concat, Module.find?_remove, ← h.handle]
    by_cases hname : other = function.name
    · simp [hname, Entry.discards]
    · simp [hname, Ne.symm hname, Entry.discards, Entry.declares?]

/-- An entry that neither declares nor discards says nothing new of the module. -/
theorem concat (h : Lists log m) {e : Entry} (hdeclares : ∀ name, e.declares? name = none)
    (hdiscards : ∀ name, e.discards name = false) : Lists (log ++ [e]) m where
  names := by rw [standing_concat hdeclares hdiscards, h.names]
  handle name := by
    rw [declared?_concat, hdiscards, hdeclares, h.handle]
    rfl

/-- A body changes neither the names nor the arities. -/
theorem define (h : Lists log m) (name : String) (body : Body) :
    Lists log (m.define name body) where
  names := by
    rw [← h.names]
    exact Module.names_replaceFirst (f := fun d => { d with body := some body }) (fun _ => rfl) _
  handle other := by
    rw [← h.handle, Module.find?_define]
    split
    · next hname =>
        subst hname
        rw [Option.map_map]
        rfl
    · rfl

end Lists

/-! ### The open body -/

/-- The open body is the one the log says, and the instructions since it was begun, if one was, have
the registers from zero on. -/
structure Holds (log : List Entry) (current : Option OpenBody) : Prop where
  current_eq : current = openBody? log
  registers : (emissions log).map Prod.snd = (List.range (emissions log).length).map Reg.mk

namespace Holds

variable {log : List Entry} {current : Option OpenBody}

/-- Where a body is begun, none has been emitted into. -/
theorem begin {e : Entry} {function : Handle} {params : List String}
    (he : e.begins? = some (function, params)) :
    Holds (log ++ [e]) (some { function, params }) where
  current_eq := (openBody?_concat_begin he log).symm
  registers := by
    rw [emissions, sinceBegun_concat_begin (Option.isSome_of_eq_some he)]
    rfl

/-- An entry that emits nothing can only close the body. -/
theorem concat (h : Holds log current) {e : Entry} (hbegins : e.begins? = none)
    (hemits : e.emits? = none) :
    Holds (log ++ [e]) (current.filter fun body => !e.closes body.function.name) where
  current_eq := by
    rw [openBody?_concat hbegins, hemits, h.current_eq]
    cases openBody? log with
    | none => rfl
    | some body => cases hcloses : e.closes body.function.name <;> simp [Option.filter, hcloses]
  registers := by
    rw [emissions_concat hbegins, hemits, Option.toList_none, List.append_nil]
    exact h.registers

/-- An entry that does not close the body either leaves it as it is. -/
theorem keep (h : Holds log current) {e : Entry} (hbegins : e.begins? = none)
    (hemits : e.emits? = none) (hcloses : ∀ name, e.closes name = false) :
    Holds (log ++ [e]) current := by
  have hconcat := h.concat hbegins hemits
  simp only [hcloses] at hconcat
  cases current with
  | none => exact hconcat
  | some body => exact hconcat

/-- After a call to finish a body none is open. -/
theorem finish (h : Holds log current) {scope : Scope} {result : Reg} {a : Answer}
    (hbegins : Entry.begins? ⟨.finish scope result, a⟩ = none)
    (hemits : Entry.emits? ⟨.finish scope result, a⟩ = none) :
    Holds (log ++ [⟨.finish scope result, a⟩]) none := by
  have hconcat := h.concat hbegins hemits
  cases current with
  | none => exact hconcat
  | some body => exact hconcat

/-- An instruction that is emitted goes behind those before it, and has their number. -/
theorem emit {body : OpenBody} (h : Holds log (some body)) {c : Call} {i : Instr}
    (hc : c.instr? = some i) :
    Holds (log ++ [⟨c, .reg ⟨body.code.size⟩⟩]) (some { body with code := body.code.push i }) := by
  have hinner := Entry.inner_of_instr hc (.reg ⟨body.code.size⟩)
  have hemits : Entry.emits? ⟨c, .reg ⟨body.code.size⟩⟩ = some (i, ⟨body.code.size⟩) := by
    simp [Entry.emits?, hc]
  have hsize : body.code.size = (emissions log).length := by
    rw [(openBody?_eq_some h.current_eq.symm).2]
    simp [emitted]
  refine ⟨?_, ?_⟩
  · rw [openBody?_concat hinner.begins, ← h.current_eq, hemits]
    simp [hinner.closes]
  · rw [emissions_concat hinner.begins, hemits, Option.toList_some, List.map_append, h.registers,
      List.length_append, List.length_singleton, List.range_succ, List.map_append, hsize]
    rfl

end Holds

/-! ### Log and builder -/

/-- The builder holds what the log says. -/
structure Recorded (log : List Entry) (b : Builder) : Prop where
  lists : Lists log b.module
  holds : Holds log b.current

theorem recorded_empty (name : String) : Recorded [] (empty name) :=
  ⟨⟨rfl, fun _ => rfl⟩, ⟨rfl, rfl⟩⟩

/-- **A call keeps the log and the builder in agreement.** -/
theorem Recorded.answer {log : List Entry} {b : Builder} (h : Recorded log b) (c : Call) :
    Recorded (log ++ [⟨c, (b.answer c).1⟩]) (b.answer c).2 := by
  obtain ⟨hlists, hholds⟩ := h
  have hanswers := answers b c
  generalize (b.answer c).1 = a at hanswers ⊢
  generalize (b.answer c).2 = b' at hanswers ⊢
  cases hanswers with
  | declared name arity =>
      exact ⟨hlists.declare name arity _, hholds.keep rfl rfl fun _ => rfl⟩
  | found name =>
      exact ⟨hlists.concat (fun _ => rfl) (fun _ => rfl), hholds.keep rfl rfl fun _ => rfl⟩
  | begun hnone =>
      exact ⟨hlists.concat (fun _ => rfl) (fun _ => rfl), .begin rfl⟩
  | busy hbody =>
      exact ⟨hlists.concat (fun _ => rfl) (fun _ => rfl), hholds.keep rfl rfl fun _ => rfl⟩
  | @emitted c i body hc hbody =>
      have hinner := Entry.inner_of_instr hc (.reg ⟨body.code.size⟩)
      rw [hbody] at hholds
      exact ⟨hlists.concat hinner.declares hinner.discards, hholds.emit hc⟩
  | withheld hc hnone =>
      have hinner := Entry.inner_of_instr hc (.refused .noActiveFunction)
      have hemits : Entry.emits? ⟨c, .refused .noActiveFunction⟩ = none := by simp [Entry.emits?]
      exact ⟨hlists.concat hinner.declares hinner.discards,
        hholds.keep hinner.begins hemits hinner.closes⟩
  | beyond hindex =>
      exact ⟨hlists.concat (fun _ => rfl) (fun _ => rfl), hholds.keep rfl rfl fun _ => rfl⟩
  | finished hopened hfind =>
      exact ⟨(hlists.define _ _).concat (fun _ => rfl) (fun _ => rfl), hholds.finish rfl rfl⟩
  | unbegun hnone =>
      refine ⟨hlists.concat (fun _ => rfl) (fun _ => rfl), ?_⟩
      rw [hnone]
      exact hholds.finish rfl rfl
  | unfound hopened hfind =>
      exact ⟨hlists.concat (fun _ => rfl) (fun _ => rfl), hholds.finish rfl rfl⟩
  | discarded function =>
      have hconcat := hholds.concat (e := ⟨.discard function, .done⟩) rfl rfl
      refine ⟨hlists.remove function _, ?_⟩
      simpa [Builder.discard, Entry.closes, bne, BEq.comm] using hconcat

/-- The log of any calls says what the builder holds. -/
theorem recorded_history (name : String) (calls : List Call) :
    Recorded (history name calls).1 (history name calls).2 := by
  induction calls using List.reverseRecOn with
  | nil => exact recorded_empty name
  | append_singleton calls c ih =>
      rw [history, List.foldl_append]
      exact ih.answer c

/-! ### What is answered -/

/-- A body is begun if and only if none is open. -/
theorem begin_ok_iff (b : Builder) (function : Handle) (params : List String) :
    (∃ scope b', begin function params b = .ok scope b') ↔ b.current = none := by
  rw [begin]
  cases b.current with
  | none => exact iff_of_true ⟨_, _, rfl⟩ rfl
  | some body => exact iff_of_false (by simp) (Option.some_ne_none body)

/-- A body is finished only if one is open and the function is found. -/
theorem finish_eq_ok {b b' : Builder} {scope : Scope} {result : Reg} {function : Handle}
    (h : finish scope result b = .ok function b') :
    function = scope.function ∧ (b.module.find? scope.function.name).isSome = true ∧
      ∃ opened, b.current = some opened ∧
        b'.module = b.module.define scope.function.name ⟨opened.params, opened.code, result⟩ := by
  have hanswers := answers b (.finish scope result)
  rw [answer, h] at hanswers
  cases hanswers with
  | finished hopened hfind => exact ⟨rfl, hfind, _, hopened, rfl⟩

/-- **A builder records what was emitted, whatever calls were made of it.**  No two functions of the
module have one name, and they stand in the order in which they were declared; a function is found
with the arity of its last declaration since it was last discarded, and not at all if there is none.
A body can be begun if and only if none is open.  The instructions emitted since a body was last
begun have the registers from zero on.  And when a body is finished, the function of the scope gets
the parameters of the body begun last and the instructions emitted since, in their order, and
everything else in the module stays as it is. -/
theorem records_history (name : String) (calls : List Call) :
    let log := (history name calls).1
    let b := (history name calls).2
    ((b.module.functions.map Decl.name).Nodup ∧
      b.module.functions.map Decl.name = standing log ∧
      ∀ n, b.lookup n = declared? n log) ∧
    (∀ function params, (∃ scope b', begin function params b = .ok scope b') ↔
      openBody? log = none) ∧
    (emissions log).map Prod.snd = (List.range (emissions log).length).map Reg.mk ∧
    ∀ scope result function b', finish scope result b = .ok function b' →
      function = scope.function ∧
      ∃ begunFor params before d after, begun? log = some (begunFor, params) ∧
        b.module.functions = before ++ d :: after ∧ d.name = scope.function.name ∧
        b'.module.functions =
          before ++ { d with body := some ⟨params, (emitted log).toArray, result⟩ } :: after := by
  intro log b
  obtain ⟨⟨hnames, hhandle⟩, hcurrent, hregisters⟩ : Recorded log b := recorded_history name calls
  refine ⟨⟨hnames ▸ nodup_standing log, hnames, hhandle⟩, fun function params => ?_, hregisters,
    fun scope result function b' hfinish => ?_⟩
  · rw [begin_ok_iff, hcurrent]
  · obtain ⟨hfunction, hfind, opened, hopened, hmodule⟩ := finish_eq_ok hfinish
    obtain ⟨hbegun, hcode⟩ := openBody?_eq_some (hcurrent.symm.trans hopened)
    rw [hcode] at hmodule
    obtain ⟨before, d, after, hbefore, hd, hafter⟩ := Module.exists_replaceFirst hfind
      fun d => { d with body := some ⟨opened.params, (emitted log).toArray, result⟩ }
    refine ⟨hfunction, opened.function, opened.params, before, d, after, hbegun, hbefore, hd, ?_⟩
    rw [hmodule]
    exact hafter

/-- A body begun for one function and finished for another, which was discarded and declared again
while the body was open. -/
theorem records_history_discarded :
    let f : Handle := ⟨"f", 1⟩
    let g : Handle := ⟨"g", 0⟩
    let calls : List Call := [.declare "f" 1, .declare "g" 0, .begin f ["x"], .parameter ⟨f⟩ 0,
      .begin g [], .discard g, .declare "h" 2, .declare "g" 3, .arith .add ⟨0⟩ ⟨0⟩]
    let b := (history "m" calls).2
    b.module.functions.map Decl.name = ["f", "h", "g"] ∧ b.lookup "g" = some ⟨"g", 3⟩ ∧
    ∃ b', finish ⟨g⟩ ⟨1⟩ b = .ok g b' ∧
      ∃ before d after, b.module.functions = before ++ d :: after ∧ d.name = "g" ∧
        b'.module.functions =
          before ++ { d with body := some ⟨["x"], #[.param 0, .arith .add ⟨0⟩ ⟨0⟩], ⟨1⟩⟩ } ::
            after := by
  intro f g calls b
  obtain ⟨⟨-, hnames, hlookup⟩, -, -, hfinish⟩ := records_history "m" calls
  obtain ⟨b', hb'⟩ : ∃ b', finish ⟨g⟩ ⟨1⟩ b = .ok g b' := ⟨_, rfl⟩
  refine ⟨hnames.trans (by decide +kernel), (hlookup "g").trans (by decide +kernel), b', hb', ?_⟩
  obtain ⟨-, begunFor, params, before, d, after, hbegun, hfunctions⟩ := hfinish ⟨g⟩ ⟨1⟩ g b' hb'
  obtain rfl : ["x"] = params := congrArg Prod.snd (Option.some.inj hbegun)
  have hemitted : emitted (history "m" calls).1 = [.param 0, .arith .add ⟨0⟩ ⟨0⟩] := by
    decide +kernel
  rw [hemitted] at hfunctions
  exact ⟨before, d, after, hfunctions⟩

end Reckon.Builder
