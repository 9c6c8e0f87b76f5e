import Mathlib.Data.List.Chain
import Reckon.Proofs.Linking
import Reckon.Proofs.Locality

/-!
# Proofs — Chains

When an execution succeeds.  There are no branches, so whatever a body can call it does call, and
whether a call succeeds depends on nothing but its callee, the number of its arguments and how many
more calls may be under way.  A call is *sound* (`Module.Sound`) when it is answered, and all calls
of its callee are sound with one call less to be under way.  In a module of well-formed bodies the
calls that succeed are the sound ones (`Module.Sound.confined_call`, `Module.sound_of_call`).

* `Module.sound_iff`: a call is sound if all chains of calls from it are answered and none is too
  long.
* `Module.not_sound_of_cycle`: no call is sound that leads to a function which leads to itself.
* `execute_ok_iff_chains`: when an execution succeeds, in every module commands lead to.
-/

namespace Reckon

/-! ### Chains of calls -/

/-- A call, by its callee and the number of its arguments. -/
structure Call where
  callee : String
  count : Nat

namespace Module

variable {m : Module}

/-- The body of the function has the call in it. -/
def Issues (m : Module) (caller : String) (c : Call) : Prop :=
  ∃ d body operands, m.find? caller = some d ∧ d.body = some body ∧
    .call c.callee operands ∈ body.code ∧ operands.length = c.count

/-- The call finds a declared function with as many parameters as there are arguments; one without a
body stands for a built-in function with as many. -/
def Answers (m : Module) (c : Call) : Prop :=
  ∃ d, m.find? c.callee = some d ∧ d.arity = c.count ∧
    (d.body = none → ∃ native, Native.find? c.callee = some native ∧ native.arity = c.count)

/-- Each of the calls but the first is in the body of the callee of the one before. -/
abbrev Chain (m : Module) (calls : List Call) : Prop :=
  calls.IsChain fun c c' => m.Issues c.callee c'

/-- The call is answered, and so are those its callee makes, when no more than so many calls may be
under way. -/
def Sound (m : Module) : Nat → Call → Prop
  | 0, _ => False
  | left + 1, c => m.Answers c ∧ ∀ c', m.Issues c.callee c' → m.Sound left c'

/-- **A call is sound if every chain from it is answered and short enough.** -/
theorem sound_iff (left : Nat) (c : Call) :
    m.Sound left c ↔ ∀ rest, m.Chain (c :: rest) →
      (∀ c' ∈ c :: rest, m.Answers c') ∧ (c :: rest).length ≤ left := by
  -- on the calls that may be under way: a chain is its first call and a chain from the second
  induction left generalizing c with
  | zero =>
      constructor
      · exact False.elim
      · intro h
        exact absurd (h [] (.singleton c)).2 (by simp)
  | succ left ih =>
      constructor
      · rintro ⟨hc, hbelow⟩ rest hchain
        cases rest with
        | nil => exact ⟨by simpa using hc, by simp⟩
        | cons c' rest =>
            obtain ⟨hissues, hrest⟩ := List.isChain_cons_cons.mp hchain
            obtain ⟨hanswers, hlength⟩ := (ih c').mp (hbelow c' hissues) rest hrest
            exact ⟨List.forall_mem_cons.mpr ⟨hc, hanswers⟩, Nat.succ_le_succ hlength⟩
      · intro h
        refine ⟨(h [] (.singleton c)).1 c List.mem_cons_self, fun c' hissues => (ih c').mpr ?_⟩
        intro rest hrest
        obtain ⟨hanswers, hlength⟩ := h (c' :: rest) (.cons_cons hissues hrest)
        exact ⟨fun x hx => hanswers x (List.mem_cons_of_mem _ hx), Nat.le_of_succ_le_succ hlength⟩

theorem Calls.issues {caller callee : String} (h : m.Calls caller callee) :
    ∃ count, m.Issues caller ⟨callee, count⟩ := by
  obtain ⟨d, body, operands, hd, hbody, hcall⟩ := h
  exact ⟨operands.length, d, body, operands, hd, hbody, hcall, rfl⟩

/-- **No call is sound that leads to a cycle**: its callee calls a function that leads there too. -/
theorem not_sound_of_cycle {left : Nat} {name other : String} {count : Nat}
    (hreaches : m.Reaches name other) (hcycle : Relation.TransGen m.Calls other other) :
    ¬ m.Sound left ⟨name, count⟩ := by
  induction left generalizing name count with
  | zero => exact id
  | succ left ih =>
      rintro ⟨-, hbelow⟩
      obtain ⟨callee, hcall, hon⟩ : ∃ callee, m.Calls name callee ∧ m.Reaches callee other := by
        rcases hreaches.cases_head with rfl | hstep
        · exact Relation.TransGen.head'_iff.mp hcycle
        · exact hstep
      obtain ⟨n, hissues⟩ := hcall.issues
      exact ih hon (hbelow _ hissues)

end Module

/-! ### What a successful run has called -/

section Runs

variable {call : String → List Float → Run Float} {function : String} {args : List Float}
  {f : String} {operands : List Reg} {acts acts' : Array Act}

/-- A call that is run and succeeds has been given as many numbers as it has operands. -/
theorem Instr.call_of_ok {slots : Slots} {slot : Slot}
    (h : (Instr.call f operands).run call function args slots acts = .ok slot acts') :
    ∃ xs acts₁ x acts₂, xs.length = operands.length ∧ call f xs acts₁ = .ok x acts₂ := by
  rw [Instr.run] at h
  obtain ⟨xs, acts₁, hread, h⟩ := bind_eq_ok h
  obtain ⟨x, acts₂, hcall, -⟩ := bind_eq_ok h
  have hnumbers : Confined (fun _ => True) (operands.mapM (slots.number function))
      fun xs => xs.length = operands.length :=
    slots.confined_numbers (fun _ _ => trivial) function operands
  have hlength := hnumbers acts
  rw [hread] at hlength
  exact ⟨xs, acts₁, x, acts₂, hlength, hcall⟩

theorem Slots.call_of_ok {code : List Instr} {slots slots' : Slots}
    (h : slots.runAll call function args code acts = .ok slots' acts')
    (hf : .call f operands ∈ code) :
    ∃ xs acts₁ x acts₂, xs.length = operands.length ∧ call f xs acts₁ = .ok x acts₂ := by
  induction code generalizing slots acts with
  | nil => cases hf
  | cons i code ih =>
      rw [Slots.runAll_cons] at h
      obtain ⟨slot, acts₁, hi, hrest⟩ := bind_eq_ok h
      rcases List.mem_cons.mp hf with rfl | hf
      · exact Instr.call_of_ok hi
      · exact ih hrest hf

/-- A body that is run to its end has made all its calls, and each succeeded. -/
theorem Body.call_of_ok {body : Body} {x : Float}
    (h : body.run call function args acts = .ok x acts') (hf : .call f operands ∈ body.code) :
    ∃ xs acts₁ x acts₂, xs.length = operands.length ∧ call f xs acts₁ = .ok x acts₂ := by
  rw [Body.run_eq] at h
  obtain ⟨slots, acts₁, hcode, -⟩ := bind_eq_ok h
  exact Slots.call_of_ok hcode (by simpa using hf)

end Runs

/-! ### Calls that succeed are the sound ones -/

theorem Native.arity_of_ok {name : String} {args : List Float} {acts acts' : Array Act} {x : Float}
    (h : Native.run name args acts = .ok x acts') :
    ∃ native, Native.find? name = some native ∧ native.arity = args.length := by
  cases hn : Native.find? name with
  | none => simp only [Native.run, hn] at h; cases h
  | some native =>
      refine ⟨native, rfl, ?_⟩
      by_contra hne
      simp only [Native.run, hn, if_neg hne] at h
      cases h

namespace Module

variable {m : Module}

/-- A call that succeeds is sound. -/
theorem sound_of_call {left : Nat} {name : String} {args : List Float} {acts acts' : Array Act}
    {x : Float} (h : m.call left name args acts = .ok x acts') :
    m.Sound left ⟨name, args.length⟩ := by
  induction left generalizing name args acts x acts' with
  | zero => cases h
  | succ left ih =>
      rw [Module.call] at h
      cases hd : m.find? name with
      | none => simp only [hd] at h; cases h
      | some d =>
          by_cases ha : d.arity = args.length
          · simp only [hd, if_pos ha] at h
            cases hbody : d.body with
            | none =>
                simp only [hbody] at h
                refine ⟨⟨d, hd, ha, fun _ => Native.arity_of_ok h⟩, ?_⟩
                rintro c ⟨d', body, operands, hd', hbody', -⟩
                cases hd.symm.trans hd'
                cases hbody.symm.trans hbody'
            | some body =>
                simp only [hbody] at h
                obtain ⟨-, acts₁, -, hrun⟩ := bind_eq_ok h
                refine ⟨⟨d, hd, ha, fun hnone => by cases hbody.symm.trans hnone⟩, ?_⟩
                rintro ⟨f, count⟩ ⟨d', body', operands, hd', hbody', hcall, rfl⟩
                cases hd.symm.trans hd'
                cases hbody.symm.trans hbody'
                obtain ⟨xs, acts₂, y, acts₃, hlength, hok⟩ := Body.call_of_ok hrun hcall
                exact hlength ▸ ih hok
          · simp only [hd, if_neg ha] at h
            cases h

/-- A sound call succeeds, whatever its arguments are. -/
theorem Sound.confined_call (hm : m.WellFormed) {left : Nat} {c : Call} (h : m.Sound left c)
    {args : List Float} (hargs : args.length = c.count) :
    Confined (fun _ => False) (m.call left c.callee args) fun _ => True := by
  induction left generalizing c args with
  | zero => exact h.elim
  | succ left ih =>
      obtain ⟨⟨d, hd, harity, hnative⟩, hbelow⟩ := h
      have ha : d.arity = args.length := harity.trans hargs.symm
      rw [Module.call, hd]
      dsimp only
      rw [if_pos ha]
      cases hbody : d.body with
      | none =>
          obtain ⟨native, hn, hcount⟩ := hnative hbody
          simp only [Native.run, hn, if_pos (hcount.trans hargs.symm)]
          exact .bind (.note _) fun _ _ => .pure trivial
      | some body =>
          have hwell := hm d (List.mem_of_find?_eq_some hd) body hbody
          refine .bind (.note _) fun _ _ => hwell.safe_run ha ?_ c.callee
          intro f operands xs hcall hxs
          exact ih (hbelow ⟨f, operands.length⟩ ⟨d, body, operands, hd, hbody, hcall, rfl⟩) hxs

/-- An execution succeeds if the call of its function is sound. -/
theorem execute_ok_iff (hm : m.WellFormed) (name : String) (args : List Float) :
    (∃ x, (m.execute name args).result = .ok x) ↔ m.Sound maxCallDepth ⟨name, args.length⟩ := by
  rw [execute]
  constructor
  · rintro ⟨x, hx⟩
    cases hcall : m.call maxCallDepth name args #[] with
    | ok y acts => exact sound_of_call hcall
    | error e acts => rw [hcall] at hx; cases hx
  · intro h
    have hrun := h.confined_call hm rfl #[]
    cases hcall : m.call maxCallDepth name args #[] with
    | ok x acts => exact ⟨x, rfl⟩
    | error e acts => rw [hcall] at hrun; exact hrun.elim

end Module

/-- **When an execution succeeds.**  In every module commands lead to, executing a function succeeds
if and only if every chain of calls that begins with it, through whatever calls stand in the bodies
on the way, is answered and not too long: each callee is declared with as many parameters as the
call has operands (the first one, as there are arguments), each callee without a body stands for a
built-in function with as many, and no more calls are under way at once than may be.  So nothing is
ever computed by a function from which calls lead to one that leads to itself. -/
theorem execute_ok_iff_chains (moduleName : String) (commands : List Command) (name : String)
    (args : List Float) :
    let m := (Command.runAll moduleName commands).1.builder.module
    ((∃ x, (m.execute name args).result = .ok x) ↔
      ∀ rest, m.Chain (⟨name, args.length⟩ :: rest) →
        (∀ c ∈ ⟨name, args.length⟩ :: rest, m.Answers c) ∧
        (⟨name, args.length⟩ :: rest).length ≤ maxCallDepth) ∧
    ∀ other, m.Reaches name other → Relation.TransGen m.Calls other other →
      ∀ x, (m.execute name args).result ≠ .ok x := by
  intro m
  have hm : m.WellFormed := wellFormed_runAll moduleName commands
  have hiff := Module.execute_ok_iff hm name args
  refine ⟨hiff.trans (Module.sound_iff _ _), fun other hreaches hcycle x hx => ?_⟩
  exact Module.not_sound_of_cycle hreaches hcycle (hiff.mp ⟨x, hx⟩)

/-- A function whose one call is of a built-in function, and a function that calls one which calls
itself: the first computes something, and its call is answered; the second computes nothing. -/
theorem execute_ok_iff_chains_loop :
    let commands : List Command :=
      [.generate (.declaration ⟨"sqrt", ["x"]⟩),
       .generate (.definition ⟨⟨"f", ["x"]⟩, .call "sqrt" [.var "x"]⟩),
       .generate (.definition ⟨⟨"loop", []⟩, .call "loop" []⟩),
       .generate (.definition ⟨⟨"g", ["x"]⟩, .call "loop" []⟩)]
    let m := (Command.runAll "main" commands).1.builder.module
    (∀ x, (m.execute "f" [x]).result = .ok x.sqrt) ∧
    (m.Chain [⟨"f", 1⟩, ⟨"sqrt", 1⟩] ∧ m.Answers ⟨"sqrt", 1⟩) ∧
    (m.Reaches "g" "loop" ∧ Relation.TransGen m.Calls "loop" "loop") ∧
    ∀ x y, (m.execute "g" [x]).result ≠ .ok y := by
  intro commands m
  let f : Decl := ⟨"f", 1, some ⟨["x"], #[.param 0, .call "sqrt" [⟨0⟩]], ⟨1⟩⟩⟩
  let loop : Decl := ⟨"loop", 0, some ⟨[], #[.call "loop" []], ⟨0⟩⟩⟩
  let g : Decl := ⟨"g", 1, some ⟨["x"], #[.param 0, .call "loop" []], ⟨1⟩⟩⟩
  have hm : m = ⟨"main", [⟨"sqrt", 1, none⟩, f, loop, g]⟩ := by decide +kernel
  have hf : m.find? "f" = some f := by rw [hm]; rfl
  have hloop : m.find? "loop" = some loop := by rw [hm]; rfl
  have hg : m.find? "g" = some g := by rw [hm]; rfl
  have hchain : m.Chain [⟨"f", 1⟩, ⟨"sqrt", 1⟩] :=
    .cons_cons ⟨_, _, [⟨0⟩], hf, rfl, by simp, rfl⟩ (.singleton _)
  have hreaches : m.Reaches "g" "loop" := .single ⟨_, _, [], hg, rfl, by simp⟩
  have hcycle : Relation.TransGen m.Calls "loop" "loop" := .single ⟨_, _, [], hloop, rfl, by simp⟩
  have hok (x : Float) : (m.execute "f" [x]).result = .ok x.sqrt := by rw [hm]; rfl
  refine ⟨hok, ⟨hchain, ?_⟩, ⟨hreaches, hcycle⟩, fun x => ?_⟩
  · obtain ⟨hanswers, -⟩ :=
      (execute_ok_iff_chains "main" commands "f" [0]).1.mp ⟨_, hok 0⟩ [⟨"sqrt", 1⟩] hchain
    exact hanswers _ (by simp)
  · exact (execute_ok_iff_chains "main" commands "g" [x]).2 "loop" hreaches hcycle

end Reckon
