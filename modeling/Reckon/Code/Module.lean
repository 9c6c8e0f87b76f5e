import Reckon.Code.Instr

/-!
# Code — Module

A module holds functions in the order they were declared.  Calls name their callee and are resolved
when they are run, so a function that is replaced is replaced for every caller.
-/

namespace Reckon

/-- A body: the names of the parameters, the code, and the register that is returned. -/
structure Body where
  params : List String
  code : Array Instr
  result : Reg
  deriving DecidableEq

/-- A declared function; one from outside never gets a body. -/
structure Decl where
  name : String
  arity : Nat
  body : Option Body
  deriving DecidableEq

/-- The functions in the order of their declaration. -/
structure Module where
  name : String
  functions : List Decl := []
  deriving DecidableEq

/-- A declared function by its name and arity. -/
structure Handle where
  name : String
  arity : Nat
  deriving DecidableEq

/-- The handle of a declared function. -/
def Decl.handle (d : Decl) : Handle := ⟨d.name, d.arity⟩

/-- The text of a body behind its name. -/
def Body.text (b : Body) : String :=
  let line := fun (i, k) => s!"  {Reg.text ⟨k⟩} = {Instr.text i}\n"
  "(" ++ " ".intercalate b.params ++ ") \x7b\n" ++ String.join (b.code.toList.zipIdx.map line)
    ++ s!"  ret {b.result.text}\n\x7d\n"

/-- The text of a function: its arity when it has no body. -/
def Decl.text (d : Decl) : String :=
  match d.body with
  | none => s!"declare {d.name}/{d.arity}\n"
  | some body => s!"define {d.name}" ++ body.text

namespace Module

/-- The text of a module: its name and its functions in order. -/
def text (m : Module) : String :=
  s!"; module {m.name}\n" ++ String.join (m.functions.map Decl.text)

/-- The first function of that name. -/
def find? (m : Module) (name : String) : Option Decl := m.functions.find? (·.name == name)

/-- Replace the first function of the name, in its place. -/
def replaceFirst (name : String) (f : Decl → Decl) : List Decl → List Decl
  | [] => []
  | d :: ds => if d.name == name then f d :: ds else d :: replaceFirst name f ds

/-- Declare a function without a body: in the place of the one of that name, or behind all
others. -/
def declare (m : Module) (name : String) (arity : Nat) : Module :=
  let decl : Decl := ⟨name, arity, none⟩
  if (m.find? name).isSome then
    { m with functions := replaceFirst name (fun _ => decl) m.functions }
  else { m with functions := m.functions ++ [decl] }

/-- Give the function of the name a body. -/
def define (m : Module) (name : String) (body : Body) : Module :=
  { m with functions := replaceFirst name (fun d => { d with body := some body }) m.functions }

/-- Take all functions of the name away. -/
def remove (m : Module) (name : String) : Module :=
  { m with functions := m.functions.filter (·.name != name) }

/-! ## What is found -/

theorem find?_replaceFirst {name : String} {f : Decl → Decl}
    (hf : ∀ d, d.name = name → (f d).name = name) (ds : List Decl) (other : String) :
    (replaceFirst name f ds).find? (·.name == other) =
      if other = name then (ds.find? (·.name == name)).map f
      else ds.find? (·.name == other) := by
  induction ds with
  | nil => simp [replaceFirst]
  | cons d ds ih =>
      by_cases hd : d.name = name
      · have hn := hf d hd
        grind [replaceFirst]
      · grind [replaceFirst]

/-- A declared function has no body yet. -/
theorem find?_declare (m : Module) (name : String) (arity : Nat) (other : String) :
    (m.declare name arity).find? other =
      if other = name then some ⟨name, arity, none⟩ else m.find? other := by
  unfold declare
  cases h : m.find? name with
  | none =>
      unfold find? at *
      grind
  | some d =>
      have := find?_replaceFirst (f := fun _ => ⟨name, arity, none⟩) (fun _ _ => rfl) m.functions
        other
      unfold find? at *
      grind

/-- A defined function keeps its arity. -/
theorem find?_define (m : Module) (name : String) (body : Body) (other : String) :
    (m.define name body).find? other =
      if other = name then (m.find? name).map ({ · with body := some body }) else m.find? other :=
  find?_replaceFirst (f := fun d => { d with body := some body }) (fun _ h => h) m.functions other

theorem find?_remove (m : Module) (name other : String) :
    (m.remove name).find? other = if other = name then none else m.find? other := by
  unfold find? remove
  induction m.functions with
  | nil => simp
  | cons d ds ih => grind

end Module

end Reckon
