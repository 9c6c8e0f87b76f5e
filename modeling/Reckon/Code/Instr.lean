import Reckon.Number.Text

/-!
# Code — Instr

Register code: every instruction defines one register, numbered by its place.
-/

namespace Reckon

/-- The register the instruction at the same place defines. -/
structure Reg where
  index : Nat
  deriving DecidableEq

/-- A register as code shows it. -/
def Reg.text (r : Reg) : String := s!"%{r.index}"

/-- An operation of two numbers. -/
inductive Arith where
  | add
  | sub
  | mul
  deriving DecidableEq

namespace Arith

/-- The operation an operator stands for. -/
def ofChar? : Char → Option Arith
  | '+' => some .add
  | '-' => some .sub
  | '*' => some .mul
  | _ => none

/-- The result of the operation. -/
def apply : Arith → Float → Float → Float
  | .add, x, y => x + y
  | .sub, x, y => x - y
  | .mul, x, y => x * y

/-- The operation as code names it. -/
def text : Arith → String
  | .add => "fadd"
  | .sub => "fsub"
  | .mul => "fmul"

end Arith

/-- An instruction. -/
inductive Instr where
  | const (value : Float)
  | param (index : Nat)
  | arith (op : Arith) (left right : Reg)
  /-- less-than, which also holds when one side is no number; it gives a truth value -/
  | less (left right : Reg)
  /-- a truth value as one or zero -/
  | widen (flag : Reg)
  | call (callee : String) (args : List Reg)
  deriving DecidableEq

/-- An instruction as code shows it. -/
def Instr.text : Instr → String
  | .const value => "const " ++ exactText value
  | .param index => s!"param {index}"
  | .arith op l r => s!"{op.text} {l.text}, {r.text}"
  | .less l r => s!"fcmp ult {l.text}, {r.text}"
  | .widen r => s!"uitofp {r.text}"
  | .call callee args => s!"call {callee}(" ++ ", ".intercalate (args.map Reg.text) ++ ")"

end Reckon
