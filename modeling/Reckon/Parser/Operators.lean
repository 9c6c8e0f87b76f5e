/-!
# Parser — Operators

Which characters are binary operators, and how tightly each binds.
-/

namespace Reckon

/-- The strength of every operator; what has none is no operator. -/
abbrev Operators := Char → Option Nat

namespace Operators

/-- The operators a parser knows from the start. -/
def standard : Operators
  | '<' => some 10
  | '>' => some 10
  | '+' => some 20
  | '-' => some 20
  | '*' => some 40
  | '/' => some 40
  | _ => none

/-- The table with a strength for one character. -/
def set (ops : Operators) (op : Char) (strength : Nat) : Operators :=
  fun c => if c = op then some strength else ops c

/-- The table with just these entries; of several for one character the last counts. -/
def ofList (entries : List (Char × Nat)) : Operators :=
  entries.foldl (fun ops (op, strength) => ops.set op strength) fun _ => none

end Operators

end Reckon
