/-!
# Expr

The expressions, and the trees of two of them compared.  An operator chain of `n` terms is a tree
of depth `n`, so what is run on expressions keeps its own list of what is left to visit.
-/

namespace Reckon

/-- An expression. -/
inductive Expr where
  | number (value : Float)
  | var (name : String)
  | binary (op : Char) (left right : Expr)
  | call (callee : String) (args : List Expr)
  deriving Inhabited

namespace Expr

mutual

/-- The number of nodes. -/
def size : Expr → Nat
  | .number _ => 1
  | .var _ => 1
  | .binary _ left right => left.size + right.size + 1
  | .call _ args => sizes args + 1

/-- The number of nodes of several expressions. -/
def sizes : List Expr → Nat
  | [] => 0
  | e :: es => e.size + sizes es

end

theorem sizes_append (es fs : List Expr) : sizes (es ++ fs) = sizes es + sizes fs := by
  induction es with
  | nil => simp [sizes]
  | cons e es ih => simp [sizes, ih, Nat.add_assoc]

/-- What a tree holds at one node; a call holds the number of its arguments. -/
inductive Node where
  | number (value : Float)
  | var (name : String)
  | binary (op : Char)
  | call (callee : String) (count : Nat)

/-- The nodes hold the same; numbers are the same when they compare as equal. -/
def Node.same : Node → Node → Bool
  | .number x, .number y => x == y
  | .var x, .var y => x == y
  | .binary f, .binary g => f == g
  | .call f m, .call g n => f == g && m == n
  | _, _ => false

/-- The nodes of the pending expressions behind those already seen, each before its operands. -/
def visit (pending : List Expr) (seen : Array Node) : Array Node :=
  match pending with
  | [] => seen
  | .number v :: rest => visit rest (seen.push (.number v))
  | .var x :: rest => visit rest (seen.push (.var x))
  | .binary op l r :: rest => visit (l :: r :: rest) (seen.push (.binary op))
  | .call f args :: rest => visit (args ++ rest) (seen.push (.call f args.length))
termination_by sizes pending
decreasing_by all_goals simp [sizes, size, sizes_append] <;> omega

/-- The nodes of the expression in order. -/
def nodes (e : Expr) : Array Node := visit [e] #[]

/-- The expressions have the same shape, names, operators and numbers.  The order of the nodes and
their argument counts determine the tree. -/
def same (a b : Expr) : Bool :=
  let as := a.nodes
  let bs := b.nodes
  as.size == bs.size && (as.zip bs).all fun (m, n) => m.same n

end Expr

end Reckon
