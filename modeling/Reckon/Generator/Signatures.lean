/-!
# Generator — Signatures

The registry of functions a form may call: the arity of every name.
-/

namespace Reckon

/-- The arity of every registered name; the entry nearest the front counts. -/
structure Signatures where
  entries : List (String × Nat) := []
  deriving DecidableEq

namespace Signatures

/-- The registered arity of the name. -/
def arity? (s : Signatures) (name : String) : Option Nat := s.entries.lookup name

/-- The registry without the name. -/
def erase (s : Signatures) (name : String) : Signatures :=
  ⟨s.entries.filter (·.1 != name)⟩

/-- The registry with an arity for the name, instead of the one it had. -/
def insert (s : Signatures) (name : String) (arity : Nat) : Signatures :=
  ⟨(name, arity) :: (s.erase name).entries⟩

theorem arity?_erase (s : Signatures) (name other : String) :
    (s.erase name).arity? other = if other = name then none else s.arity? other := by
  unfold arity? erase
  induction s.entries with
  | nil => simp
  | cons entry entries ih =>
      obtain ⟨n, a⟩ := entry
      grind

theorem arity?_insert (s : Signatures) (name other : String) (arity : Nat) :
    (s.insert name arity).arity? other = if other = name then some arity else s.arity? other := by
  have := arity?_erase s name other
  unfold arity? insert at *
  grind

end Signatures

end Reckon
