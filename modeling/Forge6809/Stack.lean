/-! # Stacks

A last-in first-out list. The head of the list is the top. -/

namespace Forge6809

structure Stack (α : Type) where
  /-- The elements, top first. -/
  items : List α := []
deriving DecidableEq, Repr

namespace Stack

variable {α : Type}

def empty : Stack α := ⟨[]⟩

def push (s : Stack α) (a : α) : Stack α :=
  ⟨a :: s.items⟩

def peek? (s : Stack α) : Option α :=
  s.items.head?

def pop? (s : Stack α) : Option (α × Stack α) :=
  match s.items with
  | [] => none
  | a :: r => some (a, ⟨r⟩)

def isEmpty (s : Stack α) : Bool :=
  s.items.isEmpty

def size (s : Stack α) : Nat :=
  s.items.length

def toList (s : Stack α) : List α :=
  s.items.reverse

@[simp]
theorem toList_push (s : Stack α) (a : α) : (s.push a).toList = s.toList ++ [a] := by
  simp [push, toList]

@[simp]
theorem pop?_push (s : Stack α) (a : α) : (s.push a).pop? = some (a, s) := rfl

@[simp]
theorem peek?_push (s : Stack α) (a : α) : (s.push a).peek? = some a := rfl

end Stack
end Forge6809
