/-! # Trees of keys

A tree holds values under paths of keys. Under each node the keys stand in the order in which
they were first used, and the values are listed in that order, a node before what is under it. -/

namespace TableQuery

/-- A tree of values of type `α` under paths of texts. -/
inductive KeyTree (α : Type) where
  /-- The value at the empty path, if there is one, and the trees under the first keys. -/
  | node (value : Option α) (children : List (String × KeyTree α))

namespace KeyTree

variable {α : Type}

/-- The tree without values. -/
def empty : KeyTree α := node none []

instance : EmptyCollection (KeyTree α) := ⟨empty⟩

/-- Changes the tree under a key, or adds a key with the changed empty tree. -/
def alterChild (key : String) (f : KeyTree α → KeyTree α) :
    List (String × KeyTree α) → List (String × KeyTree α)
  | [] => [(key, f ∅)]
  | child :: rest =>
    if child.1 = key then (key, f child.2) :: rest else child :: alterChild key f rest

/-- Sets the value at a path to what `f` makes of the value there. -/
def alter (f : Option α → α) : List String → KeyTree α → KeyTree α
  | [], node value children => node (some (f value)) children
  | key :: path, node value children => node value (alterChild key (alter f path) children)

mutual

/-- The values in the order of their keys. -/
def toList : KeyTree α → List α
  | node value children => value.toList ++ toListAll children
termination_by structural t => t

/-- The values of several trees, one tree after another. -/
def toListAll : List (String × KeyTree α) → List α
  | [] => []
  | (_, child) :: rest => child.toList ++ toListAll rest
termination_by structural l => l

end

end KeyTree

end TableQuery
