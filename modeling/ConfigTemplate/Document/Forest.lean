/-!
# Forests

Ordered lists of trees with labels, as the first tree, its subtrees and the trees after it.
-/

namespace ConfigTemplate

inductive Forest (α : Type) where
  | nil
  | cons (label : α) (children rest : Forest α)
deriving DecidableEq, Repr

namespace Forest

variable {α β : Type}

def map (f : α → β) : Forest α → Forest β
  | .nil => .nil
  | .cons label children rest => .cons (f label) (children.map f) (rest.map f)

/-- The labels of the outermost trees. -/
def roots : Forest α → List α
  | .nil => []
  | .cons label _ rest => label :: rest.roots

/-- All labels in pre-order, each with its depth below the given one. -/
def levels (depth : Nat) : Forest α → List (Nat × α)
  | .nil => []
  | .cons label children rest =>
    (depth, label) :: (children.levels (depth + 1) ++ rest.levels depth)

/-- All labels in pre-order. -/
def toList : Forest α → List α
  | .nil => []
  | .cons label children rest => label :: (children.toList ++ rest.toList)

/-- Visits the labels in pre-order. The subtrees of a label are visited only if the visit of the label
says so. -/
def visit {m : Type → Type} [Monad m] (visitor : α → m Bool) : Forest α → m Unit
  | .nil => pure ()
  | .cons label children rest => do
    if ← visitor label then children.visit visitor
    rest.visit visitor

end Forest

end ConfigTemplate
