import Mathlib.Data.List.Nodup

/-!
Contract: ways down a graph from one of its nodes.

`Walk children root stack node` says that `stack`, with its top first, lists the
nodes on a way from `root` to `node`, without `node` itself. This is the shape in
which a recursion over a graph sees it: the nodes it is inside of, and the one
it has come to.
-/

namespace AndroidPatch.Library

variable {N : Type}

inductive Walk (children : N → List N) (root : N) : List N → N → Prop where
  | start : Walk children root [] root
  | step {stack : List N} {node child : N} (walk : Walk children root stack node)
      (isChild : child ∈ children node) : Walk children root (node :: stack) child

namespace Walk

variable {children : N → List N} {root : N}

theorem mono {more : N → List N} (subset : ∀ node, children node ⊆ more node)
    {stack : List N} {node : N} (walk : Walk children root stack node) :
    Walk more root stack node := by
  induction walk with
  | start => exact .start
  | step walk isChild inductionHypothesis =>
      exact .step inductionHypothesis (subset _ isChild)

/-- Every node on the stack has a child. -/
theorem exists_child {stack : List N} {node above : N} (walk : Walk children root stack node)
    (isAbove : above ∈ stack) : ∃ child, child ∈ children above := by
  induction walk with
  | start => cases isAbove
  | @step stack node child walk isChild inductionHypothesis =>
      rcases List.mem_cons.mp isAbove with same | higher
      · exact ⟨child, same ▸ isChild⟩
      · exact inductionHypothesis higher

end Walk

end AndroidPatch.Library
