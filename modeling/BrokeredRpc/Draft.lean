import BrokeredRpc.Properties

/-!
# Drafts of properties

A draft is edited step by step; copies of it can be put aside and the latest
copy taken back. A copy is a value, so later edits never reach it.
-/
namespace BrokeredRpc

structure Draft where
  current : Properties := {}
  saved : List Properties := []

namespace Draft

inductive Step
  | edit (edit : Properties.Edit)
  | save
  | restore

/-- One step. Restoring without a copy leaves empty properties. -/
def apply (d : Draft) : Step → Draft
  | .edit edit => { d with current := d.current.apply edit }
  | .save => { d with saved := d.saved ++ [d.current] }
  | .restore => { d with current := d.saved.getLast?.getD {} }

/-- The drafts after each step. -/
def trace (d : Draft) : List Step → List Draft
  | [] => []
  | step :: rest => d.apply step :: (d.apply step).trace rest

/-- The draft after all steps. -/
def run (d : Draft) (steps : List Step) : Draft := steps.foldl apply d

end Draft

end BrokeredRpc
