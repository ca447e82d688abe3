import BladeTree.Edit.Visitor
import BladeTree.Proofs.Edit.Calls

namespace BladeTree

/-- A call for a change at a node. -/
structure Request where
  id : Nat
  call : EditCall

def VisitCall.request? (id : Nat) : VisitCall → Option Request
  | .edit c => some ⟨id, c⟩
  | .skipChildren => none
  | .note => none

namespace Edits

variable {d : Document}

def replay (es : Edits) (d : Document) (rs : List Request) : Edits :=
  rs.foldl (fun es r => es.apply d r.id r.call) es

theorem replay_append (es : Edits) (rs rs' : List Request) :
    es.replay d (rs ++ rs') = (es.replay d rs).replay d rs' := List.foldl_append

theorem size_replay (es : Edits) (rs : List Request) :
    (es.replay d rs).slots.size = es.slots.size := by
  induction rs generalizing es with
  | nil => rfl
  | cons r rs ih => exact (ih _).trans (size_apply es d r.id r.call)

end Edits

namespace Session

variable (d : Document)

def requestsAt (event : VisitEvent) (id depth : Nat) : List Visitor → Session → List Request
  | [], _ => []
  | v :: rest, s =>
    let calls := v.calls (s.site d event id depth)
    calls.filterMap (·.request? id) ++
      requestsAt event id depth rest (calls.foldl (apply d event id depth) s)

/-- The calls that a run makes, in order. -/
def requests (visitors : List Visitor) : List VisitStep → Session → List Request
  | [], _ => []
  | .enter (.node id children) depth :: rest, s =>
    let (skips, next) := visit d .enter id depth visitors s
    requestsAt d .enter id depth visitors s ++
      if skips then requests visitors (.leave id depth :: rest) next
      else requests visitors
        (VisitStep.enterAll (depth + 1) children ++ .leave id depth :: rest) next
  | .leave id depth :: rest, s =>
    requestsAt d .leave id depth visitors s ++
      requests visitors rest (visit d .leave id depth visitors s).2
termination_by steps => VisitStep.weights steps
decreasing_by
  · simp only [VisitStep.weights, List.foldr_cons, VisitStep.weight, Tree.size]
    omega
  · rw [VisitStep.weights_append, VisitStep.weights_enterAll]
    simp only [VisitStep.weights, List.foldr_cons, VisitStep.weight, Tree.size]
    omega
  · simp only [VisitStep.weights, List.foldr_cons, VisitStep.weight]
    omega

variable {d} {visitors : List Visitor} {s : Session}

theorem edits_foldl_apply (event : VisitEvent) (id depth : Nat) (calls : List VisitCall)
    (s : Session) : (calls.foldl (apply d event id depth) s).edits =
      s.edits.replay d (calls.filterMap (·.request? id)) := by
  induction calls generalizing s with
  | nil => rfl
  | cons c calls ih =>
      rw [List.foldl_cons, ih]
      cases c with
      | edit call => rfl
      | skipChildren => rfl
      | note => rfl

theorem edits_visit_eq (event : VisitEvent) (id depth : Nat) (visitors : List Visitor)
    (s : Session) : (visit d event id depth visitors s).2.edits =
      s.edits.replay d (requestsAt d event id depth visitors s) := by
  induction visitors generalizing s with
  | nil => rfl
  | cons v rest ih =>
      rw [visit, requestsAt, Edits.replay_append, ← edits_foldl_apply event id depth]
      exact ih _

theorem edits_run_eq (steps : List VisitStep) (s : Session) :
    (run d visitors steps s).edits = s.edits.replay d (requests d visitors steps s) := by
  fun_induction run d visitors steps s with
  | case1 s =>
      rw [requests]
      rfl
  | case2 s id children depth rest next hvisit ih =>
      rw [requests, hvisit, Edits.replay_append, ← edits_visit_eq, hvisit, ih]
      rfl
  | case3 s id children depth rest skips next hvisit hskips ih =>
      simp only [requests, hvisit, Edits.replay_append]
      rw [← edits_visit_eq, hvisit, ih, if_neg hskips]
  | case4 s id depth rest ih =>
      rw [requests, Edits.replay_append, ← edits_visit_eq, ih]

end Session

namespace Document

/-- The calls that the visitors of a document make, in order. -/
def requests (d : Document) (visitors : List Visitor) : List Request :=
  Session.requests d visitors [.enter (d.tree Builder.root) 0] (.start d)

theorem edits_visit_eq (d : Document) (visitors : List Visitor) :
    (d.visit visitors).edits = (Edits.none d).replay d (d.requests visitors) :=
  Session.edits_run_eq _ _

end Document
end BladeTree
