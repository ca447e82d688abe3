import BladeTree.Edit.Writer

namespace BladeTree

inductive VisitEvent where
  | enter
  | leave
  deriving DecidableEq, Repr

structure Site where
  document : Document
  event : VisitEvent
  id : Nat
  /-- Zero for the root. -/
  depth : Nat
  /-- The node, or a node around it, is removed or replaced already. -/
  removed : Bool

namespace Site

variable (s : Site)

def node : FlatNode := s.document.node s.id

def kind : NodeKind := s.document.kind s.id

def isElement : Bool := s.kind == .element

def elementName? : Option String :=
  if s.isElement then some (s.document.elementName s.id) else none

def siblings : List Nat :=
  s.node.parent.elim [] fun parent => (s.document.children parent).filter (· != s.id)

end Site

inductive VisitCall where
  | edit (call : EditCall)
  /-- Nothing below the node is to be visited; counts on entry only. -/
  | skipChildren
  /-- Keeps the site as it is now. -/
  | note

/-- Visitors see the document as it was read, and never the edits of one another. -/
structure Visitor where
  calls : Site → List VisitCall

/-- The edits and notes that visitors made so far. -/
structure Session where
  edits : Edits
  notes : Array Site

namespace Session

def start (d : Document) : Session := ⟨.none d, #[]⟩

def site (s : Session) (d : Document) (event : VisitEvent) (id depth : Nat) : Site :=
  ⟨d, event, id, depth, s.edits.isGone d id⟩

def apply (d : Document) (event : VisitEvent) (id depth : Nat) (s : Session) :
    VisitCall → Session
  | .edit c => { s with edits := s.edits.apply d id c }
  | .skipChildren => s
  | .note => { s with notes := s.notes.push (s.site d event id depth) }

/-- Has every visitor make its calls at a node, and tells whether one of them asks to skip the
children. -/
def visit (d : Document) (event : VisitEvent) (id depth : Nat) :
    List Visitor → Session → Bool × Session
  | [], s => (false, s)
  | v :: rest, s =>
    let calls := v.calls (s.site d event id depth)
    let (skips, s) := visit d event id depth rest (calls.foldl (apply d event id depth) s)
    (skips || calls.any (· matches .skipChildren), s)

end Session

/-- What is still to be visited. -/
inductive VisitStep where
  | enter (tree : Tree) (depth : Nat)
  | leave (id depth : Nat)

mutual

def Tree.size : Tree → Nat
  | .node _ children => 1 + sizeAll children

def Tree.sizeAll : List Tree → Nat
  | [] => 0
  | t :: rest => t.size + sizeAll rest

end

namespace VisitStep

def weight : VisitStep → Nat
  | enter tree _ => 2 * tree.size
  | leave .. => 1

def weights (steps : List VisitStep) : Nat := steps.foldr (weight · + ·) 0

theorem weights_append (a b : List VisitStep) : weights (a ++ b) = weights a + weights b := by
  induction a with
  | nil => simp [weights]
  | cons step rest ih =>
    simp only [weights, List.cons_append, List.foldr_cons] at ih ⊢
    rw [ih, Nat.add_assoc]

def enterAll (depth : Nat) (trees : List Tree) : List VisitStep := trees.map (enter · depth)

theorem weights_enterAll (depth : Nat) (trees : List Tree) :
    weights (enterAll depth trees) = 2 * Tree.sizeAll trees := by
  induction trees with
  | nil => rfl
  | cons t rest ih =>
    simp only [weights, enterAll, List.map_cons, List.foldr_cons, Tree.sizeAll] at ih ⊢
    rw [ih, weight]
    omega

end VisitStep

namespace Session

def run (d : Document) (visitors : List Visitor) : List VisitStep → Session → Session
  | [], s => s
  | .enter (.node id children) depth :: rest, s =>
    let (skips, s) := visit d .enter id depth visitors s
    if skips then run d visitors (.leave id depth :: rest) s
    else run d visitors (VisitStep.enterAll (depth + 1) children ++ .leave id depth :: rest) s
  | .leave id depth :: rest, s => run d visitors rest (visit d .leave id depth visitors s).2
termination_by steps => VisitStep.weights steps
decreasing_by
  · simp only [VisitStep.weights, List.foldr_cons, VisitStep.weight, Tree.size]
    omega
  · rw [VisitStep.weights_append, VisitStep.weights_enterAll]
    simp only [VisitStep.weights, List.foldr_cons, VisitStep.weight, Tree.size]
    omega
  · simp only [VisitStep.weights, List.foldr_cons, VisitStep.weight]
    omega

end Session

namespace Document

def visit (d : Document) (visitors : List Visitor) : Session :=
  Session.run d visitors [.enter (d.tree Builder.root) 0] (.start d)

def transform (d : Document) (visitors : List Visitor) : String :=
  d.edit (d.visit visitors).edits

end Document
end BladeTree
