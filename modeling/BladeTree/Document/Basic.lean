import BladeTree.Token.Lexer.Step
import BladeTree.Tree.Build

namespace BladeTree

/-- The shape of a part of an arena: a node with the parts under it. -/
inductive Tree where
  | node (id : Nat) (children : List Tree)

def Tree.id : Tree → Nat
  | node id _ => id

def Tree.children : Tree → List Tree
  | node _ children => children

/-- A template that was read: its tokens, its tree and what was found wrong with it. -/
structure Document extends Tokenized where
  lexerErrors : Array LexerError
  nodes : Array FlatNode
  metadata : Metadata
  diagnostics : Array Diagnostic

def BuildError.message : BuildError → String
  | depthLimit counter limit offset =>
    s!"{counter.word} nesting depth limit of {limit} exceeded at offset {offset}"
  | fault f => reprStr f

namespace Document

/-- Reads a template. Only too deep nesting makes this fail. -/
def parse (o : ParseOptions) (text : String) : Except BuildError Document := do
  let s := Source.ofString text
  let lexed ← (lex o s).mapError .fault
  let t : Tokenized := ⟨o, s, lexed.tokens⟩
  let b ← Builder.build t
  return ⟨t, lexed.errors, b.nodes, b.metadata, b.diagnostics⟩

variable (d : Document)

def node (id : Nat) : FlatNode := d.nodes.getD id (.unlinked .document 0)

def kind (id : Nat) : NodeKind := (d.node id).kind

def tokenSpan (start stop : Nat) : Span :=
  if start < stop then
    ⟨d.offset start, (d.tokens[stop - 1]?).elim d.source.size (·.stop)⟩
  else ⟨d.offset start, d.offset start⟩

def tokenText (start stop : Nat) : String :=
  let span := d.tokenSpan start stop
  d.source.slice span.start span.stop

def span (id : Nat) : Span := d.tokenSpan (d.node id).tokenStart (d.node id).tokenEnd

def text (id : Nat) : String := d.tokenText (d.node id).tokenStart (d.node id).tokenEnd

mutual

/-- The tree under a node. Links lead to later slots of the arena. -/
def tree (id : Nat) : Tree :=
  match (d.node id).firstChild with
  | some child => if _h : id < child ∧ child < d.nodes.size then .node id (forest child)
    else .node id []
  | none => .node id []
termination_by (d.nodes.size - id, 0)

def forest (id : Nat) : List Tree :=
  tree id :: match (d.node id).nextSibling with
    | some next => if _h : id < next ∧ next < d.nodes.size then forest next else []
    | none => []
termination_by (d.nodes.size - id, 1)

end

def siblingsFrom (id : Nat) : List Nat :=
  id :: match (d.node id).nextSibling with
    | some next => if _h : id < next ∧ next < d.nodes.size then siblingsFrom next else []
    | none => []
termination_by d.nodes.size - id

def children (id : Nat) : List Nat :=
  (d.node id).firstChild.elim [] d.siblingsFrom

def ancestors (id : Nat) : List Nat :=
  match (d.node id).parent with
  | some parent => if _h : parent < id then parent :: ancestors parent else []
  | none => []
termination_by id

/-- The sibling after a node, or after its nearest ancestor below `root` that has one. -/
def climb? (root id : Nat) : Option Nat :=
  if id = root then none
  else match (d.node id).nextSibling with
    | some next => some next
    | none =>
      match (d.node id).parent with
      | some parent => if _h : parent < id then climb? root parent else none
      | none => none
termination_by id

/-- The node after `id` in pre-order, within the tree under `root`. -/
def next? (root id : Nat) : Option Nat :=
  (d.node id).firstChild <|> d.climb? root id

def preorderFrom (root id : Nat) : List Nat :=
  id :: match d.next? root id with
    | some next => if _h : id < next ∧ next < d.nodes.size then preorderFrom root next else []
    | none => []
termination_by d.nodes.size - id

def descendants (id : Nat) : List Nat :=
  (d.node id).firstChild.elim [] (d.preorderFrom id)

mutual

/-- The source of a tree: the tokens of the node itself, with its children in between. -/
def renderTree : Tree → String
  | .node id children => renderChildren (d.node id).tokenStart (d.node id).tokenEnd children

/-- The tokens `pos … stop`, those of the children through their own trees. -/
def renderChildren (pos stop : Nat) : List Tree → String
  | [] => d.tokenText pos stop
  | child :: rest =>
    d.tokenText pos (d.node child.id).tokenStart ++ renderTree child ++
      renderChildren (d.node child.id).tokenEnd stop rest

end

def render : String := d.renderTree (d.tree Builder.root)

end Document
end BladeTree
