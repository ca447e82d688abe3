import BladeTree.Edit.Visitor

namespace BladeTree

structure AttributeDirective where
  name : String
  directive : String
  deriving DecidableEq, Repr

namespace AttributeDirective

def named (directive : String) : AttributeDirective := ⟨"#" ++ directive, directive⟩

def standard : List AttributeDirective :=
  ["if", "unless", "foreach", "for", "while", "isset", "can", "auth"].map named

/-- Puts a handler first, so that it counts before those there are for the same attribute. -/
def add (handlers : List AttributeDirective) (a : AttributeDirective) :
    List AttributeDirective := a :: handlers

/-- Takes the attribute away and puts its directive around the element. -/
def calls (a : AttributeDirective) (value : Option String) : List EditCall :=
  [.removeAttribute a.name,
    .safeSurround (NewNode.directiveText a.directive (value.map WhiteSpace.trim))
      (NewNode.endDirective a.directive)]

end AttributeDirective

/-- Changes for a whole document. Names are patterns. -/
inductive Recipe where
  /-- Standalone directives and whole blocks. -/
  | removeDirective (pattern : String)
  | removeAttributes (tag : String) (patterns : List String)
  | renameTag (tag newName : String)
  | wrapElements (tag : String) (wrapper : NewNode)
  /-- Leaves the content of the elements in their place. -/
  | unwrapElements (tag : String)
  | addClass (tag : String) (classes : List String)
  /-- Of two handlers for one attribute the first counts. -/
  | compileAttributeDirectives (handlers : List AttributeDirective)

namespace Recipe

def name : Recipe → String
  | removeDirective _ => "remove-directive"
  | removeAttributes .. => "remove-attributes"
  | renameTag .. => "rename-tag"
  | wrapElements .. => "wrap-elements"
  | unwrapElements _ => "unwrap-elements"
  | addClass .. => "add-class"
  | compileAttributeDirectives _ => "compile-attribute-directives"

def isElementLike (tag : String) (s : Site) : Bool := s.elementName?.any (globMatch tag)

def isFreeDirective (d : Document) (id : Nat) : Bool :=
  d.kind id == .directive &&
    !(d.isMarker id && (d.node id).parent.any (d.kind · == .directiveBlock))

def removeDirectiveCalls (pattern : String) (s : Site) : List VisitCall :=
  if s.kind = .directiveBlock then
    if globMatch pattern (s.document.blockName s.id) then [.edit .remove, .skipChildren] else []
  else if isFreeDirective s.document s.id && globMatch pattern (s.document.directiveName s.id)
  then [.edit .remove]
  else []

/-- Only patterns that some attribute of the element matches are recorded. -/
def removeAttributesCalls (patterns : List String) (s : Site) : List EditCall :=
  let names := (s.document.attributes s.id).map s.document.attributeName
  (patterns.filter fun pattern => names.any (globMatch pattern)).map .removeAttribute

/-- Takes the attributes from the last to the first, so that an earlier one ends up further
out. -/
def attributeDirectiveCalls (handlers : List AttributeDirective) (s : Site) : List EditCall :=
  (s.document.attributes s.id).reverse.flatMap fun id =>
    match handlers.find? (·.name == s.document.attributeName id) with
    | some handler => handler.calls (s.document.attributeValue? id)
    | none => []

def elementCalls (s : Site) : Recipe → List EditCall
  | removeDirective _ => []
  | removeAttributes tag patterns =>
    if isElementLike tag s then removeAttributesCalls patterns s else []
  | renameTag tag newName => if isElementLike tag s then [.renameTag newName] else []
  | wrapElements tag wrapper => if isElementLike tag s then [.wrapWith wrapper] else []
  | unwrapElements tag => if isElementLike tag s then [.unwrap] else []
  | addClass tag classes => if isElementLike tag s then classes.map .addClass else []
  | compileAttributeDirectives handlers =>
    if s.isElement then attributeDirectiveCalls handlers s else []

def calls (r : Recipe) (s : Site) : List VisitCall :=
  match r with
  | removeDirective pattern => removeDirectiveCalls pattern s
  | r => (r.elementCalls s).map .edit

def visitor (r : Recipe) : Visitor where
  calls s := if s.event = .enter then r.calls s else []

end Recipe

namespace Document

def follow (d : Document) (r : Recipe) : String := d.transform [r.visitor]

end Document
end BladeTree
