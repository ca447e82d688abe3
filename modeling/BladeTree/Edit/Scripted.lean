import BladeTree.Edit.Visitor

namespace BladeTree

structure SitePattern where
  /-- The name under which the kind is shown. -/
  kind : Option String
  /-- A pattern for the name of an element, directive, block or attribute. -/
  name : Option String
  text : Option String
  id : Option Nat
  depth : Option Nat

namespace Document

def nameOf? (d : Document) (id : Nat) : Option String :=
  match d.kind id with
  | .element => some (d.elementName id)
  | .directive => some (d.directiveName id)
  | .directiveBlock => some (d.blockName id)
  | .attr => some (d.attributeName id)
  | _ => none

end Document

namespace SitePattern

def holds (p : SitePattern) (s : Site) : Bool :=
  p.kind.all (· == s.document.kindName s.id) &&
    p.name.all (fun name => (s.document.nameOf? s.id).any (globMatch name)) &&
    p.text.all (· == s.document.text s.id) &&
    p.id.all (· == s.id) && p.depth.all (· == s.depth)

end SitePattern

structure VisitRule where
  event : VisitEvent
  pattern : SitePattern
  calls : List VisitCall

/-- A visitor given by rules, which it tries in order at every event. -/
def Visitor.ofRules (rules : List VisitRule) : Visitor where
  calls s := rules.flatMap fun r => if r.event == s.event && r.pattern.holds s then r.calls else []

end BladeTree
