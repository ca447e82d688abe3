import BladeTree.Text.Ascii

namespace BladeTree

def listsTag (names : List String) (name : String) : Bool :=
  names.any (sameName · name)

def isVoidElement (name : String) : Bool :=
  listsTag ["area", "base", "br", "col", "embed", "hr", "img", "input", "link", "meta", "param",
    "source", "track", "wbr"] name

inductive ParentRule where
  | anyExcept (names : List String)
  | only (names : List String)
  deriving DecidableEq, Repr

def ParentRule.allows : ParentRule → String → Bool
  | .anyExcept names, parent => !listsTag names parent
  | .only names, parent => listsTag names parent

/-- When the end tag of an element may be left out. -/
structure OptionalTag where
  name : String
  closedBySiblings : List String
  parents : ParentRule
  deriving DecidableEq, Repr

namespace OptionalTag

def table : List OptionalTag := [
  ⟨"li", ["li"], .only ["ul", "ol", "menu"]⟩,
  ⟨"dt", ["dt", "dd"], .only ["dl", "div"]⟩,
  ⟨"dd", ["dt", "dd"], .only ["dl", "div"]⟩,
  ⟨"p",
    ["address", "article", "aside", "blockquote", "details", "dialog", "div", "dl", "fieldset",
      "figcaption", "figure", "footer", "form", "h1", "h2", "h3", "h4", "h5", "h6", "header",
      "hgroup", "hr", "main", "menu", "nav", "ol", "p", "pre", "search", "section", "table", "ul"],
    .anyExcept ["a", "audio", "del", "ins", "map", "noscript", "video"]⟩,
  ⟨"rt", ["rt", "rp"], .only ["ruby", "rtc"]⟩,
  ⟨"rp", ["rt", "rp"], .only ["ruby", "rtc"]⟩,
  ⟨"optgroup", ["optgroup"], .only ["select"]⟩,
  ⟨"option", ["option", "optgroup"], .only ["select", "datalist", "optgroup"]⟩,
  ⟨"thead", ["tbody", "tfoot"], .only ["table"]⟩,
  ⟨"tbody", ["tbody", "tfoot"], .only ["table"]⟩,
  ⟨"tfoot", ["tbody"], .only ["table"]⟩,
  ⟨"tr", ["tr"], .only ["table", "thead", "tbody", "tfoot"]⟩,
  ⟨"td", ["td", "th"], .only ["tr"]⟩,
  ⟨"th", ["td", "th"], .only ["tr"]⟩]

def find? (name : String) : Option OptionalTag :=
  table.find? (sameName ·.name name)

def isListed (name : String) : Bool := (find? name).isSome

def endsAtSibling (element sibling : String) : Bool :=
  (find? element).any fun rule => listsTag rule.closedBySiblings sibling

/-- The end of `parent` ends an open `element`; no element is its own such parent. -/
def endsWithParent (element parent : String) : Bool :=
  (find? element).any fun rule => !sameName element parent && rule.parents.allows parent

end OptionalTag
end BladeTree
