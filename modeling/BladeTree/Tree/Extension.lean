import BladeTree.Node.Basic
import BladeTree.Token.Extension

namespace BladeTree

structure TreeOffer where
  source : Source
  tokens : Array Token
  position : Nat
  kinds : Registry

structure Leaf where
  kind : NodeKind
  data : Int32
  tokenCount : Nat

/-- An addition to the tree builder, offered the tokens in content position. -/
structure TreeExtension where
  name : String
  /-- Extensions of higher priority are asked first. -/
  priority : Int
  kinds : List NewName
  canHandle : TreeOffer → Bool
  handle : TreeOffer → Leaf

/-- The leaf for the offered position. One without tokens is no claim. -/
def TreeExtension.claim? (x : TreeExtension) (offer : TreeOffer) : Option Leaf :=
  if x.canHandle offer then
    let leaf := x.handle offer
    let count := min leaf.tokenCount (offer.tokens.size - offer.position)
    if count = 0 then none else some { leaf with tokenCount := count }
  else none

end BladeTree
