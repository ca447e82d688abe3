import BladeTree.Fault
import BladeTree.Token.Basic

namespace BladeTree

/-- A name that an extension wants an id for. -/
structure NewName where
  owner : String
  name : String
  label : Option String
  deriving DecidableEq, Repr

namespace Registry

def registerAll (r : Registry) : List NewName → Except RegistryError Registry
  | [] => .ok r
  | n :: rest => do
    let (_, r) ← r.register n.owner n.name n.label
    r.registerAll rest

end Registry

structure LexerOffer where
  source : Source
  position : Nat
  inTag : Bool
  types : Registry

/-- A token that an extension emits: its type and its length in bytes. -/
structure Emission where
  kind : TokenType
  length : Nat
  deriving DecidableEq, Repr

/-- An addition to the lexer, offered every position that holds one of its trigger bytes in
text or between attributes. -/
structure LexerExtension where
  name : String
  /-- Extensions of higher priority are asked first. -/
  priority : Int
  triggers : List UInt8
  types : List NewName
  activates : LexerOffer → Bool
  /-- The tokens from the offered position on, and whether the position is claimed. -/
  tokenize : LexerOffer → List Emission × Bool

/-- Offsets are words of 64 bits. -/
def wordLimit : Nat := UInt64.size

namespace Emission

/-- The emission as a token from `cursor` on, cut at the end of the source. -/
def token (size cursor : Nat) (e : Emission) : Except Fault Token :=
  if cursor + e.length < wordLimit then .ok ⟨e.kind, cursor, min (cursor + e.length) size⟩
  else .error (.offsetOverflow cursor)

/-- The emissions as tokens, one after another, and where the last one ends. -/
def place (size cursor : Nat) : List Emission → Except Fault (List Token × Nat)
  | [] => .ok ([], cursor)
  | e :: rest => do
    let t ← e.token size cursor
    let (ts, stop) ← place size t.stop rest
    return (t :: ts, stop)

end Emission

/-- The claimed tokens and where they end. A claim has to move forward, to a character
boundary. -/
def LexerExtension.claim? (x : LexerExtension) (offer : LexerOffer) :
    Except Fault (Option (List Token × Nat)) :=
  if x.activates offer then do
    let (emissions, claimed) := x.tokenize offer
    let (tokens, stop) ← Emission.place offer.source.size offer.position emissions
    return if claimed && stop > offer.position && offer.source.isBoundary stop then
      some (tokens, stop) else none
  else return none

end BladeTree
