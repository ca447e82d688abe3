import BladeTree.Options

namespace BladeTree

inductive Scope where
  | anywhere
  | text
  | tag
  | lineStart
  deriving DecidableEq, Repr

def Scope.holds (scope : Scope) (offer : LexerOffer) : Bool :=
  match scope with
  | anywhere => true
  | text => !offer.inTag
  | tag => offer.inTag
  | lineStart =>
    offer.position == 0 || offer.source.has (· == Byte.newline) (offer.position - 1)

inductive IdRef where
  | raw (id : UInt8)
  | named (owner name : String)
  deriving DecidableEq, Repr

def IdRef.resolve? (r : Registry) : IdRef → Option UInt8
  | raw id => some id
  | named owner name => r.lookup owner name

/-- How far a part of a scripted token run reaches. -/
inductive Extent where
  | take (length : Nat)
  /-- Up to the next occurrence of a text. -/
  | before (text : String)
  /-- Up to the end of the line. -/
  | line
  /-- As long as there are ASCII letters and digits. -/
  | alphanumeric
  deriving DecidableEq, Repr

def Extent.length? (s : Source) (cursor : Nat) : Extent → Option Nat
  | take length => some length
  | before text => (s.find (ascii text) cursor).map (· - cursor)
  | line => some (s.skipWhile (· != Byte.newline) cursor - cursor)
  | alphanumeric => some (s.skipWhile Byte.isAlphanum cursor - cursor)

structure Part where
  kind : IdRef
  extent : Extent
  deriving DecidableEq, Repr

/-- A lexer extension given by a description: it emits its parts one after another. -/
structure LexerScript where
  name : String
  priority : Int
  triggers : List UInt8
  types : List NewName
  /-- What the source has to start with at the offered position. -/
  lead : String
  scope : Scope
  parts : List Part
  /-- The answer after all parts, unless `minTokens` decides. -/
  claims : Bool
  /-- Claims if at least this many parts were emitted. -/
  minTokens : Option Nat

namespace LexerScript

/-- Emits the parts in order; gives up at a part that has no type or no end. -/
def emissions (offer : LexerOffer) : Nat → List Part → List Emission × Bool
  | _, [] => ([], true)
  | cursor, p :: rest =>
    match p.kind.resolve? offer.types, p.extent.length? offer.source cursor with
    | some id, some length =>
      let (es, finished) := emissions offer (min (cursor + length) offer.source.size) rest
      (⟨.ofId id, length⟩ :: es, finished)
    | _, _ => ([], false)

def extension (x : LexerScript) : LexerExtension where
  name := x.name
  priority := x.priority
  triggers := x.triggers
  types := x.types
  activates offer :=
    x.scope.holds offer && offer.source.startsWith offer.position (ascii x.lead)
  tokenize offer :=
    let (es, finished) := emissions offer offer.position x.parts
    (es, finished && x.minTokens.elim x.claims (· ≤ es.length))

end LexerScript

/-- A tree extension given by a description of the tokens it takes and the leaf it makes. -/
structure TreeScript where
  name : String
  priority : Int
  kinds : List NewName
  /-- Types of the current token; any extension type if empty. -/
  tokenTypes : List UInt8
  text : Option String
  /-- Type of the token before, which must not be empty. -/
  after : Option UInt8
  kind : Option (String × String)
  data : Int32
  tokenCount : Nat

namespace TreeScript

def acceptsCurrent (x : TreeScript) (s : Source) (t : Token) : Bool :=
  (if x.tokenTypes.isEmpty then t.kind.isExtension else x.tokenTypes.contains t.kind.id) &&
    x.text.all (t.text s == ·)

def acceptsPrevious (x : TreeScript) (offer : TreeOffer) : Bool :=
  x.after.all fun id =>
    0 < offer.position && (offer.tokens[offer.position - 1]?).any fun t =>
      t.start < t.stop && t.kind.id == id

def extension (x : TreeScript) : TreeExtension where
  name := x.name
  priority := x.priority
  kinds := x.kinds
  canHandle offer :=
    (offer.tokens[offer.position]?).any (x.acceptsCurrent offer.source) && x.acceptsPrevious offer
  handle offer :=
    match x.kind with
    | none => ⟨.text, x.data, x.tokenCount⟩
    | some (owner, name) =>
      match offer.kinds.lookup owner name with
      | some id => ⟨.ofId id, x.data, x.tokenCount⟩
      | none => ⟨.text, x.data, 0⟩

end TreeScript
end BladeTree
