namespace BladeTree

def isWordChar (c : Char) : Bool := c.isAlphanum || c == '_'

/-- The text ends in `@name`. An `@` right after a word, as in a mail address, starts no name. -/
def endsInDirectiveName (text : String) : Bool :=
  let tail := text.toList.reverse
  match (tail.takeWhile isWordChar).getLast?, tail.dropWhile isWordChar with
  | some first, '@' :: before => (first.isAlpha || first == '_') && !before.head?.any isWordChar
  | _, _ => false

/-- Right after a directive name, such a text would be read as more of the name or as its
arguments. -/
def extendsDirective (text : String) : Bool :=
  text.toList.head?.any fun c => c == '(' || isWordChar c

structure Piece where
  text : String
  /-- An added directive, to be kept apart from the text beside it. -/
  isDirective : Bool
  deriving DecidableEq, Repr

namespace Piece

def plain (text : String) : Piece := ⟨text, false⟩

def directive (text : String) : Piece := ⟨text, true⟩

end Piece

structure Output where
  text : String
  /-- The last piece is an added directive that ends in its name. -/
  endsInName : Bool
  deriving DecidableEq, Repr

namespace Output

def empty : Output := ⟨"", false⟩

/-- A space goes before the piece, since without it two names or a name and its follower would
be read as one. -/
def needsSpace (o : Output) (p : Piece) : Bool :=
  p.isDirective && endsInDirectiveName o.text || o.endsInName && extendsDirective p.text

def push (o : Output) (p : Piece) : Output :=
  if p.text.isEmpty then o
  else ⟨o.text ++ (if o.needsSpace p then " " else "") ++ p.text,
    p.isDirective && endsInDirectiveName p.text⟩

end Output

def Piece.join (ps : List Piece) : String := (ps.foldl Output.push .empty).text

end BladeTree
