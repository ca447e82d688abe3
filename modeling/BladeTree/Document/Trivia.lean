import BladeTree.Text.WhiteSpace

namespace BladeTree

inductive TriviaKind where
  | leadingWhitespace
  | word
  | innerWhitespace
  | trailingWhitespace
  deriving DecidableEq, Repr

/-- A run of white space or of other characters, with its byte offset in the text. -/
structure Trivia where
  kind : TriviaKind
  text : String
  offset : Nat
  deriving DecidableEq, Repr

namespace Trivia

/-- Maximal runs of characters that are all white space or all not. -/
def runs (text : List Char) : List (List Char) :=
  text.splitBy fun a b => WhiteSpace.contains a == WhiteSpace.contains b

/-- White space before everything else leads, also when nothing follows it. -/
def kindOf (run : List Char) (isFirst isLast : Bool) : TriviaKind :=
  if !run.all WhiteSpace.contains then .word
  else if isFirst then .leadingWhitespace
  else if isLast then .trailingWhitespace
  else .innerWhitespace

def place (isFirst : Bool) (offset : Nat) : List (List Char) → List Trivia
  | [] => []
  | run :: rest =>
    let text := String.ofList run
    ⟨kindOf run isFirst rest.isEmpty, text, offset⟩ ::
      place false (offset + text.utf8ByteSize) rest

def classify (text : String) : List Trivia := place true 0 (runs text.toList)

end Trivia
end BladeTree
