import BladeTree.Registry
import BladeTree.Text.Source

namespace BladeTree

inductive TokenType where
  | text
  | whitespace
  | lessThan
  | slash
  | tagName
  | genericArgs
  | greaterThan
  | selfClose
  | attributeName
  | equals
  | quote
  | attributeValue
  | echoStart
  | echoEnd
  | rawEchoStart
  | rawEchoEnd
  | tripleEchoStart
  | tripleEchoEnd
  | echoContent
  | bladeCommentStart
  | bladeCommentContent
  | bladeCommentEnd
  | commentStart
  | commentText
  | commentEnd
  | bogusComment
  | doctype
  | cdata
  | directive
  | directiveArgs
  | phpBlockStart
  | phpContent
  | phpBlockEnd
  | phpTagStart
  | phpTagEnd
  | verbatimStart
  | verbatimEnd
  /-- Ids `37 … 127`, which no construct uses. -/
  | unassigned (n : Fin 91)
  /-- Ids `128 … 255`. -/
  | extension (n : Fin 128)
  deriving DecidableEq, Repr

namespace TokenType

/-- The types of the language's own constructs, in the order of their ids, with their names. -/
def builtins : List (TokenType × String) := [
  (text, "TEXT"), (whitespace, "WHITESPACE"), (lessThan, "LESS_THAN"), (slash, "SLASH"),
  (tagName, "TAG_NAME"), (genericArgs, "GENERIC_ARGS"), (greaterThan, "GREATER_THAN"),
  (selfClose, "SELF_CLOSE"), (attributeName, "ATTRIBUTE_NAME"), (equals, "EQUALS"),
  (quote, "QUOTE"), (attributeValue, "ATTRIBUTE_VALUE"), (echoStart, "ECHO_START"),
  (echoEnd, "ECHO_END"), (rawEchoStart, "RAW_ECHO_START"), (rawEchoEnd, "RAW_ECHO_END"),
  (tripleEchoStart, "TRIPLE_ECHO_START"), (tripleEchoEnd, "TRIPLE_ECHO_END"),
  (echoContent, "ECHO_CONTENT"), (bladeCommentStart, "BLADE_COMMENT_START"),
  (bladeCommentContent, "BLADE_COMMENT_CONTENT"), (bladeCommentEnd, "BLADE_COMMENT_END"),
  (commentStart, "COMMENT_START"), (commentText, "COMMENT_TEXT"), (commentEnd, "COMMENT_END"),
  (bogusComment, "BOGUS_COMMENT"), (doctype, "DOCTYPE"), (cdata, "CDATA"),
  (directive, "DIRECTIVE"), (directiveArgs, "DIRECTIVE_ARGS"),
  (phpBlockStart, "PHP_BLOCK_START"), (phpContent, "PHP_CONTENT"),
  (phpBlockEnd, "PHP_BLOCK_END"), (phpTagStart, "PHP_TAG_START"), (phpTagEnd, "PHP_TAG_END"),
  (verbatimStart, "VERBATIM_START"), (verbatimEnd, "VERBATIM_END")]

def id : TokenType → UInt8
  | unassigned n => 37 + n.val.toUInt8
  | extension n => 128 + n.val.toUInt8
  | t => (builtins.findIdx (·.1 == t)).toUInt8

def ofId (id : UInt8) : TokenType :=
  let n := id.toNat
  match builtins[n]? with
  | some (t, _) => t
  | none =>
    if n < 128 then unassigned (Fin.ofNat 91 (n - 37)) else extension (Registry.extensionPlace n)

def builtinName? (t : TokenType) : Option String := builtins.lookup t

def isExtension : TokenType → Bool
  | extension _ => true
  | _ => false

def isEchoStart : TokenType → Bool
  | echoStart | rawEchoStart | tripleEchoStart => true
  | _ => false

def isEchoEnd : TokenType → Bool
  | echoEnd | rawEchoEnd | tripleEchoEnd => true
  | _ => false

def bareName (t : TokenType) : String :=
  t.builtinName?.getD s!"EXTENSION({t.id})"

/-- The name under which a type is shown, given the registered ones. -/
def nameIn (t : TokenType) (registry : Registry) : String :=
  t.builtinName?.getD <| ((registry.get? t.id).map (·.display)).getD t.bareName

end TokenType

structure Token where
  kind : TokenType
  start : Nat
  stop : Nat
  deriving DecidableEq, Repr

def Token.text (t : Token) (s : Source) : String := s.slice t.start t.stop

def Token.concat (s : Source) (tokens : Array Token) : String :=
  tokens.foldl (fun out t => out ++ t.text s) ""

end BladeTree
