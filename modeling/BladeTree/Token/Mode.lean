import BladeTree.Token.Basic
import BladeTree.Token.Code

namespace BladeTree

/-- The three kinds of interpolation. -/
inductive EchoFlavor where
  | escaped
  | raw
  | triple
  deriving DecidableEq, Repr

namespace EchoFlavor

def opening : EchoFlavor → String
  | escaped => "\x7b\x7b"
  | raw => "\x7b!!"
  | triple => "\x7b\x7b\x7b"

def closing : EchoFlavor → String
  | escaped => "\x7d\x7d"
  | raw => "!!\x7d"
  | triple => "\x7d\x7d\x7d"

def startType : EchoFlavor → TokenType
  | escaped => .echoStart
  | raw => .rawEchoStart
  | triple => .tripleEchoStart

def endType : EchoFlavor → TokenType
  | escaped => .echoEnd
  | raw => .rawEchoEnd
  | triple => .tripleEchoEnd

def width : EchoFlavor → Nat
  | escaped => 2
  | _ => 3

theorem length_ascii_opening (f : EchoFlavor) : (ascii f.opening).length = f.width := by
  cases f <;> decide

theorem length_ascii_closing (f : EchoFlavor) : (ascii f.closing).length = f.width := by
  cases f <;> decide

end EchoFlavor

/-- Elements whose content holds no markup. -/
inductive RawText where
  | script
  | style
  | textarea
  | title
  deriving DecidableEq, Repr

namespace RawText

def all : List RawText := [script, style, textarea, title]

def tagName : RawText → String
  | script => "script"
  | style => "style"
  | textarea => "textarea"
  | title => "title"

def ofTag? (name : String) : Option RawText := all.find? (sameName ·.tagName name)

/-- The language of the content, if its strings and comments hide everything else. -/
def flavor? : RawText → Option CodeFlavor
  | script => some .script
  | style => some .style
  | textarea | title => none

end RawText

/-- What the lexer is in the middle of. -/
inductive Mode where
  | data
  | beforeAttributeName
  | attributeName
  | afterAttributeName
  | beforeAttributeValue
  | attributeValueQuoted (quote : UInt8)
  | attributeValueUnquoted
  | closingTag
  | echoContent (flavor : EchoFlavor)
  | directiveArgs
  | rawText (kind : RawText)
  | verbatim
  | phpBlock
  | phpTag
  deriving DecidableEq, Repr

def Mode.inTag : Mode → Bool
  | beforeAttributeName | attributeName | afterAttributeName | beforeAttributeValue
  | attributeValueQuoted _ | attributeValueUnquoted => true
  | data | closingTag | echoContent _ | directiveArgs | rawText _ | verbatim | phpBlock
  | phpTag => false

/-- Extensions are asked in text and between attributes. -/
def Mode.asksExtensions : Mode → Bool
  | data | beforeAttributeName => true
  | _ => false

end BladeTree
