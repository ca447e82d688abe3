namespace BladeTree

def ascii (s : String) : List UInt8 :=
  s.toUTF8.data.toList

/-- Equality of names up to the case of ASCII letters. -/
def sameName (a b : String) : Bool :=
  a.toLower == b.toLower

namespace Byte

abbrev tab : UInt8 := 0x09
abbrev newline : UInt8 := 0x0A
abbrev formFeed : UInt8 := 0x0C
abbrev carriageReturn : UInt8 := 0x0D
abbrev space : UInt8 := 0x20
abbrev doubleQuote : UInt8 := 0x22
abbrev hash : UInt8 := 0x23
abbrev ampersand : UInt8 := 0x26
abbrev singleQuote : UInt8 := 0x27
abbrev openParen : UInt8 := 0x28
abbrev closeParen : UInt8 := 0x29
abbrev comma : UInt8 := 0x2C
abbrev hyphen : UInt8 := 0x2D
abbrev dot : UInt8 := 0x2E
abbrev slash : UInt8 := 0x2F
abbrev colon : UInt8 := 0x3A
abbrev lessThan : UInt8 := 0x3C
abbrev equals : UInt8 := 0x3D
abbrev greaterThan : UInt8 := 0x3E
abbrev question : UInt8 := 0x3F
abbrev atSign : UInt8 := 0x40
abbrev openBracket : UInt8 := 0x5B
abbrev backslash : UInt8 := 0x5C
abbrev closeBracket : UInt8 := 0x5D
abbrev underscore : UInt8 := 0x5F
abbrev backquote : UInt8 := 0x60
abbrev openBrace : UInt8 := 0x7B
abbrev pipe : UInt8 := 0x7C
abbrev closeBrace : UInt8 := 0x7D

def isUpper (b : UInt8) : Bool := 0x41 ≤ b && b ≤ 0x5A

def isLower (b : UInt8) : Bool := 0x61 ≤ b && b ≤ 0x7A

def isAlpha (b : UInt8) : Bool := isUpper b || isLower b

def isDigit (b : UInt8) : Bool := 0x30 ≤ b && b ≤ 0x39

def isAlphanum (b : UInt8) : Bool := isAlpha b || isDigit b

def isWord (b : UInt8) : Bool := isAlphanum b || b == underscore

def isTagName (b : UInt8) : Bool :=
  isAlphanum b || b == hyphen || b == underscore || b == colon || b == dot

def isSpace (b : UInt8) : Bool :=
  b == space || b == tab || b == newline || b == carriageReturn || b == formFeed

def isHorizontalSpace (b : UInt8) : Bool := b == space || b == tab

/-- A byte inside a character, after its first byte. -/
def isContinuation (b : UInt8) : Bool := 0x80 ≤ b && b < 0xC0

def toLower (b : UInt8) : UInt8 := if isUpper b then b + 0x20 else b

end Byte
end BladeTree
