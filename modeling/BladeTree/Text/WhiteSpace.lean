namespace BladeTree.WhiteSpace

def contains (c : Char) : Bool :=
  let n := c.toNat
  (0x09 ≤ n && n ≤ 0x0D) || n == 0x20 || n == 0x85 || n == 0xA0 || n == 0x1680 ||
    (0x2000 ≤ n && n ≤ 0x200A) || n == 0x2028 || n == 0x2029 || n == 0x202F || n == 0x205F ||
    n == 0x3000

def trimStart (s : String) : String :=
  String.ofList (s.toList.dropWhile contains)

def trimEnd (s : String) : String :=
  String.ofList (s.toList.reverse.dropWhile contains).reverse

def trim (s : String) : String := trimEnd (trimStart s)

def isBlank (s : String) : Bool := s.toList.all contains

end BladeTree.WhiteSpace
