import BladeTree.Document.Basic
import BladeTree.Text.LineIndex
import BladeTree.Text.Quoted

namespace BladeTree

/-- The text as a JSON string; only quotes, backslashes and controls are escaped. -/
def jsonString (s : String) : String :=
  "\"" ++ String.join (s.toList.map escape) ++ "\""
where
  escape (c : Char) : String :=
    if c = '"' then "\\\""
    else if c = '\\' then "\\\\"
    else if c = '\x08' then "\\b"
    else if c = '\x0c' then "\\f"
    else if c = '\n' then "\\n"
    else if c = '\r' then "\\r"
    else if c = '\t' then "\\t"
    else if c.toNat < 0x20 then
      "\\u00" ++ (if c.toNat < 0x10 then "0" else "") ++ Quoted.hex c.toNat
    else c.toString

namespace Document

variable (d : Document)

def tokenLine (t : Token) : String :=
  t.kind.nameIn d.options.tokenTypes ++ " " ++ toString t.start ++ ".." ++ toString t.stop ++ " " ++
    Quoted.text (t.text d.source) ++ "\n"

/-- A line for each token, then a line for each fault that the lexer found. -/
def tokenList : String :=
  String.join (d.tokens.toList.map d.tokenLine) ++
    String.join (d.lexerErrors.toList.map fun e =>
      "! " ++ e.message ++ "\n")

def tokenFields (index : LineIndex) (t : Token) : List (String × String) :=
  let place := index.lineCol t.start.toUInt32
  [("type", jsonString (t.kind.nameIn d.options.tokenTypes)), ("start", toString t.start),
    ("end", toString t.stop), ("line", toString (place.line + 1)),
    ("col", toString (place.col + 1)), ("text", jsonString (t.text d.source))]

def tokenJson : String :=
  let index := LineIndex.ofSource d.source
  let field := fun (key, value) => "    " ++ jsonString key ++ ": " ++ value
  let object := fun t =>
    "  \x7b\n" ++ ",\n".intercalate ((d.tokenFields index t).map field) ++ "\n  \x7d"
  match d.tokens.toList with
  | [] => "[]"
  | ts => "[\n" ++ ",\n".intercalate (ts.map object) ++ "\n]"

end Document
end BladeTree
