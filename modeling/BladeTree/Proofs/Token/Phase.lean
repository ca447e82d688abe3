import BladeTree.Node.Basic
import BladeTree.Token.Mode
import Mathlib.Data.Option.Basic

namespace BladeTree

/-- The constructs of a token that opens them, content and a token that closes them. The source may
end before the last two. -/
inductive Enclosure where
  | echo (flavor : EchoFlavor)
  | bladeComment
  | comment
  | phpBlock
  | phpTag
  | verbatim
  deriving DecidableEq, Repr

def TokenType.continues : TokenType → Bool
  | whitespace | slash | tagName | genericArgs | equals | quote | attributeValue | directiveArgs =>
    true
  | _ => false

/-- What lies between two constructs: content, or the inside of a tag. -/
inductive Zone where
  | content
  | startTag
  | closingTag
  deriving DecidableEq, Repr

/-- Where the text goes on after what a start tag may hold. -/
def Zone.held : Zone → Zone
  | startTag => startTag
  | content | closingTag => content

namespace Enclosure

def opening : Enclosure → TokenType
  | echo flavor => flavor.startType
  | bladeComment => .bladeCommentStart
  | comment => .commentStart
  | phpBlock => .phpBlockStart
  | phpTag => .phpTagStart
  | verbatim => .verbatimStart

def content : Enclosure → TokenType
  | echo _ => .echoContent
  | bladeComment => .bladeCommentContent
  | comment => .commentText
  | phpBlock | phpTag => .phpContent
  | verbatim => .text

def closing : Enclosure → TokenType
  | echo flavor => flavor.endType
  | bladeComment => .bladeCommentEnd
  | comment => .commentEnd
  | phpBlock => .phpBlockEnd
  | phpTag => .phpTagEnd
  | verbatim => .verbatimEnd

def nodeKind : Enclosure → NodeKind
  | echo .escaped => .echo
  | echo .raw => .rawEcho
  | echo .triple => .tripleEcho
  | bladeComment => .bladeComment
  | comment => .comment
  | phpBlock => .phpBlock
  | phpTag => .phpTag
  | verbatim => .verbatim

def all : List Enclosure :=
  [echo .escaped, echo .raw, echo .triple, bladeComment, comment, phpBlock, phpTag, verbatim]

def ofOpening? (kind : TokenType) : Option Enclosure := all.find? (·.opening = kind)

/-- Where the text goes on after the construct: a start tag may hold echoes and comments, all others
show that it was broken off. -/
def resumes : Enclosure → Zone → Zone
  | echo _, zone | bladeComment, zone => zone.held
  | _, _ => .content

theorem resumes_content (e : Enclosure) : e.resumes .content = .content := by
  cases e <;> rfl

def of? : TokenType → Option Enclosure
  | .echoStart | .echoEnd => some (echo .escaped)
  | .rawEchoStart | .rawEchoEnd => some (echo .raw)
  | .tripleEchoStart | .tripleEchoEnd => some (echo .triple)
  | .bladeCommentStart | .bladeCommentEnd => some bladeComment
  | .commentStart | .commentEnd => some comment
  | .phpBlockStart | .phpBlockEnd => some phpBlock
  | .phpTagStart | .phpTagEnd => some phpTag
  | .verbatimStart | .verbatimEnd => some verbatim
  | _ => none

theorem of?_eq (e : Enclosure) :
    of? e.opening = some e ∧ of? e.content = none ∧ of? e.closing = some e := by
  rcases e with ⟨flavor⟩ | _ | _ | _ | _ | _
  · cases flavor <;> exact ⟨rfl, rfl, rfl⟩
  all_goals exact ⟨rfl, rfl, rfl⟩

theorem nodeKind_ne (e : Enclosure) :
    e.nodeKind ≠ .document ∧ e.nodeKind ≠ .text ∧ e.nodeKind ≠ .element := by
  rcases e with ⟨flavor⟩ | _ | _ | _ | _ | _
  · cases flavor <;> exact ⟨nofun, nofun, nofun⟩
  all_goals exact ⟨nofun, nofun, nofun⟩

theorem ofOpening?_opening (e : Enclosure) : ofOpening? e.opening = some e := by
  rcases e with ⟨flavor⟩ | _ | _ | _ | _ | _
  · cases flavor <;> rfl
  all_goals rfl

end Enclosure

/-- What was read last, as far as it matters for what may follow. -/
inductive Phase where
  | between (zone : Zone)
  /-- A construct has begun, after which the text goes on in `zone`. -/
  | opened (e : Enclosure) (zone : Zone)
  | filled (e : Enclosure) (zone : Zone)
  /-- After a `<`, a `</` and the name of a start tag. -/
  | bracket
  | slash
  | named
  /-- Within an attribute: after its name, white space after it, the equals sign, white space after
  that, the opening quote and the value after the quote. -/
  | attributeNamed
  | attributeSpaced
  | equals
  | equalsSpaced
  | quoted
  | quotedValue
  /-- After the name of a directive and white space after it, unless arguments follow. -/
  | directive (zone : Zone)
  | directiveSpaced (zone : Zone)
  deriving DecidableEq, Repr

/-- The construct that a token begins in a zone, if it may stand there. A `<` or what cannot be in
a tag breaks the tag off. -/
def Zone.next? (zone : Zone) (kind : TokenType) : Option Phase :=
  match Enclosure.ofOpening? kind with
  | some e => some (.opened e (e.resumes zone))
  | none =>
    match zone, kind with
    | _, .text => some (.between zone)
    | .startTag, .whitespace | .closingTag, .whitespace => some (.between zone)
    | .startTag, .attributeName => some .attributeNamed
    | .startTag, .greaterThan | .startTag, .selfClose | .closingTag, .greaterThan =>
      some (.between .content)
    | zone, .directive => some (.directive zone.held)
    | _, .lessThan => some .bracket
    | _, .bogusComment | _, .doctype | _, .cdata => some (.between .content)
    | _, _ => none

namespace Phase

/-- The zone in which the text goes on if the construct that was read last is over. -/
def zone? : Phase → Option Zone
  | between zone | directive zone => some zone
  | named | attributeNamed | attributeSpaced | equals | equalsSpaced => some .startTag
  | directiveSpaced .startTag => some .startTag
  | _ => none

/-- The phase after one more token of the construct that was read last. -/
def continue? : Phase → TokenType → Option Phase
  | opened e zone, kind =>
    if kind = e.content then some (filled e zone)
    else if kind = e.closing then some (between zone) else none
  | filled e zone, kind => if kind = e.closing then some (between zone) else none
  | bracket, .slash => some slash
  | bracket, .tagName => some named
  | slash, .tagName => some (between .closingTag)
  | named, .genericArgs => some (between .startTag)
  | attributeNamed, .whitespace => some attributeSpaced
  | attributeNamed, .equals | attributeSpaced, .equals => some equals
  | equals, .whitespace => some equalsSpaced
  | equals, .quote | equalsSpaced, .quote => some quoted
  | equals, .attributeValue | equalsSpaced, .attributeValue => some (between .startTag)
  | quoted, .attributeValue => some quotedValue
  | quoted, .quote | quotedValue, .quote => some (between .startTag)
  | directive zone, .whitespace => some (directiveSpaced zone)
  | directive zone, .directiveArgs | directiveSpaced zone, .directiveArgs =>
    some (between zone)
  | _, _ => none

def next? (p : Phase) (kind : TokenType) : Option Phase :=
  (p.continue? kind).or (p.zone?.bind (·.next? kind))

def isFinal : Phase → Bool
  | opened _ _ | filled _ _ | quoted | quotedValue => true
  | p => p.zone?.isSome

def after? : Phase → List TokenType → Option Phase
  | p, [] => some p
  | p, kind :: kinds => (p.next? kind).bind (·.after? kinds)

/-- These tokens may follow up to the end of the source. -/
def Accepts (p : Phase) (kinds : List TokenType) : Prop :=
  ∃ q, p.after? kinds = some q ∧ q.isFinal

variable {p q : Phase} {zone : Zone} {kind : TokenType} {kinds kinds' : List TokenType}

theorem next?_of_continue? (h : p.continue? kind = some q) : p.next? kind = some q := by
  rw [next?, h, Option.some_or]

theorem next?_of_zone? (hc : p.continue? kind = none) (h : p.zone? = some zone) :
    p.next? kind = zone.next? kind := by
  rw [next?, hc, Option.none_or, h, Option.bind_some]

theorem isFinal_of_zone? (h : p.zone? = some zone) : p.isFinal := by
  unfold isFinal
  split
  · rfl
  · rfl
  · rfl
  · rfl
  · rw [h]
    rfl

theorem continue?_eq_none (h : p.zone? = some zone) (hk : kind.continues = false) :
    p.continue? kind = none := by
  cases p with
  | opened | filled => cases h
  | _ => cases kind <;> first | rfl | cases hk

/-- A token that only begins constructs follows wherever it may stand in the zone. -/
theorem next?_of_continues (h : p.zone? = some zone) (hk : kind.continues = false) :
    p.next? kind = zone.next? kind := next?_of_zone? (continue?_eq_none h hk) h

theorem next?_text (h : p.zone? = some zone) : p.next? .text = some (.between zone) := by
  rw [next?_of_continues h rfl]
  cases zone <;> rfl

theorem next?_whitespace (h : p.zone? = some .startTag) :
    ∃ q, p.next? .whitespace = some q ∧ q.zone? = some .startTag := by
  cases p with
  | between | directive =>
      obtain rfl := Option.some.inj h
      exact ⟨_, rfl, rfl⟩
  | directiveSpaced zone =>
      cases zone with
      | startTag => exact ⟨_, rfl, rfl⟩
      | _ => cases h
  | named | attributeNamed | attributeSpaced | equals | equalsSpaced => exact ⟨_, rfl, rfl⟩
  | _ => cases h

theorem continues_opening (e : Enclosure) : e.opening.continues = false := by
  rcases e with ⟨flavor⟩ | _ | _ | _ | _ | _
  · cases flavor <;> rfl
  all_goals rfl

theorem next?_opening (h : p.zone? = some zone) (e : Enclosure) :
    p.next? e.opening = some (.opened e (e.resumes zone)) := by
  rw [next?_of_continues h (continues_opening e)]
  unfold Zone.next?
  rw [Enclosure.ofOpening?_opening]

theorem continue?_content (e : Enclosure) (zone : Zone) :
    (opened e zone).continue? e.content = some (.filled e zone) := if_pos rfl

theorem continue?_closing (e : Enclosure) (zone : Zone) :
    (opened e zone).continue? e.closing = some (.between zone) ∧
      (filled e zone).continue? e.closing = some (.between zone) := by
  refine ⟨?_, if_pos rfl⟩
  rcases e with ⟨flavor⟩ | _ | _ | _ | _ | _
  · cases flavor <;> rfl
  all_goals rfl

theorem eq_of_next? {e : Enclosure} {zone : Zone} :
    ((opened e zone).next? kind = some q → kind = e.content ∨ kind = e.closing) ∧
      ((filled e zone).next? kind = some q → kind = e.closing) := by
  simp only [next?, continue?, zone?, Option.bind_none, Option.or_none]
  refine ⟨fun h => ?_, fun h => ?_⟩
  · split at h
    · exact .inl ‹_›
    · split at h
      · exact .inr ‹_›
      · cases h
  · split at h
    · assumption
    · cases h

theorem after?_append : p.after? (kinds ++ kinds') = (p.after? kinds).bind (·.after? kinds') := by
  induction kinds generalizing p with
  | nil => rfl
  | cons kind kinds ih =>
      simp only [List.cons_append, after?]
      cases p.next? kind with
      | none => rfl
      | some q => exact ih

theorem after?_concat (h : p.after? kinds = some q) :
    p.after? (kinds ++ [kind]) = q.next? kind := by
  rw [after?_append, h, Option.bind_some]
  exact Option.bind_fun_some (q.next? kind)

theorem accepts_cons :
    p.Accepts (kind :: kinds) ↔ ∃ q, p.next? kind = some q ∧ q.Accepts kinds := by
  unfold Accepts
  rw [after?]
  cases p.next? kind with
  | none => simp
  | some q => simp

end Phase
end BladeTree
