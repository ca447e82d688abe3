import BladeTree.Document.View
import BladeTree.Proofs.Token.Lexer.Enclosed

namespace BladeTree

variable {o : ParseOptions} {s : Source} {e : Enclosure} {start stop size : Nat}

namespace Builder

variable {t : Tokenized} {b b₁ b₂ b₃ b₄ b₅ : Builder} {parent id : Nat}

/-! One construct whose end is there -/

theorem eatContent_eq {kind : TokenType} {text : String} (hat : b.isAt t kind)
    (htext : t.text b.pos = .ok text) (hblank : WhiteSpace.isBlank text = false)
    (hbump : b.bump t = .ok b₁) : b.eatContent t kind = .ok (false, b₁) := by
  simp only [eatContent, hat, htext, hblank, hbump, if_true, bind, Except.bind]
  rfl

theorem echo_eq {kind : NodeKind} {stopType : TokenType} {delimiter : String}
    (hstart : b.startIn parent kind = .ok (id, b₁)) (hopen : b₁.bump t = .ok b₂)
    (hcontent : b₂.eatContent t .echoContent = .ok (false, b₃))
    (hclose : b₃.eat t stopType = .ok (true, b₄)) (hfinish : b₄.finish id = .ok b₅) :
    b.echo t parent kind stopType delimiter = .ok b₅ := by
  simp only [echo, hstart, hopen, hcontent, hclose, hfinish, bind, Except.bind]
  rfl

def arena (e : Enclosure) (whole count : Nat) : Array FlatNode :=
  #[{ FlatNode.unlinked .document 0 with
      firstChild := some 1, lastChild := some 1, tokenCount := whole },
    { FlatNode.unlinked e.nodeKind 0 with parent := some root, tokenCount := count }]

def within (e : Enclosure) (pos : Nat) : Builder := { initial with pos, nodes := arena e 0 0 }

def behind (e : Enclosure) : Builder := { initial with pos := 3, nodes := arena e 0 3 }

theorem construct_echo {f : EchoFlavor} (hblank : WhiteSpace.isBlank (s.slice start stop) = false) :
    initial.construct ⟨o, s, Enclosure.tokens (.echo f) start stop size⟩ f.startType =
      .ok (behind (.echo f)) := by
  have hcontent : (within (.echo f) 1).eatContent
      ⟨o, s, Enclosure.tokens (.echo f) start stop size⟩ .echoContent =
        .ok (false, within (.echo f) 2) := eatContent_eq rfl rfl hblank rfl
  have hecho (delimiter : String) : initial.echo
      ⟨o, s, Enclosure.tokens (.echo f) start stop size⟩ root (Enclosure.nodeKind (.echo f))
        f.endType delimiter = .ok (behind (.echo f)) := by
    have hstart : initial.startIn root (Enclosure.nodeKind (.echo f)) =
        .ok (1, within (.echo f) 0) := rfl
    have hclose : (within (.echo f) 2).eat ⟨o, s, Enclosure.tokens (.echo f) start stop size⟩
        f.endType = .ok (true, within (.echo f) 3) := by
      cases f <;> rfl
    exact echo_eq hstart rfl hcontent hclose rfl
  cases f <;> exact hecho _

theorem construct_eq (he : e.looksAhead)
    (hblank : ∀ f, e = .echo f → WhiteSpace.isBlank (s.slice start stop) = false) :
    initial.construct ⟨o, s, e.tokens start stop size⟩ e.opening = .ok (behind e) := by
  cases e with
  | echo f => exact construct_echo (hblank f rfl)
  | bladeComment | comment => rfl
  | phpBlock | phpTag | verbatim => cases he

theorem build_eq (size : Nat) (ho : o.treeExtensions = [])
    (hread : initial.construct ⟨o, s, e.tokens start stop size⟩ e.opening = .ok (behind e)) :
    build ⟨o, s, e.tokens start stop size⟩ = .ok { behind e with nodes := arena e 3 3 } := by
  generalize ht : (⟨o, s, e.tokens start stop size⟩ : Tokenized) = t at hread ⊢
  have hsize : t.size = 3 := by rw [← ht]; rfl
  have hfirst : initial.current? t = some e.opening := by rw [← ht]; rfl
  have hleaf : initial.extensionLeaf? t = none := by
    rw [← ht]
    simp only [extensionLeaf?, ho, List.findSome?_nil]
  have hitem : initial.contentItem t = .ok (behind e) := by
    simp only [contentItem, hleaf, hfirst, hread]
  have hend : (behind e).items t = .ok (behind e) := by
    rw [items, hsize]
    exact dif_neg (Nat.lt_irrefl 3)
  have hitems : initial.items t = .ok (behind e) := by
    rw [items, hsize, dif_pos (show initial.pos < 3 by decide), hitem]
    exact hend
  simp only [build, hitems, hsize]
  rfl

end Builder

namespace Document

def single (o : ParseOptions) (s : Source) (e : Enclosure) (start stop : Nat) : Document :=
  ⟨⟨o, s, e.tokens start stop s.size⟩, #[], Builder.arena e 3 3, .empty, #[]⟩

variable {text content : String} {d : Document} {id : Nat} {f : EchoFlavor}

theorem parse_eq_single (hlexer : o.lexerExtensions = []) (htree : o.treeExtensions = [])
    (hlt : start < stop) (h : (Source.ofString text).Encloses start stop e)
    (hblank : ∀ f, e = .echo f →
      WhiteSpace.isBlank ((Source.ofString text).slice start stop) = false) :
    parse o text = .ok (single o (.ofString text) e start stop) := by
  have hlex := Lexer.lex_encloses hlexer hlt h
  have he : e.looksAhead := by
    cases e with
    | echo | bladeComment | comment => rfl
    | phpBlock | phpTag | verbatim => exact absurd h id
  have hbuild := Builder.build_eq (Source.ofString text).size htree
    (Builder.construct_eq he hblank)
  simp only [parse, hlex, Except.mapError, bind, Except.bind, hbuild]
  rfl

/-- The node is a closed construct with this content between its delimiters. -/
structure Closed (d : Document) (id : Nat) (e : Enclosure) (content : String) : Prop where
  kind : d.kind id = e.nodeKind
  opened : d.kind? (d.node id).tokenStart = some e.opening
  content : d.textOfKind? id e.content = some content
  closing : d.kind? ((d.node id).tokenEnd - 1) = some e.closing

theorem children_single : (single o s e start stop).children Builder.root = [1] := by
  have hfirst : ((single o s e start stop).node Builder.root).firstChild = some 1 := rfl
  have hnext : ((single o s e start stop).node 1).nextSibling = none := rfl
  simp only [children, hfirst, Option.elim_some]
  rw [siblingsFrom, hnext]

theorem closed_single : (single o s e start stop).Closed 1 e (s.slice start stop) where
  kind := rfl
  opened := rfl
  content := by
    rcases e with ⟨f⟩ | _ | _ | _ | _ | _
    · cases f <;> rfl
    all_goals rfl
  closing := rfl

/-- A text that is a single construct is parsed as one node, and there is nothing to report. -/
theorem exists_closed (hlexer : o.lexerExtensions = []) (htree : o.treeExtensions = [])
    (hlt : start < stop) (h : (Source.ofString text).Encloses start stop e)
    (hslice : (Source.ofString text).slice start stop = content)
    (hblank : ∀ f, e = .echo f → WhiteSpace.isBlank content = false) :
    ∃ d id, parse o text = .ok d ∧ d.children Builder.root = [id] ∧ d.Closed id e content ∧
      d.diagnostics = #[] ∧ d.lexerErrors = #[] := by
  subst hslice
  exact ⟨_, 1, parse_eq_single hlexer htree hlt h hblank, children_single, closed_single, rfl, rfl⟩

namespace Closed

variable (h : d.Closed id (.echo f) content)
include h

theorem isClosedEcho : d.isClosedEcho id := by
  have hcount : 0 < (d.node id).tokenCount := by
    by_contra hzero
    have hempty : d.tokens.extract (d.node id).tokenStart (d.node id).tokenEnd = #[] := by
      rw [Array.extract_eq_empty_iff]
      unfold FlatNode.tokenEnd
      omega
    have hcontent := h.content
    simp [textOfKind?, tokenOfKind?, hempty] at hcontent
  simp only [Document.isClosedEcho, h.closing, hcount]
  cases f <;> rfl

theorem echoFlavor : d.echoFlavor id = f := by
  simp only [Document.echoFlavor, h.kind]
  cases f <;> rfl

theorem echoExpression : d.echoExpression id = WhiteSpace.trim content := by
  have hcontent : d.textOfKind? id .echoContent = some content := h.content
  simp only [Document.echoExpression, hcontent, Option.elim_some]

end Closed
end Document
end BladeTree
