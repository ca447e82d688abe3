import BladeTree.Proofs.Document.Parse
import BladeTree.Proofs.Token.Lexer.Phased
import BladeTree.Proofs.Tree.Delimiters
import Mathlib

namespace BladeTree
namespace Document

variable {o : ParseOptions} {text : String} {d : Document}

def HasToken (d : Document) (id i : Nat) : Prop :=
  (d.node id).tokenStart ≤ i ∧ i < (d.node id).tokenEnd

/-- Without extensions nodes of text hold nothing but text, and what opens or closes a construct is
in a node of the construct that begins with an opening token. -/
theorem delimiters_of_parse (hlexer : o.lexerExtensions = []) (htree : o.treeExtensions = [])
    (h : parse o text = .ok d) :
    (∀ id i, d.kind id = .text → d.HasToken id i → d.kind? i = some .text) ∧
      ∀ (e : Enclosure) (i : Nat), d.kind? i = some e.opening ∨ d.kind? i = some e.closing →
        ∃ id, d.kind id = e.nodeKind ∧ d.HasToken id i ∧
          d.kind? (d.node id).tokenStart = some e.opening := by
  obtain ⟨lexed, b, -, hb, hd⟩ := exists_build_of_parse h
  have hnodes : d.nodes = b.nodes := by rw [hd]
  have ht : d.toTokenized = lexed.tokenized o (.ofString text) := by rw [hd]
  have hoptions : d.options = o := by
    rw [ht]
    rfl
  rw [← ht] at hb
  have hfollows : d.Follows (.between .content) 0 := accepts_of_lex hlexer (lex_of_parse h)
  obtain ⟨hfiled, hpos⟩ := Builder.filed_build (hoptions ▸ htree) hfollows b hb
  have hslot (id : Nat) : d.node id = slot b.nodes id := by
    unfold node
    rw [hnodes]
    rfl
  refine ⟨fun id i hk hi => ?_, fun e i hi => ?_⟩
  · unfold kind at hk
    unfold HasToken at hi
    rw [hslot] at hk hi
    exact (hfiled.text id hk).2 i hi.1 hi.2
  · obtain ⟨hopening, -, hclosing⟩ := e.of?_eq
    have hof : ∃ kind, d.kind? i = some kind ∧ Enclosure.of? kind = some e :=
      hi.elim (fun hi => ⟨_, hi, hopening⟩) fun hi => ⟨_, hi, hclosing⟩
    obtain ⟨kind, hk, he⟩ := hof
    have hlt : i < b.pos := hpos ▸ Tokenized.lt_size_of_kind? hk
    obtain ⟨id, hid⟩ := hfiled.delimiter i kind e hlt hk he
    refine ⟨id, ?_, ?_, ?_⟩
    · unfold Document.kind
      rw [hslot]
      exact hid.kind
    · unfold HasToken
      rw [hslot]
      exact ⟨hid.start, hid.stop⟩
    · rw [hslot]
      exact hid.opens

theorem delimiters_parse_tag : ∃ d,
    parse (.ofDirectives ["if", "endif"])
      "<p \x7b\x7b $a \x7d\x7d <b" = .ok d ∧ d.kind? 5 = some .echoEnd ∧
      (∀ id i, d.kind id = .text → d.HasToken id i → d.kind? i = some .text) ∧
      ∃ id, d.kind id = .echo ∧ d.HasToken id 5 ∧
        d.kind? (d.node id).tokenStart = some .echoStart := by
  have hread : (parse (.ofDirectives ["if", "endif"])
      "<p \x7b\x7b $a \x7d\x7d <b").toOption.bind (·.kind? 5) = some .echoEnd := by cbv
  obtain ⟨d, hd, hk⟩ := Option.bind_eq_some_iff.1 hread
  have hparse := eq_ok_of_toOption hd
  obtain ⟨htext, hdelimiter⟩ := delimiters_of_parse rfl rfl hparse
  exact ⟨d, hparse, hk, htext, hdelimiter (.echo .escaped) 5 (.inr hk)⟩

end Document
end BladeTree
