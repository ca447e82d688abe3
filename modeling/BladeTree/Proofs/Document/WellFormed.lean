import BladeTree.Proofs.Document.Descendants
import BladeTree.Proofs.Document.Parse
import Mathlib

namespace BladeTree
namespace Document

/-- The arena is a tree that is numbered in pre-order. Node 0 is the document over all tokens, and
every link is the nearest id that the parents allow. -/
structure WellFormed (d : Document) : Prop where
  nonempty : 0 < d.nodes.size
  document : d.kind 0 = .document
  covers : (d.node 0).tokenStart = 0 ∧ (d.node 0).tokenEnd = d.size
  orphan : ∀ id, id < d.nodes.size → ((d.node id).parent = none ↔ id = 0)
  parent : ∀ c p, (d.node c).parent = some p → p < c ∧ c < d.nodes.size
  firstChild : ∀ p, LeastOf (fun c => (d.node c).parent = some p) (d.node p).firstChild
  lastChild : ∀ p, GreatestOf (fun c => (d.node c).parent = some p) (d.node p).lastChild
  nextSibling : ∀ c, LeastOf
    (fun x => c < x ∧ ∃ p, (d.node c).parent = some p ∧ (d.node x).parent = some p)
    (d.node c).nextSibling
  prevSibling : ∀ c, GreatestOf
    (fun x => x < c ∧ ∃ p, (d.node c).parent = some p ∧ (d.node x).parent = some p)
    (d.node c).prevSibling
  bothWays : ∀ c x, (d.node c).nextSibling = some x ↔ (d.node x).prevSibling = some c
  inside : ∀ c p, (d.node c).parent = some p →
    (d.node p).tokenStart ≤ (d.node c).tokenStart ∧ (d.node c).tokenEnd ≤ (d.node p).tokenEnd
  apart : ∀ c x, (d.node c).nextSibling = some x →
    (d.node c).tokenStart ≤ (d.node c).tokenEnd ∧ (d.node c).tokenEnd ≤ (d.node x).tokenStart
  descendants : ∀ id, id < d.nodes.size →
    d.descendants id = List.range' (id + 1) (d.subtreeSize id) ∧
      d.Iterates id (d.node id).firstChild (List.range' (id + 1) (d.subtreeSize id))

variable {o : ParseOptions} {text : String} {d : Document}

theorem wellFormed_of_built {b : Builder} (h : Builder.Built d.toTokenized b)
    (hnodes : d.nodes = b.nodes) : d.WellFormed := by
  obtain ⟨hgrowing, hdocument, hcovers⟩ := h
  rw [← hnodes] at hgrowing hdocument hcovers
  have hl : d.outline.Linked := hgrowing.linked
  refine ⟨hl.nonempty, hdocument, ⟨hgrowing.origin, hcovers⟩, fun id hid => ⟨fun hnone => ?_, ?_⟩,
    hl.below, hl.first, hl.last, hl.next, hl.prev, hl.next_eq_some_iff, fun c p hp => ?_,
    fun c x hx => ⟨hgrowing.ordered c, hgrowing.apart c x hx⟩,
    fun id hid => descendants_eq hl hgrowing.preordered hid⟩
  · by_contra hne
    obtain ⟨p, hp⟩ := hl.rooted id (Nat.pos_of_ne_zero hne) hid
    cases hnone.symm.trans hp
  · rintro rfl
    exact hl.root
  · exact ⟨hgrowing.starts c p hp, hgrowing.inside c p hp List.not_mem_nil⟩

/-- Every document that was read is a tree in pre-order. -/
theorem wellFormed_of_parse (h : parse o text = .ok d) : d.WellFormed := by
  obtain ⟨lexed, b, -, hbuilt, rfl⟩ := exists_built_of_parse h
  exact wellFormed_of_built hbuilt rfl

theorem wellFormed_parse_nested : ∃ d,
    parse (.ofDirectives ["if", "endif"]) "<ul>@if(a)<br></p>" = .ok d ∧ d.WellFormed := by
  have hread : (parse (.ofDirectives ["if", "endif"]) "<ul>@if(a)<br></p>").toBool := by cbv
  obtain ⟨d, hd⟩ := exists_eq_ok_of_toBool hread
  exact ⟨d, hd, wellFormed_of_parse hd⟩

theorem exists_wellFormed_of_parse (h : parse o text = .ok d) :
    ∃ (lexed : Lexed) (b : Builder), d.WellFormed ∧
      Builder.build (lexed.tokenized o (.ofString text)) = .ok b ∧
      d = ⟨lexed.tokenized o (.ofString text), lexed.errors, b.nodes, b.metadata,
        b.diagnostics⟩ := by
  obtain ⟨lexed, b, -, hb, hd⟩ := exists_build_of_parse h
  obtain ⟨_, _, -, hbuilt, hd'⟩ := exists_built_of_parse h
  have hw : d.WellFormed := by
    subst hd'
    exact wellFormed_of_built hbuilt rfl
  exact ⟨lexed, b, hw, hb, hd⟩

end Document
end BladeTree
