import BladeTree.Proofs.Document.ElementName
import BladeTree.Proofs.OptionalTag
import BladeTree.Proofs.Tree.Implied
import BladeTree.Proofs.Tree.Siblings

namespace BladeTree
namespace Document

variable {o : ParseOptions} {text : String} {d : Document} {id p c : Nat}

theorem WellFormed.elementName_eq (hw : d.WellFormed) {b : Builder} {name : String}
    (hnodes : d.nodes = b.nodes) (h : b.Titled d.toTokenized id name) :
    d.kind id = .element ∧ d.elementName id = name := by
  obtain ⟨hkind, htext, hlt, -, hname⟩ := h
  rw [← hnodes] at hkind htext hlt hname
  exact ⟨hkind, Except.ok.inj ((hw.text_elementName hlt hname).symm.trans htext)⟩

/-- An end that was implied by a sibling or by the end of the parent is that of an element whose end
tag may be left out, and the sibling is the element after it that its rule lists. -/
theorem optionalTag_of_parse (h : parse o text = .ok d) {reason : ClosedBy}
    (hclosed : d.closedBy? id = some reason) (himplied : reason = .sibling ∨ reason = .parentEnd) :
    d.kind id = .element ∧
      ∃ rule, OptionalTag.find? (d.elementName id) = some rule ∧
        (reason = .sibling → ∃ next, (d.node id).nextSibling = some next ∧
          d.kind next = .element ∧ listsTag rule.closedBySiblings (d.elementName next)) := by
  obtain ⟨lexed, b, hw, hb, hd⟩ := exists_wellFormed_of_parse h
  have hnodes : d.nodes = b.nodes := by rw [hd]
  have hreason : b.metadata.closedBy? id = some reason := by
    rw [← hclosed, hd]
    rfl
  have ht : d.toTokenized = lexed.tokenized o (.ofString text) := by rw [hd]
  have hjustified := Builder.justified_build (lexed.tokenized o (.ofString text)) b hb
  rw [← ht] at hjustified
  have himplied' : reason.isImplied := by
    rcases himplied with rfl | rfl <;> rfl
  obtain ⟨name, rule, htitled, hrule, hsibling⟩ :=
    hjustified.implied id reason hreason himplied' nofun
  obtain ⟨hkind, hname⟩ := hw.elementName_eq hnodes htitled
  refine ⟨hkind, rule, hname ▸ hrule, fun heq => ?_⟩
  obtain ⟨next, sibling, hnext, hlists, hleast⟩ := hsibling heq
  obtain ⟨hkind', hname'⟩ := hw.elementName_eq hnodes hnext
  refine ⟨next, ?_, hkind', hname' ▸ hlists⟩
  rw [(hw.nextSibling id).eq_some_iff]
  rw [← hnodes] at hleast
  exact hleast

theorem optionalTag_parse_items : ∃ d,
    parse (.ofDirectives ["if", "endif"])
      "<ul><li>a<li>b</ul>" = .ok d ∧ d.closedBy? 3 = some .sibling ∧
      d.kind 3 = .element ∧
        ∃ rule, OptionalTag.find? (d.elementName 3) = some rule ∧
          (ClosedBy.sibling = .sibling → ∃ next, (d.node 3).nextSibling = some next ∧
            d.kind next = .element ∧ listsTag rule.closedBySiblings (d.elementName next)) := by
  have hread : (parse (.ofDirectives ["if", "endif"])
      "<ul><li>a<li>b</ul>").toOption.bind (·.closedBy? 3) = some .sibling := by cbv
  obtain ⟨d, hd, hclosed⟩ := Option.bind_eq_some_iff.1 hread
  have hparse := eq_ok_of_toOption hd
  exact ⟨d, hparse, hclosed, optionalTag_of_parse hparse hclosed (.inl rfl)⟩

/-- An element that is below another one and whose start tag ends that one is there because it ended
an earlier child first. -/
theorem exists_ended_of_parse (htree : o.treeExtensions = []) (h : parse o text = .ok d)
    (hp : d.kind p = .element) (hc : d.kind c = .element) (hparent : (d.node c).parent = some p)
    (hends : OptionalTag.endsAtSibling (d.elementName p) (d.elementName c)) :
    ∃ f < c, d.kind f = .element ∧ (d.node f).parent = some p ∧
      OptionalTag.endsAtSibling (d.elementName f) (d.elementName c) := by
  have htagName {id : Nat} (hid : d.kind id = .element) :
      (d.node id).tagName? d.toTokenized = some (d.elementName id) := by
    have hkind : (d.node id).kind = .element := hid
    unfold FlatNode.tagName?
    rw [if_pos hkind, text_elementName_of_parse htree h hid]
    rfl
  have hspared : Builder.Spared d.toTokenized d.nodes := by
    obtain ⟨lexed, b, -, hb, rfl⟩ := exists_build_of_parse h
    exact Builder.spared_build htree b hb
  obtain ⟨f, hfc, hfp, name, hname, sibling, hsibling, hf⟩ :=
    hspared c p hparent ⟨_, htagName hp, _, htagName hc, hends⟩
  have hkind : d.kind f = .element := FlatNode.kind_of_tagName? hname
  obtain rfl : d.elementName f = name := Option.some.inj ((htagName hkind).symm.trans hname)
  obtain rfl : d.elementName c = sibling := Option.some.inj ((htagName hc).symm.trans hsibling)
  exact ⟨f, hfc, hkind, hfp, hf⟩

/-- Outside of the groups, no element holds one whose start tag ends it. -/
theorem not_endsAtSibling_of_parse (htree : o.treeExtensions = []) (h : parse o text = .ok d)
    (hgroup : ¬ listsTag OptionalTag.groups (d.elementName p)) (hp : d.kind p = .element)
    (hc : d.kind c = .element) (hparent : (d.node c).parent = some p) :
    ¬ OptionalTag.endsAtSibling (d.elementName p) (d.elementName c) := by
  induction c using Nat.strong_induction_on with
  | _ c ih =>
      intro hends
      obtain ⟨f, hfc, hkind, hfp, hf⟩ := exists_ended_of_parse htree h hp hc hparent hends
      have hearlier : ¬ OptionalTag.endsAtSibling (d.elementName p) (d.elementName f) :=
        ih f hfc hkind hfp
      exact hgroup (OptionalTag.group_of_endsAtSibling hends hf hearlier)

end Document
end BladeTree
