import BladeTree.Document.View
import BladeTree.Proofs.Document.WellFormed
import BladeTree.Proofs.Tree.Named

namespace BladeTree
namespace Document

variable {o : ParseOptions} {text : String} {d : Document} {id : Nat}

theorem children_eq_cons {child : Nat} (h : (d.node id).firstChild = some child) :
    ∃ rest, d.children id = child :: rest := by
  unfold children
  rw [h, Option.elim_some, siblingsFrom]
  exact ⟨_, rfl⟩

theorem text_eq_tokenText {i : Nat} (hi : i < d.size) :
    d.toTokenized.text i = .ok (d.tokenText i (i + 1)) := by
  have htoken : d.tokens[i]? = some d.tokens[i] := getElem?_pos d.tokens i hi
  unfold Tokenized.text Tokenized.token tokenText tokenSpan Tokenized.offset
  rw [htoken, if_pos (Nat.lt_succ_self _), Nat.add_sub_cancel, htoken]
  rfl

theorem WellFormed.tokenEnd_le_size (h : d.WellFormed) (hid : id < d.nodes.size) :
    (d.node id).tokenEnd ≤ d.size := by
  induction id using Nat.strong_induction_on with
  | _ id ih =>
      cases hparent : (d.node id).parent with
      | none =>
          obtain rfl := (h.orphan id hid).1 hparent
          exact h.covers.2.le
      | some p =>
          have hlt := (h.parent id p hparent).1
          exact (h.inside id p hparent).2.trans (ih p hlt (hlt.trans hid))

theorem WellFormed.firstChild_eq_succ (h : d.WellFormed)
    (hparent : (d.node (id + 1)).parent = some id) : (d.node id).firstChild = some (id + 1) := by
  rw [(h.firstChild id).eq_some_iff]
  exact ⟨hparent, fun c hc => (h.parent c id hc).1⟩

theorem childOfKind?_of_named (hw : d.WellFormed)
    (hname : (d.node (id + 1)).own = Builder.nameLeaf id (d.node id).tokenStart) :
    d.childOfKind? id .elementName = some (id + 1) := by
  have hparent : (d.node (id + 1)).parent = some id := (congrArg FlatNode.parent hname :)
  have hkind : d.kind (id + 1) = .elementName := (congrArg FlatNode.kind hname :)
  obtain ⟨rest, hchildren⟩ := children_eq_cons (hw.firstChild_eq_succ hparent)
  unfold childOfKind?
  rw [hchildren, List.find?_cons_of_pos]
  exact decide_eq_true hkind

theorem WellFormed.text_elementName (hw : d.WellFormed) (hlt : id + 1 < d.nodes.size)
    (hname : (d.node (id + 1)).own = Builder.nameLeaf id (d.node id).tokenStart) :
    d.toTokenized.text ((d.node id).tokenStart + 1) = .ok (d.elementName id) := by
  have hstart : (d.node (id + 1)).tokenStart = (d.node id).tokenStart + 1 :=
    (congrArg FlatNode.tokenStart hname :)
  have hstop : (d.node (id + 1)).tokenEnd = (d.node id).tokenStart + 1 + 1 :=
    (congrArg FlatNode.tokenEnd hname :)
  have hsize : (d.node id).tokenStart + 1 < d.size := by
    have hle := hw.tokenEnd_le_size hlt
    rwa [hstop] at hle
  unfold elementName Document.text
  rw [childOfKind?_of_named hw hname, Option.elim_some, hstart, hstop]
  exact text_eq_tokenText hsize

theorem text_elementName_of_parse (htree : o.treeExtensions = []) (h : parse o text = .ok d)
    (hid : d.kind id = .element) :
    d.toTokenized.text ((d.node id).tokenStart + 1) = .ok (d.elementName id) := by
  obtain ⟨lexed, b, hw, hb, hd⟩ := exists_wellFormed_of_parse h
  have hnodes : d.nodes = b.nodes := by rw [hd]
  have hnamed := Builder.named_build htree b hb id
  rw [Builder.NamedAt, ← hnodes] at hnamed
  obtain ⟨hlt, -, hname⟩ := hnamed hid
  exact hw.text_elementName hlt hname

end Document
end BladeTree
