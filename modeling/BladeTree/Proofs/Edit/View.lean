import BladeTree.Document.View
import BladeTree.Proofs.Edit.Excerpt

namespace BladeTree

namespace Document
namespace Excerpted

variable {d e : Document} {id pos i j c stop : Nat} {cs : List Nat}

section Siblings

variable (hf : e.Forward)
include hf

theorem lt_of_mem_siblingsFrom (hj : j < e.nodes.size) (hc : c ∈ e.siblingsFrom j) :
    c < e.nodes.size := by
  induction hn : e.nodes.size - j using Nat.strong_induction_on generalizing j with
  | _ n ih =>
      rw [siblingsFrom_eq hf] at hc
      rcases List.mem_cons.1 hc with rfl | hc
      · exact hj
      · cases hs : (e.node j).nextSibling with
        | none =>
            rw [hs] at hc
            cases hc
        | some next =>
            rw [hs] at hc
            obtain ⟨hlt, hnext⟩ := hf.nextSibling j next hs
            exact ih _ (by omega) hnext hc rfl

theorem lt_of_mem_children (hc : c ∈ e.children j) : c < e.nodes.size := by
  rw [children] at hc
  cases hfirst : (e.node j).firstChild with
  | none =>
      rw [hfirst] at hc
      cases hc
  | some first =>
      rw [hfirst] at hc
      exact lt_of_mem_siblingsFrom hf (hf.firstChild j first hfirst).2 hc

end Siblings

variable (h : e.Excerpted d id pos)
include h

theorem text_eq (hj : j < e.nodes.size) : d.text (id + j) = e.text j := by
  rw [text, h.start j hj, h.stop j hj, h.tokenText _ _ (h.stop_le j hj), text]

theorem siblingsFrom_eq_map (hf : d.Forward) (hpos : 0 < j) (hj : j < e.nodes.size) :
    d.siblingsFrom (id + j) = (e.siblingsFrom j).map (id + ·) := by
  induction hn : e.nodes.size - j using Nat.strong_induction_on generalizing j with
  | _ n ih =>
      rw [siblingsFrom_eq hf, siblingsFrom_eq h.forward, h.nextSibling j hj hpos]
      cases hs : (e.node j).nextSibling with
      | none => rfl
      | some next =>
          obtain ⟨hlt, hnext⟩ := h.forward.nextSibling j next hs
          exact congrArg _ (ih _ (by omega) (by omega) hnext rfl)

theorem children_eq (hf : d.Forward) (hj : j < e.nodes.size) :
    d.children (id + j) = (e.children j).map (id + ·) := by
  rw [children, children, h.firstChild j hj]
  cases hfirst : (e.node j).firstChild with
  | none => rfl
  | some first =>
      obtain ⟨hlt, hsize⟩ := h.forward.firstChild j first hfirst
      exact h.siblingsFrom_eq_map hf (by omega) hsize

section View

variable (hf : d.Forward)
include hf

theorem childOfKind?_eq (hj : j < e.nodes.size) (kind : NodeKind) :
    d.childOfKind? (id + j) kind = (e.childOfKind? j kind).map (id + ·) := by
  rw [childOfKind?, childOfKind?, h.children_eq hf hj, List.find?_map]
  congr 1
  refine List.find?_congr fun c hc => ?_
  rw [Function.comp, h.kind c (lt_of_mem_children h.forward hc)]

omit h hf in
theorem lt_of_childOfKind? (hf : e.Forward) {kind : NodeKind} (hc : e.childOfKind? j kind = some c) :
    c < e.nodes.size :=
  lt_of_mem_children hf (List.mem_of_find?_eq_some hc)

theorem attributeName_eq (hj : j < e.nodes.size) : d.attributeName (id + j) = e.attributeName j := by
  rw [attributeName, attributeName, h.childOfKind?_eq hf hj]
  cases hc : e.childOfKind? j .attributeName with
  | none => rw [Option.map_none, Option.elim_none, Option.elim_none]
  | some c =>
      rw [Option.map_some, Option.elim_some, Option.elim_some]
      exact h.text_eq (lt_of_childOfKind? h.forward hc)

theorem attributeValue?_eq (hj : j < e.nodes.size) :
    d.attributeValue? (id + j) = e.attributeValue? j := by
  rw [attributeValue?, attributeValue?, attributeValueNode?, attributeValueNode?,
    h.childOfKind?_eq hf hj]
  cases hc : e.childOfKind? j .attributeValue with
  | none => rw [Option.map_none, Option.map_none, Option.map_none]
  | some c =>
      rw [Option.map_some, Option.map_some, Option.map_some]
      rw [h.text_eq (lt_of_childOfKind? h.forward hc)]

theorem attributeQuote?_eq (hj : j < e.nodes.size) :
    d.attributeQuote? (id + j) = e.attributeQuote? j := by
  have hbind (d : Document) (id : Nat) : d.attributeQuote? id =
      (d.childOfKind? id .attributeValue).bind fun value =>
        let data := (d.node value).data.toInt
        if 0 < data ∧ data < 256 then some (Char.ofNat data.toNat) else none := rfl
  rw [hbind, hbind, h.childOfKind?_eq hf hj, Option.bind_map]
  refine Option.bind_congr fun c hc => ?_
  rw [Function.comp, h.data c (lt_of_childOfKind? h.forward hc)]

theorem attribute?_eq (hj : j < e.nodes.size) (name : String) :
    d.attribute? (id + j) name = (e.attribute? j name).map (id + ·) := by
  have hattributes : d.attributes (id + j) = (e.attributes j).map (id + ·) := by
    rw [attributes, attributes, childrenOfKind, childrenOfKind, h.children_eq hf hj,
      List.filter_map]
    congr 1
    refine List.filter_congr fun c hc => ?_
    rw [Function.comp, h.kind c (lt_of_mem_children h.forward hc)]
  rw [attribute?, attribute?, hattributes, List.find?_map]
  congr 1
  refine List.find?_congr fun c hc => ?_
  have hlt : c < e.nodes.size := lt_of_mem_children h.forward (List.mem_filter.1 hc).1
  rw [Function.comp, h.attributeName_eq hf hlt]

omit hf in
theorem head?_filter_eq (hcs : ∀ c ∈ cs, c < e.nodes.size) (i : Nat) :
    ((cs.map (id + ·)).head?.filter fun c => (d.node c).tokenStart = pos + i) =
      (cs.head?.filter fun c => (e.node c).tokenStart = i).map (id + ·) := by
  cases cs with
  | nil => rfl
  | cons c cs =>
      rw [List.map_cons, List.head?_cons, List.head?_cons, Option.filter_some, Option.filter_some,
        h.start c (List.forall_mem_cons.1 hcs).1]
      by_cases hi : (e.node c).tokenStart = i
      · simp [hi]
      · simp [hi]

omit hf in
theorem startTagEndFrom_eq (hstop : stop ≤ e.size) (hcs : ∀ c ∈ cs, c < e.nodes.size) (i : Nat) :
    d.startTagEndFrom (pos + stop) (cs.map (id + ·)) (pos + i) =
      pos + e.startTagEndFrom stop cs i := by
  fun_induction startTagEndFrom e stop cs i with
  | case1 cs i hlt c hc ih =>
      have hsize : c < e.nodes.size :=
        hcs c (List.mem_of_head? (Option.filter_eq_some_iff.1 hc).1)
      rw [startTagEndFrom, dif_pos (Nat.add_lt_add_left hlt pos), h.head?_filter_eq hcs, hc,
        Option.map_some]
      simp only
      rw [h.stop c hsize, Nat.add_assoc, Nat.add_max_add_left, ← List.map_tail]
      exact ih fun c hc => hcs c (List.mem_of_mem_tail hc)
  | case2 cs i hlt hnone hend =>
      rw [startTagEndFrom, dif_pos (Nat.add_lt_add_left hlt pos), h.head?_filter_eq hcs, hnone,
        Option.map_none, h.tokenKind i (hlt.trans_le hstop)]
      simp only
      rw [if_pos hend, Nat.add_assoc]
  | case3 cs i hlt hnone hend ih =>
      rw [startTagEndFrom, dif_pos (Nat.add_lt_add_left hlt pos), h.head?_filter_eq hcs, hnone,
        Option.map_none, h.tokenKind i (hlt.trans_le hstop)]
      simp only
      rw [if_neg hend, Nat.add_assoc]
      exact ih hcs
  | case4 cs i hlt =>
      rw [startTagEndFrom, dif_neg (fun hlt' => hlt (Nat.lt_of_add_lt_add_left hlt'))]

theorem startTagEnd_eq (hj : j < e.nodes.size) :
    d.startTagEnd (id + j) = pos + e.startTagEnd j := by
  rw [startTagEnd, startTagEnd, h.start j hj, h.stop j hj, h.children_eq hf hj]
  exact h.startTagEndFrom_eq (h.stop_le j hj) (fun c hc => lt_of_mem_children h.forward hc) _

end View

end Excerpted
end Document
end BladeTree
