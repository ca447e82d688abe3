import BladeTree.Proofs.Tree.Outline
import BladeTree.Tree.Builder

namespace BladeTree

def slot (nodes : Array FlatNode) (id : Nat) : FlatNode :=
  nodes.getD id (.unlinked .document 0)

def outline (nodes : Array FlatNode) : Outline where
  size := nodes.size
  parent i := (slot nodes i).parent
  firstChild i := (slot nodes i).firstChild
  lastChild i := (slot nodes i).lastChild
  nextSibling i := (slot nodes i).nextSibling
  prevSibling i := (slot nodes i).prevSibling
  start i := (slot nodes i).tokenStart
  stop i := (slot nodes i).tokenEnd

variable {nodes : Array FlatNode} {f : FlatNode → FlatNode} {id i : Nat}

theorem slot_push (node : FlatNode) (i : Nat) :
    slot (nodes.push node) i = if i = nodes.size then node else slot nodes i := by
  unfold slot
  rw [Array.getD_eq_getD_getElem?, Array.getD_eq_getD_getElem?, Array.getElem?_push]
  split <;> rfl

theorem slot_modify (hid : id < nodes.size) (i : Nat) :
    slot (nodes.modify id f) i = if i = id then f (slot nodes i) else slot nodes i := by
  unfold slot
  rw [Array.getD_eq_getD_getElem?, Array.getD_eq_getD_getElem?, Array.getElem?_modify]
  by_cases hi : i = id
  · subst hi
    rw [if_pos rfl, if_pos rfl, getElem?_pos nodes i hid]
    rfl
  · rw [if_neg (Ne.symm hi), if_neg hi]

theorem getElem?_eq_slot (hid : id < nodes.size) : nodes[id]? = some (slot nodes id) := by
  unfold slot
  rw [Array.getD_eq_getD_getElem?, getElem?_pos nodes id hid]
  rfl

theorem lt_size_of_kind (h : (slot nodes id).kind ≠ .document) : id < nodes.size := by
  by_contra hid
  apply h
  unfold slot
  rw [Array.getD_eq_getD_getElem?, getElem?_neg nodes id hid]
  rfl

theorem outline_modify_data {g : FlatNode → Int32} (hid : id < nodes.size) :
    outline (nodes.modify id fun n => { n with data := g n }) = outline nodes := by
  simp only [outline, Array.size_modify, slot_modify hid, Outline.mk.injEq, true_and]
  refine ⟨?_, ?_, ?_, ?_, ?_, ?_, ?_⟩ <;> funext i <;> split <;> rfl

theorem outline_modify_tokenCount {stop : Nat} (hid : id < nodes.size)
    (hstart : (slot nodes id).tokenStart ≤ stop) :
    outline (nodes.modify id ({ · with tokenCount := stop - (slot nodes id).tokenStart })) =
      (outline nodes).close id stop := by
  simp only [outline, Outline.close, Array.size_modify, slot_modify hid, Outline.mk.injEq, true_and]
  refine ⟨?_, ?_, ?_, ?_, ?_, ?_, ?_⟩ <;> funext i <;> split
  all_goals try rfl
  subst i
  exact Nat.add_sub_cancel' hstart

namespace Builder

def grown (b : Builder) (q : Nat) (kind : NodeKind) : Array FlatNode :=
  let last := (slot b.nodes q).lastChild
  let nodes := b.nodes.push
    { FlatNode.unlinked kind b.pos with parent := some q, prevSibling := last }
  let nodes := match last with
    | some p => nodes.modify p ({ · with nextSibling := some b.nodes.size })
    | none => nodes.modify q ({ · with firstChild := some b.nodes.size })
  nodes.modify q ({ · with lastChild := some b.nodes.size })

variable {b : Builder} {q : Nat} {kind : NodeKind}

theorem modify_eq (hid : id < b.nodes.size) :
    b.modify id f = .ok { b with nodes := b.nodes.modify id f } :=
  if_pos hid

theorem node_eq (hid : id < b.nodes.size) : b.node id = .ok (slot b.nodes id) := by
  unfold node
  rw [getElem?_eq_slot hid]

theorem ok_bind {α β : Type} (a : α) (g : α → Build β) : (Except.ok a >>= g : Build β) = g a :=
  rfl

theorem startIn_eq (hl : (outline b.nodes).Linked) (hq : q < b.nodes.size) :
    b.startIn q kind = .ok (b.nodes.size, { b with nodes := b.grown q kind }) := by
  have hlt : q < b.nodes.size + 1 := hq.trans (Nat.lt_succ_self _)
  unfold startIn grown
  simp only [node_eq hq, ok_bind]
  cases hlast : (slot b.nodes q).lastChild with
  | none =>
      simp only
      rw [modify_eq (by simpa using hlt), ok_bind, modify_eq (by simpa using hlt)]
      rfl
  | some l =>
      have hl : l < b.nodes.size := (hl.lastChild_lt hlast).2.2
      simp only
      rw [modify_eq (by simpa using hl.trans (Nat.lt_succ_self _)), ok_bind,
        modify_eq (by simpa using hlt)]
      rfl

theorem slot_grown (hl : (outline b.nodes).Linked) (hq : q < b.nodes.size) (i : Nat) :
    slot (b.grown q kind) i =
      if i = b.nodes.size then
        { FlatNode.unlinked kind b.pos with
          parent := some q, prevSibling := (slot b.nodes q).lastChild }
      else { slot b.nodes i with
        firstChild := if i = q ∧ (slot b.nodes q).lastChild = none then some b.nodes.size
          else (slot b.nodes i).firstChild
        lastChild := if i = q then some b.nodes.size else (slot b.nodes i).lastChild
        nextSibling := if (slot b.nodes q).lastChild = some i then some b.nodes.size
          else (slot b.nodes i).nextSibling } := by
  have hlt : q < b.nodes.size + 1 := hq.trans (Nat.lt_succ_self _)
  unfold grown
  simp only
  cases hlast : (slot b.nodes q).lastChild with
  | none =>
      simp only
      rw [slot_modify (by simpa using hlt), slot_modify (by simpa using hlt), slot_push]
      by_cases hi : i = b.nodes.size
      · subst hi
        simp [hq.ne']
      · simp only [hi, if_false]
        by_cases hiq : i = q <;> simp [hiq]
  | some l =>
      have hl : q < l ∧ l < b.nodes.size := (hl.lastChild_lt hlast).2
      simp only
      rw [slot_modify (by simpa using hlt),
        slot_modify (by simpa using hl.2.trans (Nat.lt_succ_self _)), slot_push]
      by_cases hi : i = b.nodes.size
      · subst hi
        simp [hq.ne', hl.2.ne']
      · simp only [hi, if_false]
        by_cases hiq : i = q
        · subst hiq
          simp [hl.1.ne, hl.1.ne']
        · by_cases hil : i = l
          · subst hil
            simp [hiq]
          · simp [hiq, hil, Ne.symm hil]

theorem outline_grown (hl : (outline b.nodes).Linked) (hq : q < b.nodes.size) :
    outline (b.grown q kind) = (outline b.nodes).grow q b.pos := by
  have hsize : (b.grown q kind).size = b.nodes.size + 1 := by
    unfold grown
    simp only
    split <;> simp
  simp only [outline, Outline.grow, hsize, slot_grown hl hq, Outline.mk.injEq, true_and]
  refine ⟨?_, ?_, ?_, ?_, ?_, ?_, ?_⟩ <;> funext i <;> by_cases hi : i = b.nodes.size <;>
    simp only [hi, if_true, if_false] <;> rfl

end Builder
end BladeTree
