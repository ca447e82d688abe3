import BladeTree.Proofs.Document.Descendants

namespace BladeTree
namespace Document

/-- Links down and to the right lead to later nodes, and links up to earlier ones. -/
structure Forward (d : Document) : Prop where
  firstChild : ∀ j c, (d.node j).firstChild = some c → j < c ∧ c < d.nodes.size
  nextSibling : ∀ j c, (d.node j).nextSibling = some c → j < c ∧ c < d.nodes.size
  parent : ∀ j p, (d.node j).parent = some p → p < j

variable {d : Document}

theorem forward_of_linked (hl : d.outline.Linked) : d.Forward where
  firstChild j c hc := hl.below c j ((hl.first j).of_eq_some hc)
  nextSibling j c hc := by
    obtain ⟨hlt, p, -, hp⟩ := (hl.next j).of_eq_some hc
    exact ⟨hlt, (hl.below c p hp).2⟩
  parent j p hp := (hl.below j p hp).1

variable (hf : d.Forward)
include hf

theorem tree_eq (id : Nat) :
    d.tree id = .node id ((d.node id).firstChild.elim [] d.forest) := by
  rw [tree]
  cases hc : (d.node id).firstChild with
  | none => rfl
  | some child => exact dif_pos (hf.firstChild id child hc)

theorem forest_eq (id : Nat) :
    d.forest id = d.tree id :: (d.node id).nextSibling.elim [] d.forest := by
  rw [forest]
  cases hs : (d.node id).nextSibling with
  | none => rfl
  | some next =>
      simp only
      rw [dif_pos (hf.nextSibling id next hs)]
      rfl

theorem siblingsFrom_eq (id : Nat) :
    d.siblingsFrom id = id :: (d.node id).nextSibling.elim [] d.siblingsFrom := by
  rw [siblingsFrom]
  cases hs : (d.node id).nextSibling with
  | none => rfl
  | some next =>
      simp only
      rw [dif_pos (hf.nextSibling id next hs)]
      rfl

theorem ancestors_eq {c p : Nat} (hp : (d.node c).parent = some p) :
    d.ancestors c = p :: d.ancestors p := by
  rw [ancestors, hp]
  exact dif_pos (hf.parent c p hp)

/-- What holds of a node if it holds of its children, and of a run of siblings if it holds of the
first of them and of the others. -/
theorem tree_induction {P Q : Nat → Prop}
    (htree : ∀ id, (∀ child, (d.node id).firstChild = some child → Q child) → P id)
    (hforest : ∀ id, P id → (∀ next, (d.node id).nextSibling = some next → Q next) → Q id)
    (id : Nat) : P id := by
  refine tree.induct d P Q ?_ ?_ ?_ ?_ id
  · intro id child hchild hlt ih
    refine htree id fun c hc => ?_
    rw [hchild, Option.some.injEq] at hc
    exact hc ▸ ih
  · intro id child hchild hlt
    exact absurd (hf.firstChild id child hchild) hlt
  · intro id hnone
    refine htree id fun c hc => ?_
    rw [hnone] at hc
    cases hc
  · intro id ih ihnext
    exact hforest id ih fun next hs => ihnext next (hf.nextSibling id next hs)

omit hf in
/-- What holds of a node whose tree is `id … last` if it holds of its children, and of the children
`id … last` of a node if it holds of the first of them and of the others. -/
theorem preorder_induction (hl : d.outline.Linked) (hpre : d.outline.Preordered)
    {P : Nat → Nat → Prop} {Q : Nat → Nat → Nat → Prop}
    (htree : ∀ id last, id ≤ last → last < d.nodes.size →
      (∀ x, d.outline.Above id x ↔ id ≤ x ∧ x ≤ last) →
      (d.node id).firstChild = (if id < last then some (id + 1) else none) →
      (id < last → (d.node (id + 1)).parent = some id → Q id (id + 1) last) → P id last)
    (hforest : ∀ p id stop last, id ≤ stop → stop ≤ last → (d.node id).parent = some p →
      P id stop → (d.node id).nextSibling = (if stop < last then some (stop + 1) else none) →
      (stop < last → (d.node (stop + 1)).parent = some p → Q p (stop + 1) last) → Q p id last)
    {id last : Nat} (hlast : last < d.nodes.size)
    (habove : ∀ x, d.outline.Above id x ↔ id ≤ x ∧ x ≤ last) : P id last := by
  refine tree_induction (forward_of_linked hl)
    (P := fun id => ∀ last < d.nodes.size, (∀ x, d.outline.Above id x ↔ id ≤ x ∧ x ≤ last) →
      P id last)
    (Q := fun id => ∀ p, ∀ last < d.nodes.size, (d.node id).parent = some p →
      (∀ x, d.outline.Above p x ↔ p ≤ x ∧ x ≤ last) → Q p id last)
    ?_ ?_ id last hlast habove
  · intro id ih last hlast habove
    have hle : id ≤ last := ((habove id).1 .refl).2
    have hchild := firstChild_eq hl hpre habove hle
    refine htree id last hle hlast habove hchild fun hlt hp => ?_
    rw [if_pos hlt] at hchild
    exact ih (id + 1) hchild id last hlast hp habove
  · intro id hid ih p last hlast hp habove
    have hpid : p < id := (hl.below id p hp).1
    have hidlast : id ≤ last := ((habove id).1 (.single hp)).2
    obtain ⟨stop, hstop, haboveid⟩ := exists_last hl hpre (hidlast.trans_lt hlast)
    have hidstop : id ≤ stop := ((haboveid id).1 .refl).2
    have hwithin : d.outline.Above id stop := (haboveid stop).2 ⟨hidstop, le_rfl⟩
    have hstoplast : stop ≤ last := ((habove stop).1 (.head hp hwithin)).2
    have hnext : (d.node id).nextSibling = if stop < last then some (stop + 1) else none := by
      split
      · exact Outline.nextSibling_eq hl hpre hwithin
          (fun h => absurd ((haboveid _).1 h).2 (by omega)) hp ((habove _).2 (by omega))
      · exact Outline.nextSibling_eq_none hl hpre hwithin hp
          (fun h => absurd ((habove _).1 h).2 (by omega))
    refine hforest p id stop last hidstop hstoplast hp (hid stop hstop haboveid) hnext
      fun hmore hpnext => ?_
    rw [if_pos hmore] at hnext
    exact ih (stop + 1) hnext p last hlast hpnext habove

end Document
end BladeTree
