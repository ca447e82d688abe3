import BladeTree.Document.Basic
import BladeTree.Proofs.Tree.Arena
import BladeTree.Proofs.Tree.Preorder

namespace BladeTree
namespace Document

variable {d : Document} {root i j : Nat}

def outline (d : Document) : Outline := BladeTree.outline d.nodes

def subtreeSize (d : Document) (id : Nat) : Nat :=
  ((Finset.range d.nodes.size).filter (id ∈ d.ancestors ·)).card

/-- A run of the iterator over the nodes below `root` that is about to yield `i`, if anything:
it yields `ids` and ends. -/
inductive Iterates (d : Document) (root : Nat) : Option Nat → List Nat → Prop
  | done : Iterates d root none []
  | next (i : Nat) (ids : List Nat) : Iterates d root (d.next? root i) ids →
      Iterates d root (some i) (i :: ids)

theorem mem_ancestors_iff (hl : d.outline.Linked) (p c : Nat) :
    p ∈ d.ancestors c ↔ d.outline.Above p c ∧ p ≠ c := by
  fun_induction ancestors d c with
  | case1 c m hm hlt ih =>
      rw [List.mem_cons, ih]
      constructor
      · rintro (rfl | ⟨hp, -⟩)
        · exact ⟨.single hm, hlt.ne⟩
        · exact ⟨.tail hp hm, (Nat.lt_of_le_of_lt (hp.le hl) hlt).ne⟩
      · rintro ⟨hp, hne⟩
        obtain ⟨m', hm', hpm⟩ := hp.cases_parent.resolve_left hne
        obtain rfl : m = m' := Option.some.inj (hm.symm.trans hm')
        by_cases h : p = m
        · exact .inl h
        · exact .inr ⟨hpm, h⟩
  | case2 c m hm hlt => exact absurd (hl.below c m hm).1 hlt
  | case3 c hnone =>
      refine ⟨nofun, fun ⟨hp, hne⟩ => ?_⟩
      obtain ⟨m, hm, -⟩ := hp.cases_parent.resolve_left hne
      cases hnone.symm.trans hm

theorem mem_cons_ancestors_iff (hl : d.outline.Linked) {p c : Nat} :
    p ∈ c :: d.ancestors c ↔ d.outline.Above p c := by
  rw [List.mem_cons, mem_ancestors_iff hl]
  constructor
  · rintro (rfl | ⟨habove, -⟩)
    · exact .refl
    · exact habove
  · intro habove
    by_cases hpc : p = c
    · exact .inl hpc
    · exact .inr ⟨habove, hpc⟩

variable (hl : d.outline.Linked) (hpre : d.outline.Preordered)
include hl hpre

theorem climb?_eq_some_iff (hroot : d.outline.Above root j) (hj : d.outline.Above j i)
    (hend : ¬ d.outline.Above j (i + 1)) (x : Nat) :
    d.climb? root j = some x ↔ x = i + 1 ∧ d.outline.Above root x := by
  fun_induction climb? d root j with
  | case1 => exact ⟨nofun, fun ⟨hx, h⟩ => absurd (hx ▸ h) hend⟩
  | case2 j hne s hs =>
      obtain ⟨p, hp, hrootp⟩ := hroot.cases_parent.resolve_left (Ne.symm hne)
      have habove : d.outline.Above p (i + 1) := by
        by_contra h
        cases hs.symm.trans (Outline.nextSibling_eq_none hl hpre hj hp h)
      obtain rfl : s = i + 1 :=
        Option.some.inj (hs.symm.trans (Outline.nextSibling_eq hl hpre hj hend hp habove))
      rw [Option.some.injEq]
      exact ⟨fun h => ⟨h.symm, h ▸ hrootp.trans habove⟩, fun h => h.1.symm⟩
  | case3 j hne hs p hp hlt ih =>
      obtain ⟨p', hp', hrootp⟩ := hroot.cases_parent.resolve_left (Ne.symm hne)
      obtain rfl : p = p' := Option.some.inj (hp.symm.trans hp')
      refine ih hrootp (.head hp hj) fun h => ?_
      cases hs.symm.trans (Outline.nextSibling_eq hl hpre hj hend hp h)
  | case4 j hne hs p hp hlt => exact absurd (hl.below j p hp).1 hlt
  | case5 j hne hs hp =>
      obtain ⟨p, hp', -⟩ := hroot.cases_parent.resolve_left (Ne.symm hne)
      cases hp.symm.trans hp'

theorem next?_eq_some_iff (hroot : d.outline.Above root i) (x : Nat) :
    d.next? root i = some x ↔ x = i + 1 ∧ d.outline.Above root x := by
  unfold next?
  by_cases h : d.outline.Above i (i + 1)
  · have hfirst : (d.node i).firstChild = some (i + 1) := Outline.firstChild_eq hl hpre h
    rw [hfirst]
    change some (i + 1) = some x ↔ _
    rw [Option.some.injEq]
    exact ⟨fun hx => ⟨hx.symm, hx ▸ hroot.trans h⟩, fun hx => hx.1.symm⟩
  · have hfirst : (d.node i).firstChild = none := Outline.firstChild_eq_none hl hpre h
    rw [hfirst]
    exact climb?_eq_some_iff hl hpre hroot .refl h x

/-- The ids below a node follow it without a gap. -/
theorem exists_last (hroot : root < d.nodes.size) :
    ∃ last, last < d.nodes.size ∧ ∀ x, d.outline.Above root x ↔ root ≤ x ∧ x ≤ last := by
  classical
  let last := Nat.findGreatest (d.outline.Above root) d.nodes.size
  have hlast : d.outline.Above root last := Nat.findGreatest_spec hroot.le .refl
  refine ⟨last, hlast.lt_size hl hroot, fun x => ⟨fun hx => ⟨hx.le hl, ?_⟩, fun hx => ?_⟩⟩
  · exact Nat.le_findGreatest (hx.lt_size hl hroot).le hx
  · exact Outline.above_of_le hl hpre hlast hx.1 hx.2

section Last

variable {last : Nat} (hlast : last < d.nodes.size)
  (habove : ∀ x, d.outline.Above root x ↔ root ≤ x ∧ x ≤ last)

include hlast habove in
omit hpre in
theorem subtreeSize_eq : d.subtreeSize root = last - root := by
  rw [subtreeSize, ← Nat.card_Ioc]
  congr 1
  ext x
  rw [Finset.mem_filter, Finset.mem_range, Finset.mem_Ioc, mem_ancestors_iff hl, habove]
  omega

include habove

theorem next?_eq (h : root ≤ i) (hi : i ≤ last) :
    d.next? root i = if i < last then some (i + 1) else none := by
  have hiff := next?_eq_some_iff hl hpre ((habove i).2 ⟨h, hi⟩)
  split
  · exact (hiff (i + 1)).2 ⟨rfl, (habove _).2 ⟨by omega, by omega⟩⟩
  · cases hx : d.next? root i with
    | none => rfl
    | some x =>
        obtain ⟨rfl, hx⟩ := (hiff x).1 hx
        have := (habove _).1 hx
        omega

theorem firstChild_eq (h : root ≤ last) :
    (d.node root).firstChild = if root < last then some (root + 1) else none := by
  split
  · exact Outline.firstChild_eq hl hpre ((habove _).2 ⟨by omega, by omega⟩)
  · exact Outline.firstChild_eq_none hl hpre fun hx => by have := (habove _).1 hx; omega

theorem iterates_from (h : root ≤ i) (hi : i ≤ last) :
    d.Iterates root (some i) (List.range' i (last + 1 - i)) := by
  induction hn : last - i generalizing i with
  | zero =>
      rw [show last + 1 - i = 1 by omega]
      refine .next i [] ?_
      rw [next?_eq hl hpre habove h hi, if_neg (by omega)]
      exact .done
  | succ n ih =>
      rw [show last + 1 - i = last + 1 - (i + 1) + 1 by omega, List.range'_succ]
      refine .next i _ ?_
      rw [next?_eq hl hpre habove h hi, if_pos (by omega)]
      exact ih (by omega) (by omega) (by omega)

include hlast

theorem preorderFrom_eq (h : root ≤ i) (hi : i ≤ last) :
    d.preorderFrom root i = List.range' i (last + 1 - i) := by
  induction hn : last - i generalizing i with
  | zero =>
      rw [preorderFrom, next?_eq hl hpre habove h hi, if_neg (by omega)]
      rw [show last + 1 - i = 1 by omega]
      rfl
  | succ n ih =>
      rw [preorderFrom, next?_eq hl hpre habove h hi, if_pos (by omega)]
      rw [show last + 1 - i = last + 1 - (i + 1) + 1 by omega, List.range'_succ]
      simp only
      rw [dif_pos ⟨Nat.lt_succ_self i, by omega⟩, ih (by omega) (by omega) (by omega)]

end Last

theorem descendants_eq (hroot : root < d.nodes.size) :
    d.descendants root = List.range' (root + 1) (d.subtreeSize root) ∧
      d.Iterates root (d.node root).firstChild
        (List.range' (root + 1) (d.subtreeSize root)) := by
  obtain ⟨last, hlast, habove⟩ := exists_last hl hpre hroot
  have hle : root ≤ last := ((habove root).1 .refl).2
  rw [subtreeSize_eq hl hlast habove, descendants, firstChild_eq hl hpre habove hle]
  by_cases hlt : root < last
  · rw [if_pos hlt, show last - root = last + 1 - (root + 1) by omega]
    exact ⟨preorderFrom_eq hl hpre hlast habove (Nat.le_succ root) hlt,
      iterates_from hl hpre habove (Nat.le_succ root) hlt⟩
  · rw [if_neg hlt, show last - root = 0 by omega]
    exact ⟨rfl, .done⟩

end Document
end BladeTree
