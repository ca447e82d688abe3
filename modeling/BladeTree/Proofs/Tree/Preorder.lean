import BladeTree.Proofs.Tree.Outline

namespace BladeTree
namespace Outline

variable {a : Outline} {p q c i j : Nat}

theorem Above.cases_parent (h : a.Above p c) : p = c ∨ ∃ m, a.parent c = some m ∧ a.Above p m := by
  rcases Relation.ReflTransGen.cases_tail h with rfl | ⟨m, hm, hc⟩
  · exact .inl rfl
  · exact .inr ⟨m, hc, hm⟩

theorem Above.le (hl : a.Linked) (h : a.Above p c) : p ≤ c := by
  induction h with
  | refl => exact le_rfl
  | tail _ hc ih => exact ih.trans (hl.below _ _ hc).1.le

theorem Above.antisymm (hl : a.Linked) (h : a.Above p c) (h' : a.Above c p) : p = c :=
  le_antisymm (h.le hl) (h'.le hl)

theorem Above.lt_size (hl : a.Linked) (h : a.Above p c) (hp : p < a.size) : c < a.size := by
  rcases h.cases_parent with rfl | ⟨m, hm, -⟩
  · exact hp
  · exact (hl.below c m hm).2

theorem Above.total (h : a.Above p c) (h' : a.Above q c) : a.Above p q ∨ a.Above q p := by
  induction h with
  | refl => exact .inr h'
  | tail hp hc ih =>
      rcases h'.cases_parent with rfl | ⟨m, hm, hq⟩
      · exact .inl (.tail hp hc)
      · rw [hc, Option.some.injEq] at hm
        exact ih (hm ▸ hq)

theorem not_above_sibling (hl : a.Linked) (hj : a.parent j = some p) (hc : a.parent c = some p)
    (hne : j ≠ c) : ¬ a.Above j c := by
  intro h
  obtain ⟨m, hm, hjm⟩ := h.cases_parent.resolve_left hne
  rw [hc, Option.some.injEq] at hm
  subst hm
  have := hjm.le hl
  have := (hl.below j p hj).1
  omega

variable (hl : a.Linked) (hpre : a.Preordered)
include hl hpre

theorem exists_parent_succ (h : a.Above p (i + 1)) (hp : p ≠ i + 1) :
    ∃ m, a.parent (i + 1) = some m ∧ a.Above p m ∧ a.Above m i := by
  obtain ⟨m, hm, hpm⟩ := h.cases_parent.resolve_left hp
  obtain ⟨m', hm', hi⟩ := hpre i (hl.below _ _ hm).2
  rw [hm, Option.some.injEq] at hm'
  exact ⟨m, hm, hpm, hm' ▸ hi⟩

theorem above_of_le (h : a.Above p c) (hi : p ≤ i) (hc : i ≤ c) : a.Above p i := by
  induction c with
  | zero =>
      obtain rfl := Nat.le_zero.1 hc
      exact h
  | succ c ih =>
      rcases Nat.le_succ_iff.1 hc with hc | rfl
      · obtain ⟨m, -, hpm, hmc⟩ := exists_parent_succ hl hpre h (by omega)
        exact ih (hpm.trans hmc) hc
      · exact h

theorem parent_succ_eq (hj : a.Above j i) (hend : ¬ a.Above j (i + 1)) (hp : a.parent j = some p)
    (h : a.Above p (i + 1)) : a.parent (i + 1) = some p := by
  have hpj : a.Above p j := .single hp
  have hpi : p ≤ i := Above.le hl (hpj.trans hj)
  obtain ⟨m, hm, hpm, hmi⟩ := exists_parent_succ hl hpre h (by omega)
  rcases hj.total hmi with hjm | hmj
  · exact absurd (.tail hjm hm) hend
  · rcases hmj.cases_parent with rfl | ⟨p', hp', hmp⟩
    · exact absurd (.single hm) hend
    · rw [hp, Option.some.injEq] at hp'
      subst hp'
      rwa [hmp.antisymm hl hpm] at hm

theorem firstChild_eq (h : a.Above i (i + 1)) : a.firstChild i = some (i + 1) := by
  obtain ⟨m, hm, him, hmi⟩ := exists_parent_succ hl hpre h (by omega)
  rw [hmi.antisymm hl him] at hm
  have hfirst := hl.first i
  cases hf : a.firstChild i with
  | none =>
      rw [hf] at hfirst
      exact absurd hm (hfirst (i + 1))
  | some c =>
      rw [hf] at hfirst
      have hle := hfirst.2 (i + 1) hm
      have hlt := (hl.below c i hfirst.1).1
      rw [show c = i + 1 by omega]

theorem firstChild_eq_none (h : ¬ a.Above i (i + 1)) : a.firstChild i = none := by
  cases hf : a.firstChild i with
  | none => rfl
  | some c =>
      have hc := (hl.first i).of_eq_some hf
      have hlt := (hl.below c i hc).1
      exact absurd (above_of_le hl hpre (.single hc) (Nat.le_succ i) hlt) h

theorem sibling_after (hj : a.Above j i) (hp : a.parent j = some p) (hc : a.parent c = some p)
    (hjc : j < c) : i < c := by
  by_contra hci
  exact not_above_sibling hl hp hc hjc.ne (above_of_le hl hpre hj hjc.le (Nat.le_of_not_lt hci))

theorem nextSibling_eq (hj : a.Above j i) (hend : ¬ a.Above j (i + 1)) (hp : a.parent j = some p)
    (h : a.Above p (i + 1)) : a.nextSibling j = some (i + 1) := by
  have hm := parent_succ_eq hl hpre hj hend hp h
  have hlt : j < i + 1 := Nat.lt_succ_of_le (hj.le hl)
  have hnext := hl.next j
  cases hs : a.nextSibling j with
  | none =>
      rw [hs] at hnext
      exact absurd ⟨hlt, p, hp, hm⟩ (hnext (i + 1))
  | some c =>
      rw [hs] at hnext
      obtain ⟨⟨hjc, p', hp', hc⟩, hleast⟩ := hnext
      have hle := hleast (i + 1) ⟨hlt, p, hp, hm⟩
      have hge := sibling_after hl hpre hj hp' hc hjc
      rw [le_antisymm hle hge]

theorem nextSibling_eq_none (hj : a.Above j i) (hp : a.parent j = some p)
    (h : ¬ a.Above p (i + 1)) : a.nextSibling j = none := by
  cases hs : a.nextSibling j with
  | none => rfl
  | some c =>
      obtain ⟨hjc, p', hp', hc⟩ := (hl.next j).of_eq_some hs
      rw [hp, Option.some.injEq] at hp'
      subst hp'
      have hge := sibling_after hl hpre hj hp hc hjc
      have hpj := (hl.below j p hp).1
      have := hj.le hl
      exact absurd (above_of_le hl hpre (.single hc) (by omega) hge) h

end Outline
end BladeTree
