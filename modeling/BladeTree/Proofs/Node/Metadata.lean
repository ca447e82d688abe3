import BladeTree.Node.Metadata
import Mathlib.Logic.Function.Basic

namespace BladeTree

theorem lookup_putKey {κ ν : Type} [BEq κ] [LawfulBEq κ] (key : κ) (value : ν)
    (entries : List (κ × ν)) (k : κ) :
    (putKey key value entries).lookup k =
      if k == key then some value else entries.lookup k := by
  induction entries with
  | nil =>
      rw [putKey, List.lookup_cons]
      cases k == key <;> rfl
  | cons entry rest ih =>
      obtain ⟨k', v⟩ := entry
      rw [putKey, List.lookup_cons]
      by_cases hk' : k' == key
      · rw [if_pos hk', List.lookup_cons, eq_of_beq hk']
        cases k == key <;> rfl
      · rw [if_neg hk', List.lookup_cons, ih]
        cases hk : k == k' with
        | false => rfl
        | true =>
            obtain rfl := eq_of_beq hk
            exact (if_neg hk').symm

theorem ClosedBy.ofName?_name (reason : ClosedBy) : ofName? reason.name = some reason := by
  cases reason <;> decide +kernel

namespace Metadata

variable (m : Metadata)

theorem get?_set (id : Nat) (key : String) (value : MetaValue) (id' : Nat) (key' : String) :
    (m.set id key value).get? id' key' =
      if id' = id ∧ key' = key then some value else m.get? id' key' := by
  unfold set get? entries
  rw [lookup_putKey]
  by_cases hid : id' = id
  · subst hid
    simp only [beq_self_eq_true, if_true, Option.getD_some, lookup_putKey, beq_iff_eq, true_and]
  · rw [if_neg (by simpa using hid), if_neg fun h => hid h.1]

theorem closedBy?_setClosedBy (id : Nat) (reason : ClosedBy) :
    (m.setClosedBy id reason).closedBy? = Function.update m.closedBy? id (some reason) := by
  funext id'
  rw [Function.update_apply, closedBy?, setClosedBy, get?_set]
  by_cases hid : id' = id
  · simp only [hid, true_and, if_true]
    exact reason.ofName?_name
  · simp only [hid, false_and, if_false]
    rfl

theorem closedBy?_setGenericArgsOffset (id offset : Nat) :
    (m.setGenericArgsOffset id offset).closedBy? = m.closedBy? := by
  funext id'
  have hkey : ¬ (id' = id ∧ "closed_by" = "generic_args_offset") := fun h =>
    absurd h.2 (by decide)
  rw [closedBy?, setGenericArgsOffset, get?_set, if_neg hkey]
  rfl

end Metadata
end BladeTree
