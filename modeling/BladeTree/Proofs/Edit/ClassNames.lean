import BladeTree.Edit.Record
import Mathlib.Data.Finset.Basic
import Mathlib.Data.Finset.Dedup

namespace BladeTree
namespace NodeEdits

def isClassSpace (c : Char) : Bool := c.toNat < 128 && Byte.isSpace c.toUInt8

/-- A name that stays one when it is written between blanks. -/
def IsClassName (name : String) : Prop :=
  name ≠ "" ∧ ∀ c ∈ name.toList, isClassSpace c = false

theorem classNames_eq (value : String) : classNames value =
    ((value.toList.splitOnP isClassSpace).filter (!·.isEmpty)).map String.ofList := rfl

variable {name : String}

theorem IsClassName.toList_ne_nil (h : IsClassName name) : name.toList ≠ [] := by
  intro hnil
  exact h.1 (String.toList_inj.1 hnil)

theorem classNames_of_isClassName (h : IsClassName name) : classNames name = [name] := by
  rw [classNames_eq, List.splitOnP_eq_singleton h.2]
  have hne : name.toList.isEmpty = false := List.isEmpty_eq_false_iff.2 h.toList_ne_nil
  simp only [List.filter, hne, Bool.not_false, List.map, String.ofList_toList]

theorem classNames_append_space (h : IsClassName name) (rest : String) :
    classNames (name ++ " " ++ rest) = name :: classNames rest := by
  have hlist : (name ++ " " ++ rest).toList = name.toList ++ ' ' :: rest.toList := by
    simp only [String.toList_append, List.append_assoc]
    rfl
  have hne : name.toList.isEmpty = false := List.isEmpty_eq_false_iff.2 h.toList_ne_nil
  rw [classNames_eq, hlist, List.splitOnP_append_cons_of_forall_mem h.2 ' ' (by decide)]
  simp only [List.filter, hne, Bool.not_false, List.map, String.ofList_toList, classNames_eq]

theorem classNames_intercalate {names : List String} (h : ∀ name ∈ names, IsClassName name) :
    classNames (" ".intercalate names) = names := by
  induction names with
  | nil => rfl
  | cons name rest ih =>
      have hname := h name List.mem_cons_self
      have hrest := ih fun other hother => h other (List.mem_cons_of_mem _ hother)
      cases rest with
      | nil => rw [String.intercalate_singleton, classNames_of_isClassName hname]
      | cons next rest => rw [String.intercalate_cons_cons, classNames_append_space hname, hrest]

theorem not_isClassSpace_of_mem_splitOnP {cs piece : List Char}
    (h : piece ∈ cs.splitOnP isClassSpace) : ∀ c ∈ piece, isClassSpace c = false := by
  induction cs generalizing piece with
  | nil =>
      rw [List.splitOnP_nil, List.mem_singleton] at h
      subst h
      nofun
  | cons c cs ih =>
      rw [List.splitOnP_cons_eq_if_modifyHead] at h
      by_cases hc : isClassSpace c
      · rw [if_pos hc, List.mem_cons] at h
        rcases h with rfl | h
        · nofun
        · exact ih h
      · rw [if_neg hc] at h
        cases hsplit : cs.splitOnP isClassSpace with
        | nil =>
            rw [hsplit] at h
            cases h
        | cons first rest =>
            rw [hsplit, List.modifyHead_cons, List.mem_cons] at h
            rw [hsplit] at ih
            rcases h with rfl | h
            · intro x hx
              rcases List.mem_cons.1 hx with rfl | hx
              · exact eq_false_of_ne_true hc
              · exact ih List.mem_cons_self x hx
            · exact ih (List.mem_cons_of_mem _ h)

theorem isClassName_of_mem_classNames {value : String} (h : name ∈ classNames value) :
    IsClassName name := by
  rw [classNames_eq, List.mem_map] at h
  obtain ⟨piece, hpiece, rfl⟩ := h
  obtain ⟨hmem, hne⟩ := List.mem_filter.1 hpiece
  constructor
  · intro hempty
    have hnil : piece = [] := by
      have := congrArg String.toList hempty
      rwa [String.toList_ofList] at this
    subst hnil
    cases hne
  · rw [String.toList_ofList]
    exact not_isClassSpace_of_mem_splitOnP hmem

def classSet (e : NodeEdits) (value : String) : Finset String :=
  (classNames value).toFinset.filter (· ∉ e.removedClasses) ∪ e.addedClasses.toFinset

variable {e : NodeEdits} {value : String}

theorem mem_foldl_add (kept added : List String) :
    name ∈ added.foldl (fun cs c => if cs.contains c then cs else cs ++ [c]) kept ↔
      name ∈ kept ∨ name ∈ added := by
  induction added generalizing kept with
  | nil => simp
  | cons c added ih =>
      rw [List.foldl_cons, ih, List.mem_cons]
      by_cases hc : kept.contains c
      · rw [if_pos hc]
        have hmem : c ∈ kept := List.contains_iff_mem.1 hc
        constructor
        · exact Or.imp_right .inr
        · rintro (hname | rfl | hname)
          · exact .inl hname
          · exact .inl hmem
          · exact .inr hname
      · rw [if_neg hc, List.mem_append, List.mem_singleton, or_assoc]

def classList (e : NodeEdits) (value : String) : List String :=
  e.addedClasses.foldl (fun cs c => if cs.contains c then cs else cs ++ [c])
    ((classNames value).filter (!e.removedClasses.contains ·))

theorem classes_eq (e : NodeEdits) (value : String) :
    e.classes value = " ".intercalate (e.classList value) := rfl

theorem toFinset_classList (e : NodeEdits) (value : String) :
    (e.classList value).toFinset = e.classSet value := by
  ext name
  unfold classList classSet
  rw [List.mem_toFinset, mem_foldl_add]
  simp [List.mem_filter]

/-- What is written as the value of the class attribute reads as the names that are left. -/
theorem classNames_classes (h : ∀ name ∈ e.addedClasses, IsClassName name) (value : String) :
    classNames (e.classes value) = e.classList value := by
  rw [classes_eq]
  apply classNames_intercalate
  intro name hname
  rcases (mem_foldl_add _ _).1 hname with hname | hname
  · exact isClassName_of_mem_classNames (List.mem_filter.1 hname).1
  · exact h name hname

theorem classes_isEmpty_iff (h : ∀ name ∈ e.addedClasses, IsClassName name) (value : String) :
    (e.classes value).isEmpty ↔ e.classSet value = ∅ := by
  rw [← toFinset_classList, List.toFinset_eq_empty_iff, ← classNames_classes h, String.isEmpty_iff]
  constructor
  · intro hempty
    rw [hempty]
    rfl
  · intro hnil
    rw [classNames_classes h] at hnil
    rw [classes_eq, hnil]
    rfl

end NodeEdits
end BladeTree
