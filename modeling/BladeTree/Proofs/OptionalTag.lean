import BladeTree.OptionalTag

namespace BladeTree

theorem sameName_iff {a b : String} : sameName a b ↔ a.toLower = b.toLower := beq_iff_eq

theorem sameName_congr_right {a b : String} (h : sameName a b) (name : String) :
    sameName name a = sameName name b := by
  unfold sameName
  rw [sameName_iff.1 h]

theorem listsTag_congr {a b : String} (h : sameName a b) (names : List String) :
    listsTag names a = listsTag names b := by
  unfold listsTag
  simp only [sameName_congr_right h]

theorem listsTag_iff {names : List String} {name : String} :
    listsTag names name ↔ ∃ listed ∈ names, sameName listed name := by
  unfold listsTag
  rw [List.any_eq_true]

namespace OptionalTag

variable {element parent sibling : String}

theorem endsAtSibling_iff : endsAtSibling element sibling ↔
    ∃ rule ∈ find? element, listsTag rule.closedBySiblings sibling := by
  unfold endsAtSibling
  rw [Option.any_eq_true]
  rfl

theorem of_mem_find? {rule : OptionalTag} (h : rule ∈ find? element) :
    rule ∈ table ∧ sameName rule.name element := by
  constructor
  · exact List.mem_of_find?_eq_some h
  · exact List.find?_some (p := fun rule : OptionalTag => sameName rule.name element) h

/-- Elements whose rule leaves out a name although one start tag ends them both. -/
def groups : List String := ["optgroup", "thead", "tbody", "tfoot"]

def sharesSibling (rule other : OptionalTag) : Bool :=
  rule.closedBySiblings.any fun name => listsTag other.closedBySiblings name

theorem sharesSibling_of_listsTag {rule other : OptionalTag}
    (h : listsTag rule.closedBySiblings sibling) (h' : listsTag other.closedBySiblings sibling) :
    rule.sharesSibling other := by
  obtain ⟨name, hname, hsame⟩ := listsTag_iff.1 h
  refine List.any_eq_true.2 ⟨name, hname, ?_⟩
  rw [listsTag_congr hsame]
  exact h'

theorem listsTag_of_sharesSibling : ∀ rule ∈ table, ∀ other ∈ table, rule.sharesSibling other →
    listsTag rule.closedBySiblings other.name ∨ listsTag groups rule.name := by
  decide +kernel

/-- If one start tag ends an element and what is open in it, and the start tag of the latter did not
end the element, then the element is such a group. -/
theorem group_of_endsAtSibling (hparent : endsAtSibling parent sibling)
    (helement : endsAtSibling element sibling) (hno : ¬ endsAtSibling parent element) :
    listsTag groups parent := by
  obtain ⟨rule, hrule, hlists⟩ := endsAtSibling_iff.1 hparent
  obtain ⟨other, hother, hlists'⟩ := endsAtSibling_iff.1 helement
  obtain ⟨hmem, hname⟩ := of_mem_find? hrule
  obtain ⟨hmem', hname'⟩ := of_mem_find? hother
  have hshares := sharesSibling_of_listsTag hlists hlists'
  rcases listsTag_of_sharesSibling rule hmem other hmem' hshares with hends | hgroup
  · have hends' : endsAtSibling parent element := by
      refine endsAtSibling_iff.2 ⟨rule, hrule, ?_⟩
      rw [← listsTag_congr hname']
      exact hends
    exact absurd hends' hno
  · rw [← listsTag_congr hname]
    exact hgroup

-- A group in a group of the same kind: the start tag after them ends both.
example : endsAtSibling "thead" "tbody" ∧ ¬ endsAtSibling "thead" "thead" := by
  decide +kernel

end OptionalTag
end BladeTree
