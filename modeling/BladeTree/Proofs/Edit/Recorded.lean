import BladeTree.Proofs.Edit.Calls
import BladeTree.Proofs.Edit.Visit

namespace BladeTree

structure EditCall.KeepsElement (c : EditCall) : Prop where
  target : c.target ≠ .nothing
  replacement : ∀ e, (c.record e).replacement = e.replacement

theorem EditCall.replacement_foldl {cs : List EditCall} (h : ∀ c ∈ cs, c.KeepsElement)
    (e : NodeEdits) : (cs.foldl record e).replacement = e.replacement := by
  induction cs generalizing e with
  | nil => rfl
  | cons c cs ih =>
      obtain ⟨hc, hcs⟩ := List.forall_mem_cons.1 h
      rw [List.foldl_cons, ih hcs, hc.replacement]

namespace Edits

variable {d : Document} {es : Edits} {calls : Nat → List EditCall} {cs : List EditCall} {id n : Nat}

theorem accepts_of_element (h : ∀ x, es.isReplaced x = false) (hid : d.kind id = .element)
    {t : EditCall.Target} (ht : t ≠ .nothing) : es.accepts d id t := by
  have hinside : es.isInsideReplaced d id = false := by
    rw [isInsideReplaced, List.any_eq_false]
    exact fun p _ => Bool.eq_false_iff.1 (h p)
  have hgone : es.isGone d id = false := by rw [isGone, h id, hinside, Bool.or_self]
  cases t with
  | live => rw [accepts, hgone, Bool.not_false]
  | place => rw [accepts, hinside, Bool.not_false]
  | startTag => rw [accepts, hid, hgone, Bool.not_false, beq_self_eq_true, Bool.and_self]
  | nothing => exact absurd rfl ht

theorem size_foldl_apply (es : Edits) (d : Document) (id : Nat) (cs : List EditCall) :
    (cs.foldl (Edits.apply · d id) es).slots.size = es.slots.size := by
  induction cs generalizing es with
  | nil => rfl
  | cons c cs ih => rw [List.foldl_cons, ih, size_apply]

theorem isReplaced_apply_eq_false (h : ∀ x, es.isReplaced x = false) {c : EditCall}
    (hc : c.KeepsElement) (x : Nat) : (es.apply d id c).isReplaced x = false := by
  rw [isReplaced, get?_apply]
  split
  · rw [Option.any_some, hc.replacement]
    have hid := h id
    rw [isReplaced] at hid
    cases he : es.get? id with
    | none => rfl
    | some e =>
        rw [he, Option.any_some] at hid
        rw [Option.getD_some, hid]
  · exact h x

theorem get?_foldl_apply (h : ∀ x, es.isReplaced x = false) (hid : d.kind id = .element)
    (hlt : id < es.slots.size) (hcs : ∀ c ∈ cs, c.KeepsElement) (x : Nat) :
    (cs.foldl (Edits.apply · d id) es).get? x =
      if x = id ∧ cs ≠ [] then some (cs.foldl EditCall.record ((es.get? id).getD .empty))
      else es.get? x := by
  induction cs generalizing es with
  | nil => rw [if_neg fun hx => hx.2 rfl, List.foldl_nil]
  | cons c cs ih =>
      obtain ⟨hc, hrest⟩ := List.forall_mem_cons.1 hcs
      have hstep (x : Nat) : (es.apply d id c).get? x =
          if x = id then some (c.record ((es.get? id).getD .empty)) else es.get? x := by
        rw [get?_apply]
        simp only [hlt, accepts_of_element h hid hc.target, and_true]
      rw [List.foldl_cons, ih (isReplaced_apply_eq_false h hc) (by rwa [size_apply]) hrest, hstep,
        hstep, if_pos rfl, Option.getD_some, List.foldl_cons]
      by_cases hx : x = id
      · simp only [hx, true_and, if_true, ne_eq, reduceCtorEq, not_false_eq_true]
        split
        · rfl
        · rename_i hnil
          rw [not_not] at hnil
          rw [hnil, List.foldl_nil]
      · simp only [hx, false_and, if_false]

structure Records (es : Edits) (d : Document) (calls : Nat → List EditCall) (n : Nat) : Prop where
  size : es.slots.size = d.nodes.size
  get : ∀ x, es.get? x =
    if x < n ∧ calls x ≠ [] then some ((calls x).foldl EditCall.record .empty) else .none

variable (hcalls : ∀ id, ∀ c ∈ calls id, d.kind id = .element ∧ c.KeepsElement)
include hcalls

theorem Records.isReplaced_eq_false (h : es.Records d calls n) (x : Nat) :
    es.isReplaced x = false := by
  rw [isReplaced, h.get]
  split
  · rw [Option.any_some, EditCall.replacement_foldl fun c hc => (hcalls x c hc).2]
    rfl
  · rfl

theorem Records.next (h : es.Records d calls n) (hn : n < d.nodes.size) :
    (es.applyAll d calls [n]).Records d calls (n + 1) := by
  have hone : es.applyAll d calls [n] = (calls n).foldl (Edits.apply · d n) es := rfl
  have hbefore : es.get? n = .none := by rw [h.get, if_neg fun hx => lt_irrefl n hx.1]
  rw [hone]
  constructor
  · rw [size_foldl_apply, h.size]
  · intro x
    by_cases hnil : calls n = []
    · rw [hnil, List.foldl_nil, h.get]
      apply if_congr _ rfl rfl
      constructor
      · exact fun hx => ⟨hx.1.trans (Nat.lt_succ_self n), hx.2⟩
      · rintro ⟨hlt, hx⟩
        have hne : x ≠ n := fun heq => hx (heq ▸ hnil)
        exact ⟨by omega, hx⟩
    · obtain ⟨c, hc⟩ := List.exists_mem_of_ne_nil _ hnil
      rw [get?_foldl_apply (h.isReplaced_eq_false hcalls) (hcalls n c hc).1 (h.size ▸ hn)
        fun c hc => (hcalls n c hc).2, hbefore]
      by_cases hx : x = n
      · subst hx
        rw [if_pos ⟨rfl, hnil⟩, if_pos ⟨Nat.lt_succ_self x, hnil⟩]
        rfl
      · rw [if_neg fun heq => hx heq.1, h.get]
        apply if_congr _ rfl rfl
        apply and_congr_left'
        omega

theorem records_range (hn : n ≤ d.nodes.size) :
    ((none d).applyAll d calls (List.range n)).Records d calls n := by
  induction n with
  | zero =>
      refine ⟨Array.size_replicate, fun x => ?_⟩
      rw [if_neg fun hx => Nat.not_lt_zero x hx.1]
      exact get?_none d x
  | succ n ih =>
      rw [List.range_succ, applyAll, List.foldl_append]
      exact (ih (Nat.le_of_succ_le hn)).next hcalls hn

end Edits

/-- A visitor that replaces no node records what it asks for at each, whatever it asks for
elsewhere. -/
theorem Document.get?_visit {d : Document} (hl : d.outline.Linked) (hpre : d.outline.Preordered)
    {v : Visitor} {calls : Nat → List EditCall} (hv : v.Records d calls)
    (hcalls : ∀ id, ∀ c ∈ calls id, d.kind id = .element ∧ c.KeepsElement) (id : Nat) :
    (d.visit [v]).edits.get? id =
      if calls id = [] then none else some ((calls id).foldl EditCall.record .empty) := by
  have hrecords := Edits.records_range hcalls (le_refl d.nodes.size)
  rw [edits_visit hl hpre hv, hrecords.get]
  by_cases hnil : calls id = []
  · rw [if_pos hnil, if_neg fun h => h.2 hnil]
  · obtain ⟨c, hc⟩ := List.exists_mem_of_ne_nil _ hnil
    have hkind : (slot d.nodes id).kind = .element := (hcalls id c hc).1
    have hlt : id < d.nodes.size := lt_size_of_kind (by rw [hkind]; nofun)
    rw [if_neg hnil, if_pos ⟨hlt, hnil⟩]

end BladeTree
