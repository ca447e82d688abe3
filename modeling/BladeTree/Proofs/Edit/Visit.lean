import BladeTree.Edit.Recipe
import BladeTree.Proofs.Edit.Locality

namespace BladeTree

namespace Tree

mutual

def ids : Tree → List Nat
  | node id children => id :: idsAll children

def idsAll : List Tree → List Nat
  | [] => []
  | t :: rest => t.ids ++ idsAll rest

end

end Tree

/-- The nodes that a step leads to, in the order in which they are entered. -/
def VisitStep.ids : VisitStep → List Nat
  | enter tree _ => tree.ids
  | leave .. => []

theorem VisitStep.flatMap_enterAll (depth : Nat) (ts : List Tree) :
    (enterAll depth ts).flatMap ids = Tree.idsAll ts := by
  induction ts with
  | nil => rfl
  | cons t ts ih =>
      rw [enterAll, List.map_cons, List.flatMap_cons, ← enterAll, ih, Tree.idsAll, ids]

structure Visitor.Records (v : Visitor) (d : Document) (calls : Nat → List EditCall) : Prop where
  enter : ∀ s : Site, s.document = d → s.event = .enter → v.calls s = (calls s.id).map .edit
  leave : ∀ s : Site, s.document = d → s.event = .leave → v.calls s = []

theorem Recipe.records {r : Recipe} {d : Document} {calls : Nat → List EditCall}
    (hr : ∀ pattern, r ≠ .removeDirective pattern)
    (hcalls : ∀ s : Site, s.document = d → r.elementCalls s = calls s.id) :
    r.visitor.Records d calls where
  enter s hdocument hevent := by
    have hedits : r.calls s = (r.elementCalls s).map .edit := by
      cases r with
      | removeDirective pattern => exact absurd rfl (hr pattern)
      | _ => rfl
    rw [← hcalls s hdocument, ← hedits]
    exact if_pos hevent
  leave s _ hevent := if_neg (by rw [hevent]; nofun)

def Edits.applyAll (d : Document) (calls : Nat → List EditCall) (es : Edits) (ids : List Nat) :
    Edits :=
  ids.foldl (fun es id => (calls id).foldl (Edits.apply · d id) es) es

namespace Session

variable {d : Document} {v : Visitor} {calls : Nat → List EditCall}

theorem foldl_apply (event : VisitEvent) (id depth : Nat) (cs : List EditCall) (s : Session) :
    (cs.map VisitCall.edit).foldl (apply d event id depth) s =
      { s with edits := cs.foldl (Edits.apply · d id) s.edits } := by
  induction cs generalizing s with
  | nil => rfl
  | cons c cs ih =>
      rw [List.map_cons, List.foldl_cons, ih, List.foldl_cons]
      rfl

variable (h : v.Records d calls)
include h

theorem visit_enter (id depth : Nat) (s : Session) : visit d .enter id depth [v] s =
    (false, { s with edits := s.edits.applyAll d calls [id] }) := by
  have hcalls : v.calls (s.site d .enter id depth) = (calls id).map .edit := h.enter _ rfl rfl
  rw [visit, hcalls]
  refine Prod.ext ?_ (foldl_apply .enter id depth (calls id) s)
  refine (Bool.false_or _).trans (List.any_eq_false.2 fun c hc => ?_)
  obtain ⟨call, -, rfl⟩ := List.mem_map.1 hc
  nofun

theorem visit_leave (id depth : Nat) (s : Session) :
    visit d .leave id depth [v] s = (false, s) := by
  rw [visit, h.leave (s.site d .leave id depth) rfl rfl]
  rfl

theorem edits_run (steps : List VisitStep) (s : Session) :
    (run d [v] steps s).edits = s.edits.applyAll d calls (steps.flatMap VisitStep.ids) := by
  fun_induction run d [v] steps s with
  | case1 s => rfl
  | case2 s id children depth rest s' hvisit hskip =>
      rw [visit_enter h] at hvisit
      cases hvisit
  | case3 s id children depth rest skips s' hvisit hskip ih =>
      rw [visit_enter h, Prod.mk.injEq] at hvisit
      obtain ⟨-, rfl⟩ := hvisit
      rw [ih, List.flatMap_append, VisitStep.flatMap_enterAll, List.flatMap_cons, List.flatMap_cons,
        VisitStep.ids, VisitStep.ids, Tree.ids]
      rfl
  | case4 s id depth rest ih =>
      rw [ih, visit_leave h]
      rfl

end Session

namespace Document

variable {d : Document} (hl : d.outline.Linked) (hpre : d.outline.Preordered)
include hl hpre

theorem ids_tree {id last : Nat} (hlast : last < d.nodes.size)
    (habove : ∀ x, d.outline.Above id x ↔ id ≤ x ∧ x ≤ last) :
    (d.tree id).ids = List.range' id (last + 1 - id) := by
  have hf := forward_of_linked hl
  refine preorder_induction hl hpre
    (P := fun id last => (d.tree id).ids = List.range' id (last + 1 - id))
    (Q := fun _ id last => Tree.idsAll (d.forest id) = List.range' id (last + 1 - id))
    ?_ ?_ hlast habove
  · intro id last hle hlast habove hchild ih
    rw [tree_eq hf, Tree.ids, hchild, show last + 1 - id = last + 1 - (id + 1) + 1 by omega,
      List.range'_succ]
    congr 1
    by_cases hlt : id < last
    · rw [if_pos hlt] at hchild ⊢
      exact ih hlt ((hl.first id).of_eq_some hchild)
    · rw [if_neg hlt, show last + 1 - (id + 1) = 0 by omega]
      rfl
  · intro p id stop last hidstop hstoplast hp hid hnext ih
    rw [forest_eq hf, Tree.idsAll, hid, hnext,
      show last + 1 - id = stop + 1 - id + (last + 1 - (stop + 1)) by omega, ← List.range'_append_1,
      show id + (stop + 1 - id) = stop + 1 by omega]
    congr 1
    by_cases hmore : stop < last
    · rw [if_pos hmore] at hnext ⊢
      obtain ⟨-, q, hq, hpnext⟩ := (hl.next id).of_eq_some hnext
      obtain rfl : p = q := Option.some.inj (hp.symm.trans hq)
      exact ih hmore hpnext
    · rw [if_neg hmore, show last + 1 - (stop + 1) = 0 by omega]
      rfl

theorem edits_visit {v : Visitor} {calls : Nat → List EditCall} (h : v.Records d calls) :
    (d.visit [v]).edits = (Edits.none d).applyAll d calls (List.range d.nodes.size) := by
  have hnonempty : 0 < d.nodes.size := hl.nonempty
  have hids : (d.tree Builder.root).ids = List.range d.nodes.size := by
    rw [ids_tree hl hpre (Nat.sub_lt hnonempty Nat.one_pos) (above_root_iff hl),
      List.range_eq_range', Nat.sub_add_cancel hnonempty]
    rfl
  rw [visit, Session.edits_run h, List.flatMap_singleton, VisitStep.ids, hids]
  rfl

end Document
end BladeTree
