import BladeTree.Proofs.Node.Metadata
import BladeTree.Proofs.Tree.Inner

namespace BladeTree

/-- Where a node starts that can be left without its end, or is an end without a beginning. The
length is kept of those that nothing can be added to later. -/
inductive Landmark where
  | element (first : Nat)
  | block (first : Nat)
  | verbatim (first stop : Nat)
  | stray (first stop : Nat)
  deriving DecidableEq

namespace Landmark

def first : Landmark → Nat
  | element first | block first | verbatim first _ | stray first _ => first

def endAt (stop : Nat) : Landmark → Landmark
  | verbatim first _ => verbatim first stop
  | stray first _ => stray first stop
  | mark => mark

end Landmark

def FlatNode.mark? (n : FlatNode) : Option Landmark :=
  match n.kind with
  | .element => some (.element n.tokenStart)
  | .directiveBlock => some (.block n.tokenStart)
  | .verbatim => some (.verbatim n.tokenStart n.tokenEnd)
  | .strayClosingTag => some (.stray n.tokenStart n.tokenEnd)
  | _ => none

/-- What a tree that is being built shows of openings, closings and recovery: the open frames, the
marks of its nodes, why they were closed, and what was reported of recovery. -/
structure Ledger where
  stack : List Frame
  mark : Nat → Option Landmark
  reason : Nat → Option ClosedBy
  reports : List Diagnostic

namespace Ledger

def setMark (L : Ledger) (id : Nat) (mark : Option Landmark) : Ledger :=
  { L with mark := Function.update L.mark id mark }

def setReason (L : Ledger) (id : Nat) (reason : ClosedBy) : Ledger :=
  { L with reason := Function.update L.reason id (some reason) }

def report (L : Ledger) (d : Diagnostic) : Ledger :=
  { L with reports := L.reports ++ [d] }

variable {L : Ledger} {id : Nat}

theorem setMark_eq_self {mark : Option Landmark} (h : L.mark id = mark) :
    L.setMark id mark = L := by
  rw [setMark, ← h, Function.update_eq_self]

theorem setMark_setMark (L : Ledger) (id : Nat) (old new : Option Landmark) :
    (L.setMark id old).setMark id new = L.setMark id new := by
  simp only [setMark, Function.update_idem]

@[simp] theorem mark_setMark_self (L : Ledger) (id : Nat) (mark : Option Landmark) :
    (L.setMark id mark).mark id = mark :=
  Function.update_self _ _ _

@[simp] theorem reason_setReason_self (L : Ledger) (id : Nat) (reason : ClosedBy) :
    (L.setReason id reason).reason id = some reason :=
  Function.update_self _ _ _

end Ledger

theorem FlatNode.mark?_of_own {n m : FlatNode} (h : n.own = m.own) : n.mark? = m.mark? := by
  have hown : n.own.mark? = m.own.mark? := congrArg FlatNode.mark? h
  exact hown

theorem FlatNode.mark?_of_isPlain {n : FlatNode} (h : n.kind.isPlain) : n.mark? = none := by
  unfold mark?
  split <;> simp_all [NodeKind.isPlain]

namespace Builder

def ledger (b : Builder) : Ledger where
  stack := b.stack
  mark id := (slot b.nodes id).mark?
  reason := b.metadata.closedBy?
  reports := b.diagnostics.toList.filter (·.kind.isRecovery)

variable {t : Tokenized} {start b b' : Builder} {q id : Nat}

theorem mark_eq_none (h : b.nodes.size ≤ id) : b.ledger.mark id = none := by
  have hslot : slot b.nodes id = .unlinked .document 0 := by
    unfold slot
    rw [Array.getD_eq_getD_getElem?, Array.getElem?_eq_none h]
    rfl
  unfold ledger
  simp only [hslot]
  rfl

/-! What single changes do to the ledger -/

theorem ledger_startIn (b : Builder) (q : Nat) (kind : NodeKind) :
    Build.Returns (b.startIn q kind) fun (id, b') => id = b.nodes.size ∧ b'.pos = b.pos ∧
      b'.ledger = b.ledger.setMark id (FlatNode.unlinked kind b.pos).mark? := by
  refine (startIn_own b q kind).returns.mono fun ⟨id, b'⟩ ⟨hid, _, hrest, hown⟩ => ?_
  refine ⟨hid, by rw [hrest], ?_⟩
  rw [hrest]
  unfold ledger Ledger.setMark
  simp only [Ledger.mk.injEq, true_and, and_true]
  funext i
  rw [Function.update_apply, hid]
  split
  · exact FlatNode.mark?_of_own (m := { FlatNode.unlinked kind b.pos with parent := some q })
      ((hown i).trans (if_pos ‹_›))
  · exact FlatNode.mark?_of_own ((hown i).trans (if_neg ‹_›))

theorem ledger_startIn_plain (b : Builder) (q : Nat) {kind : NodeKind}
    (hk : (FlatNode.unlinked kind b.pos).mark? = none) :
    Build.Returns (b.startIn q kind) fun (id, b') => b.ledger.mark id = none ∧
      b'.pos = b.pos ∧ b'.ledger = b.ledger := by
  refine (ledger_startIn b q kind).mono fun ⟨id, b'⟩ ⟨hid, hpos, hledger⟩ => ?_
  have hnone : b.ledger.mark id = none := mark_eq_none hid.ge
  exact ⟨hnone, hpos, by rw [hledger, hk, Ledger.setMark_eq_self hnone]⟩

theorem ledger_modify {f : FlatNode → FlatNode} (hf : ∀ n, (f n).mark? = n.mark?) (id : Nat) :
    Build.Returns (b.modify id f) fun b' => b'.pos = b.pos ∧ b'.ledger = b.ledger := by
  refine .ite (fun hid => .ok ⟨rfl, ?_⟩) fun _ => .fault
  unfold ledger
  simp only [Ledger.mk.injEq, true_and, and_true]
  funext i
  rw [slot_modify hid]
  split
  · exact hf _
  · rfl

theorem ledger_setFlag (b : Builder) (id : Nat) (flag : ElementFlag) :
    Build.Returns (b.setFlag id flag) fun b' => b'.pos = b.pos ∧ b'.ledger = b.ledger :=
  ledger_modify (f := fun n => { n with data := n.data ||| flag.bit }) (fun _ => rfl) id

theorem ledger_setData (b : Builder) (id : Nat) (data : Int32) :
    Build.Returns (b.setData id data) fun b' => b'.pos = b.pos ∧ b'.ledger = b.ledger :=
  ledger_modify (f := ({ · with data := data })) (fun _ => rfl) id

theorem returns_node (b : Builder) (id : Nat) :
    Build.Returns (b.node id) fun node => id < b.nodes.size ∧ node = slot b.nodes id := by
  unfold node
  split
  · rename_i node hnode
    have hid : id < b.nodes.size := (getElem?_eq_some_iff.1 hnode).1
    exact .ok ⟨hid, Option.some.inj (hnode.symm.trans (getElem?_eq_slot hid))⟩
  · exact .fault

theorem ledger_finishAt (b : Builder) (id stop : Nat) :
    Build.Returns (b.finishAt id stop) fun b' => b'.pos = b.pos ∧
      b'.ledger = b.ledger.setMark id ((b.ledger.mark id).map (·.endAt stop)) := by
  unfold finishAt
  refine (returns_node b id).bind ?_
  rintro node ⟨hid, rfl⟩
  refine .ite (fun hle => .ite (fun _ => .ok ⟨rfl, ?_⟩) fun _ => .fault) fun _ => .fault
  unfold ledger Ledger.setMark
  simp only [Ledger.mk.injEq, true_and, and_true]
  funext i
  rw [Function.update_apply, slot_modify hid]
  split
  · rename_i hi
    subst hi
    have hstop : (slot b.nodes i).tokenStart + (stop - (slot b.nodes i).tokenStart) = stop :=
      Nat.add_sub_cancel' hle
    unfold FlatNode.mark? FlatNode.tokenEnd
    simp only [hstop]
    split <;> rfl
  · rfl

theorem ledger_finishAt_of_endAt (stop : Nat)
    (hid : (b.ledger.mark id).map (·.endAt stop) = b.ledger.mark id) :
    Build.Returns (b.finishAt id stop) fun b' => b'.pos = b.pos ∧ b'.ledger = b.ledger := by
  refine (ledger_finishAt b id stop).mono fun b' ⟨hpos, hledger⟩ => ⟨hpos, ?_⟩
  rw [hledger, hid, Ledger.setMark_eq_self rfl]

theorem ledger_bumpMany (b : Builder) (n : Nat) :
    Build.Returns (bumpMany t n b) fun b' => b'.pos = b.pos + n ∧ b'.ledger = b.ledger := by
  induction n generalizing b with
  | zero => exact .ok ⟨rfl, rfl⟩
  | succ n ih =>
      refine (returns_bump b).bind fun b₁ ⟨_, hb₁⟩ => ?_
      refine (ih b₁).mono fun b' ⟨hpos, hledger⟩ => ⟨?_, ?_⟩
      · rw [hpos, hb₁]
        exact Nat.add_right_comm _ _ _
      · rw [hledger, hb₁]
        rfl

theorem ledger_leaf (b : Builder) (q : Nat) {kind : NodeKind}
    (hk : (FlatNode.unlinked kind b.pos).mark? = none) (n : Nat) :
    Build.Returns (b.leaf t q kind n) fun (_, b') =>
      b'.pos = b.pos + n ∧ b'.ledger = b.ledger := by
  unfold leaf
  refine (ledger_startIn_plain b q hk).bind fun ⟨id, b₁⟩ ⟨hnone, hpos₁, hledger₁⟩ => ?_
  refine (ledger_bumpMany b₁ n).bind fun b₂ ⟨hpos₂, hledger₂⟩ => ?_
  have hledger : b₂.ledger = b.ledger := hledger₂.trans hledger₁
  refine Build.Returns.bind (ledger_finishAt_of_endAt b₂.pos ?_) fun b₃ ⟨hpos₃, hledger₃⟩ => ?_
  · rw [hledger, hnone]
    rfl
  · exact .ok ⟨by rw [hpos₃, hpos₂, hpos₁], hledger₃.trans hledger⟩

theorem ledger_reportTokens (b : Builder) (kind : DiagnosticKind) (i j : Nat) (detail : String)
    (context : Option String) :
    Build.Returns (b.reportTokens t kind i j detail context) fun b' => b'.pos = b.pos ∧
      ∃ r : Diagnostic, r.kind = kind ∧ t.span i j = .ok r.span ∧
        b'.ledger = if kind.isRecovery then b.ledger.report r else b.ledger := by
  refine (returns_report b kind i j detail context).mono fun b' ⟨span, hspan, hb'⟩ => ?_
  subst hb'
  refine ⟨rfl, .detailed kind span detail context, rfl, hspan, ?_⟩
  unfold ledger Ledger.report report
  rw [Array.toList_push, List.filter_append, List.filter_singleton]
  cases hkind : kind.isRecovery <;> simp [Diagnostic.detailed, hkind]

/-- Inside of a construct nothing happens that the ledger keeps. -/
theorem Inner.ledger_eq (h : Inner t q start b) : b.ledger = start.ledger := by
  have hnew {id : Nat} {b₁ : Builder} (hid : start.nodes.size ≤ id)
      (ih : b₁.ledger = start.ledger) : b₁.ledger.mark id = none := by
    rw [ih]
    exact mark_eq_none hid
  induction h with
  | refl => rfl
  | bump _ hb ih =>
      obtain ⟨-, rfl⟩ := returns_bump _ _ hb
      exact ih
  | node _ _ hk hb ih =>
      exact (ledger_startIn_plain _ _ (FlatNode.mark?_of_isPlain hk) _ hb).2.2.trans ih
  | finish _ hid hb ih =>
      have hend := hnew hid ih
      refine (ledger_finishAt_of_endAt _ ?_ _ hb).2.trans ih
      rw [hend]
      rfl
  | data _ _ hb ih => exact (ledger_setData _ _ _ _ hb).2.trans ih
  | genericArgs offset _ ih =>
      rw [← ih]
      unfold ledger
      simp only [Metadata.closedBy?_setGenericArgsOffset]
  | report _ hk hb ih =>
      obtain ⟨-, r, -, -, hledger⟩ := ledger_reportTokens _ _ _ _ _ _ _ hb
      rw [hledger, hk]
      exact ih

/-! Frames -/

theorem ledger_setClosedBy (b : Builder) (id : Nat) (reason : ClosedBy) :
    { b with metadata := b.metadata.setClosedBy id reason }.ledger =
      b.ledger.setReason id reason := by
  unfold ledger Ledger.setReason
  simp only [Metadata.closedBy?_setClosedBy]

theorem ledger_pushFrame (b : Builder) (f : Frame) :
    (b.pushFrame f).ledger = { b.ledger with stack := f :: b.stack } := by
  obtain ⟨node, kind⟩ := f
  cases kind with
  | element name => rfl
  | directive rule name =>
      unfold pushFrame
      cases hc : rule.conditional <;> simp only [hc, if_true, if_false, Bool.false_eq_true] <;> rfl

theorem ledger_popFrame {f : Frame} {below : List Frame} (hs : b.stack = f :: below) (stop : Nat)
    (hend : (b.ledger.mark f.node).map (·.endAt stop) = b.ledger.mark f.node) :
    Build.Returns (b.popFrame stop) fun (popped, b') => popped = some f ∧ b'.pos = b.pos ∧
      b'.ledger = { b.ledger with stack := below } := by
  have hclose {b₁ : Builder} (hpos : b₁.pos = b.pos)
      (hledger : b₁.ledger = { b.ledger with stack := below }) :
      Build.Returns (do return (some f, ← b₁.finishAt f.node stop)) fun (popped, b') =>
        popped = some f ∧ b'.pos = b.pos ∧ b'.ledger = { b.ledger with stack := below } := by
    refine Build.Returns.bind (ledger_finishAt_of_endAt stop ?_) fun b₂ ⟨hpos₂, hledger₂⟩ => ?_
    · rw [hledger]
      exact hend
    · exact .ok ⟨rfl, hpos₂.trans hpos, hledger₂.trans hledger⟩
  unfold popFrame
  rw [hs]
  simp only
  split
  · exact Build.Returns.any.bind fun _ _ => hclose rfl rfl
  · refine Build.Returns.any.bind fun _ _ => ?_
    split
    · exact Build.Returns.any.bind fun _ _ => hclose rfl rfl
    · exact hclose rfl rfl

end Builder
end BladeTree
