import BladeTree.Proofs.Tree.Arena
import BladeTree.Proofs.Tree.Yields

namespace BladeTree
namespace Builder

def frames (b : Builder) : List Frame × Nat × Nat × Nat :=
  (b.stack, b.elements, b.directives, b.conditions)

/-- A builder that has read on from `start` with the same frames; the nodes of `path` are open. -/
structure Reads (t : Tokenized) (start : Builder) (path : List Nat) (b : Builder) : Prop where
  growing : (outline b.nodes).Growing path b.pos
  fits : b.pos ≤ t.size
  document : (slot b.nodes 0).kind = .document
  le : start.pos ≤ b.pos
  frames : b.frames = start.frames

variable {t : Tokenized} {start b : Builder} {path : List Nat} {c q : Nat}

theorem lt_size_of_current? {kind : TokenType} (h : b.current? t = some kind) : b.pos < t.size :=
  Tokenized.lt_size_of_kind? h

theorem lt_size_of_isAt {kind : TokenType} (h : b.isAt t kind) : b.pos < t.size :=
  lt_size_of_current? (beq_iff_eq.1 h)

theorem yields_node {id : Nat} (hid : id < b.nodes.size) :
    t.Yields (b.node id) (· = slot b.nodes id) := by
  rw [node_eq hid]
  exact rfl

namespace Reads

theorem bump (h : Reads t start path b) (hlt : b.pos < t.size) :
    t.Yields (b.bump t) fun b' => Reads t start path b' ∧ b'.pos = b.pos + 1 := by
  unfold Builder.bump
  rw [if_pos hlt]
  exact ⟨⟨h.growing.advance (Nat.le_succ _), hlt, h.document, h.le.trans (Nat.le_succ _),
    h.frames⟩, rfl⟩

theorem bumpMany (h : Reads t start path b) {n : Nat} (hn : b.pos + n ≤ t.size) :
    t.Yields (Builder.bumpMany t n b) fun b' => Reads t start path b' ∧ b'.pos = b.pos + n := by
  induction n generalizing b with
  | zero => exact ⟨h, rfl⟩
  | succ n ih =>
      refine (h.bump (by omega)).bind fun b₁ ⟨h₁, hpos₁⟩ => ?_
      exact (ih h₁ (by omega)).mono fun b' ⟨h', hpos'⟩ => ⟨h', by omega⟩

theorem eat (h : Reads t start path b) (kind : TokenType) :
    t.Yields (b.eat t kind) fun (_, b') => Reads t start path b' ∧ b.pos ≤ b'.pos := by
  unfold Builder.eat
  refine .ite (fun hat => ?_) fun _ => ⟨h, le_rfl⟩
  exact (h.bump (lt_size_of_isAt hat)).bind fun b₁ ⟨h₁, hpos₁⟩ => ⟨h₁, by omega⟩

theorem eatContent (h : Reads t start path b) (kind : TokenType) :
    t.Yields (b.eatContent t kind) fun (_, b') => Reads t start path b' ∧ b.pos ≤ b'.pos := by
  unfold Builder.eatContent
  refine .ite (fun hat => ?_) fun _ => ⟨h, le_rfl⟩
  have hlt := lt_size_of_isAt hat
  refine (Tokenized.yields_text hlt).bind fun text _ => ?_
  exact (h.bump hlt).bind fun b₁ ⟨h₁, hpos₁⟩ => ⟨h₁, by omega⟩

theorem startIn (h : Reads t start (q :: path) b) (kind : NodeKind) :
    t.Yields (b.startIn q kind) fun (id, b') =>
      Reads t start (id :: q :: path) b' ∧ b'.pos = b.pos := by
  have hl := h.growing.linked
  have hq : q < b.nodes.size := h.growing.lt_size
  rw [startIn_eq hl hq]
  refine ⟨⟨?_, h.fits, ?_, h.le, h.frames⟩, rfl⟩
  · rw [outline_grown hl hq]
    exact h.growing.grow
  · have hne : 0 ≠ b.nodes.size := hl.nonempty.ne
    rw [slot_grown hl hq, if_neg hne]
    exact h.document

theorem modifyData (h : Reads t start path b) (g : FlatNode → Int32) (hc : c < b.nodes.size) :
    t.Yields (b.modify c fun n => { n with data := g n }) fun b' =>
      Reads t start path b' ∧ b'.pos = b.pos := by
  rw [modify_eq hc]
  refine ⟨⟨?_, h.fits, ?_, h.le, h.frames⟩, rfl⟩
  · rw [outline_modify_data hc]
    exact h.growing
  · rw [slot_modify hc]
    split <;> exact h.document

theorem setData (h : Reads t start path b) (data : Int32) (hc : c < b.nodes.size) :
    t.Yields (b.setData c data) fun b' => Reads t start path b' ∧ b'.pos = b.pos :=
  h.modifyData (fun _ => data) hc

theorem setFlag (h : Reads t start path b) (flag : ElementFlag) (hc : c < b.nodes.size) :
    t.Yields (b.setFlag c flag) fun b' => Reads t start path b' ∧ b'.pos = b.pos :=
  h.modifyData (fun n => n.data ||| flag.bit) hc

theorem finish (h : Reads t start (c :: path) b) :
    t.Yields (b.finish c) fun b' =>
      Reads t start path b' ∧ b'.pos = b.pos ∧ b'.nodes.size = b.nodes.size ∧
        (outline b'.nodes).stop c = b.pos := by
  have hc : c < b.nodes.size := h.growing.lt_size
  have hstart : (slot b.nodes c).tokenStart ≤ b.pos := h.growing.start_le hc
  unfold Builder.finish finishAt
  simp only [node_eq hc, ok_bind, if_pos hstart, modify_eq hc]
  refine ⟨⟨?_, h.fits, ?_, h.le, h.frames⟩, rfl, Array.size_modify, ?_⟩
  · rw [outline_modify_tokenCount hc hstart]
    exact h.growing.close
  · rw [slot_modify hc]
    split <;> exact h.document
  · rw [outline_modify_tokenCount hc hstart]
    exact if_pos rfl

theorem leaf (h : Reads t start (q :: path) b) (kind : NodeKind) {n : Nat}
    (hn : b.pos + n ≤ t.size) :
    t.Yields (b.leaf t q kind n) fun (id, b') =>
      Reads t start (q :: path) b' ∧ b'.pos = b.pos + n ∧ id < b'.nodes.size := by
  unfold Builder.leaf
  refine (h.startIn kind).bind fun ⟨id, b₁⟩ ⟨h₁, hpos₁⟩ => ?_
  refine (h₁.bumpMany (by omega)).bind fun b₂ ⟨h₂, hpos₂⟩ => ?_
  have hid : id < b₂.nodes.size := h₂.growing.lt_size
  exact h₂.finish.bind fun b₃ ⟨h₃, hpos₃, hsize, _⟩ =>
    ⟨h₃, by omega, by omega⟩

theorem reportTokens (h : Reads t start path b) (kind : DiagnosticKind) {i j : Nat}
    (hj : j ≤ t.size) (detail : String) (context : Option String) :
    t.Yields (b.reportTokens t kind i j detail context) fun b' =>
      Reads t start path b' ∧ b'.pos = b.pos := by
  unfold Builder.reportTokens
  refine (Tokenized.yields_span hj).bind fun span _ => ?_
  exact ⟨⟨h.growing, h.fits, h.document, h.le, h.frames⟩, rfl⟩

theorem metadata (h : Reads t start path b) (metadata : Metadata) :
    Reads t start path { b with metadata } :=
  ⟨h.growing, h.fits, h.document, h.le, h.frames⟩

end Reads
end Builder
end BladeTree
