import BladeTree.Proofs.Edit.Locality

namespace BladeTree
namespace Document

variable {d : Document} {es : Edits} {f g : Nat → String} {pos : Nat} {ids : List Nat}
  {ps : List Piece}

/-- The source from token `pos` on, with other text in place of some of its nodes. -/
def replacing (d : Document) (f : Nat → String) : Nat → List Nat → String
  | pos, [] => d.textBetween pos d.size
  | pos, id :: ids => d.textBetween pos (d.node id).tokenStart ++
      (f id ++ d.replacing f (d.node id).tokenEnd ids)

def InOrder (d : Document) : Nat → List Nat → Prop
  | pos, [] => pos ≤ d.size
  | pos, id :: ids => pos ≤ (d.node id).tokenStart ∧ d.InOrder (d.node id).tokenEnd ids

theorem replacing_congr (h : ∀ id ∈ ids, f id = g id) :
    d.replacing f pos ids = d.replacing g pos ids := by
  induction ids generalizing pos with
  | nil => rfl
  | cons id ids ih =>
      obtain ⟨hid, hrest⟩ := List.forall_mem_cons.1 h
      rw [replacing, replacing, hid, ih hrest]

theorem Laid.inOrder (h : d.Laid es pos d.size ids ps) : d.InOrder pos ids := by
  generalize hsize : d.size = stop at h
  induction h with
  | plain hle => exact hle.trans_eq hsize.symm
  | edited _ hle _ _ _ ih => exact ⟨hle, ih hsize⟩

theorem Laid.concat_eq (h : d.Laid es pos d.size ids ps)
    (hplain : ∀ id ∈ ids, ∀ p ∈ d.pieces es id, p.isDirective = false) :
    (∀ p ∈ ps, p.isDirective = false) ∧
      Piece.concat ps = d.replacing (fun id => Piece.concat (d.pieces es id)) pos ids := by
  generalize hsize : d.size = stop at h
  induction h with
  | plain _ hall htext => exact ⟨hall, htext.trans (hsize ▸ rfl)⟩
  | @edited pos id stop ids ps rest _ _ hbefore htext _ ih =>
      obtain ⟨hid, hrest⟩ := List.forall_mem_cons.1 hplain
      obtain ⟨hafter, hconcat⟩ := ih hrest hsize
      refine ⟨fun p hp => ?_, ?_⟩
      · rcases List.mem_append.1 hp with hp | hp
        · exact hbefore p hp
        · exact (List.mem_append.1 hp).elim (hid p) (hafter p)
      · rw [Piece.concat_append, Piece.concat_append, htext, hconcat, replacing]

/-- Where no directive is added, the outermost edited nodes are replaced by their pieces, and there
are no separators. -/
theorem edit_eq_replacing (hw : d.toTokenized.Whole)
    (hg : (BladeTree.outline d.nodes).Growing [] d.size)
    (hcovers : (d.node Builder.root).tokenEnd = d.size)
    (hplain : ∀ id ∈ d.topmost es, ∀ p ∈ d.pieces es id, p.isDirective = false) :
    d.edit es = d.replacing (fun id => Piece.concat (d.pieces es id)) 0 (d.topmost es) := by
  by_cases hempty : es.isEmpty
  · rw [edit, if_pos hempty, topmost_eq_nil_of_isEmpty hempty, replacing, hw.textBetween_all]
  · obtain ⟨hall, htext⟩ := (laid_root hw hg hcovers es).concat_eq hplain
    obtain ⟨s, -, hnone, hpushed⟩ := Output.foldl_push_plain hall .empty
    have hjoin : Piece.join (d.pieces es Builder.root) =
        Piece.concat (d.pieces es Builder.root) := by
      rw [Piece.join, hpushed, hnone rfl]
      exact (congrArg (· ++ _) String.append_empty).trans String.empty_append
    rw [edit, if_neg hempty, ← htext]
    exact hjoin

end Document
end BladeTree
