import BladeTree.Proofs.Document.Blocks
import BladeTree.Proofs.Edit.StartTag
import BladeTree.Proofs.Tree.Filled

namespace BladeTree
namespace Document

variable {o : ParseOptions} {text : String} {d : Document} {id pos stop j p : Nat}
  {ws : List Written}

/-! The parts of an element -/

/-- Written nodes that follow one another from token `pos` on. None is without tokens, and each is
as it is in the source. -/
inductive Placed (d : Document) (stop : Nat) : Nat → List Written → Prop
  | nil {pos : Nat} : pos ≤ stop → Placed d stop pos []
  | cons {pos : Nat} {w : Written} {ws : List Written} : pos ≤ (d.node w.id).tokenStart →
      (d.node w.id).tokenStart < (d.node w.id).tokenEnd → (d.node w.id).tokenEnd ≤ stop →
      w.pieces = [.plain (d.text w.id)] → Placed d stop (d.node w.id).tokenEnd ws →
      Placed d stop pos (w :: ws)

theorem Placed.mono (h : d.Placed stop pos ws) (hle : j ≤ pos) : d.Placed stop j ws := by
  cases h with
  | nil hpos => exact .nil (hle.trans hpos)
  | cons hpos hlt hend hplain hrest => exact .cons (hle.trans hpos) hlt hend hplain hrest

theorem Placed.le (h : d.Placed stop pos ws) : pos ≤ stop := by
  cases h with
  | nil hpos => exact hpos
  | cons hpos hlt hend _ _ => exact hpos.trans (hlt.le.trans hend)

theorem Placed.lt (h : d.Placed stop pos ws) (hne : ws ≠ []) : pos < stop := by
  cases h with
  | nil => exact absurd rfl hne
  | cons hpos hlt hend _ _ => exact hpos.trans_lt (hlt.trans_le hend)

theorem Placed.succ {w : Written} (h : d.Placed stop pos (w :: ws))
    (hstart : (d.node w.id).tokenStart ≠ pos) : d.Placed stop (pos + 1) (w :: ws) := by
  cases h with
  | cons hpos hlt hend hplain hrest =>
      exact .cons (hpos.lt_of_ne (Ne.symm hstart)) hlt hend hplain hrest

theorem concat_plain (s : String) : Piece.concat [.plain s] = s := by
  rw [Piece.concat, Piece.concat, String.append_empty, Piece.plain]

theorem concat_own (i : Nat) : Piece.concat (d.partPieces (.own i)) = d.tokenText i (i + 1) :=
  concat_plain _

theorem concat_child {w : Written} (hplain : w.pieces = [.plain (d.text w.id)]) :
    Piece.concat (d.partPieces (.child w)) = d.text w.id := by
  have hpieces : d.partPieces (.child w) = [.plain (d.text w.id)] := hplain
  rw [hpieces, concat_plain]

theorem concat_elementParts (hw : d.toTokenized.Whole) (h : d.Placed stop pos ws) :
    Piece.concat ((d.elementParts pos stop ws).flatMap d.partPieces) = d.textBetween pos stop := by
  have hown {pos : Nat} (hlt : pos < stop) :
      d.tokenText pos (pos + 1) ++ d.textBetween (pos + 1) stop = d.textBetween pos stop := by
    rw [tokenText_eq hw (Nat.le_succ pos), hw.textBetween_append (Nat.le_succ pos) hlt]
  fun_induction elementParts d pos stop ws with
  | case1 w rest hlt ih =>
      cases h with
      | cons _ hsolid hend hplain hrest =>
          have hmax : max (d.node w.id).tokenEnd ((d.node w.id).tokenStart + 1) =
              (d.node w.id).tokenEnd := max_eq_left hsolid
          rw [hmax] at ih ⊢
          rw [List.flatMap_cons, Piece.concat_append, ih hrest, concat_child hplain]
          unfold Document.text
          rw [tokenText_eq hw hsolid.le, hw.textBetween_append hsolid.le hend]
  | case2 pos hlt w rest hstart ih =>
      rw [List.flatMap_cons, Piece.concat_append, ih (h.succ hstart), concat_own]
      exact hown hlt
  | case3 pos hlt ih =>
      rw [List.flatMap_cons, Piece.concat_append, ih (.nil hlt), concat_own]
      exact hown hlt
  | case4 pos ws hlt =>
      obtain rfl : pos = stop := le_antisymm h.le (Nat.le_of_not_lt hlt)
      rw [Tokenized.textBetween, d.source.slice_self]
      rfl

def child? : ElementPart → Option Nat
  | .child w => some w.id
  | .own _ => none

theorem filterMap_elementParts (h : d.Placed stop pos ws) :
    (d.elementParts pos stop ws).filterMap child? = ws.map (·.id) := by
  fun_induction elementParts d pos stop ws with
  | case1 w rest hlt ih =>
      cases h with
      | cons _ hsolid hend hplain hrest =>
          have hmax : max (d.node w.id).tokenEnd ((d.node w.id).tokenStart + 1) =
              (d.node w.id).tokenEnd := max_eq_left hsolid
          rw [hmax] at ih ⊢
          rw [List.filterMap_cons, ih hrest]
          rfl
  | case2 pos hlt w rest hstart ih => exact ih (h.succ hstart)
  | case3 pos hlt ih => exact ih (.nil hlt)
  | case4 pos ws hlt =>
      cases ws with
      | nil => rfl
      | cons w ws => exact absurd (h.lt (by simp)) hlt

theorem mem_of_child {w : Written} (h : .child w ∈ d.elementParts pos stop ws) : w ∈ ws := by
  fun_induction elementParts d pos stop ws with
  | case1 w' rest hlt ih =>
      rcases List.mem_cons.1 h with heq | h
      · cases heq
        exact List.mem_cons_self
      · exact List.mem_cons_of_mem _ (ih h)
  | case2 pos hlt w' rest hstart ih =>
      rcases List.mem_cons.1 h with heq | h
      · cases heq
      · exact ih h
  | case3 pos hlt ih =>
      rcases List.mem_cons.1 h with heq | h
      · cases heq
      · exact ih h
  | case4 => cases h

/-! The children of a node as they are in the source -/

def plainWritten (d : Document) (c : Nat) : Written := ⟨c, [.plain (d.text c)]⟩

theorem Placed.cons_iff {c : Nat} {ids : List Nat} :
    d.Placed stop pos ((c :: ids).map d.plainWritten) ↔
      pos ≤ (d.node c).tokenStart ∧ (d.node c).tokenStart < (d.node c).tokenEnd ∧
        (d.node c).tokenEnd ≤ stop ∧ d.Placed stop (d.node c).tokenEnd (ids.map d.plainWritten) := by
  rw [List.map_cons]
  constructor
  · intro h
    cases h with
    | cons hpos hsolid hend _ hrest => exact ⟨hpos, hsolid, hend, hrest⟩
  · rintro ⟨hpos, hsolid, hend, hrest⟩
    exact .cons hpos hsolid hend rfl hrest

/-- The parts of an element, with its children as they are in the source. -/
def parts (d : Document) (id : Nat) : List ElementPart :=
  d.elementParts (d.node id).tokenStart (d.node id).tokenEnd ((d.children id).map d.plainWritten)

/-- The document with these parts for an element. -/
def withParts (d : Document) (id : Nat) (parts : List ElementPart) : String :=
  d.textBetween 0 (d.node id).tokenStart ++
    (Piece.concat (parts.flatMap d.partPieces) ++ d.textBetween (d.node id).tokenEnd d.size)

def Solid (d : Document) (id : Nat) : Prop :=
  ∀ c, (d.node c).parent = some id → (d.node c).tokenStart < (d.node c).tokenEnd

/-- Only values of attributes can be without tokens. -/
theorem solid_of_parse (h : parse o text = .ok d) (hid : d.kind id ≠ .attr) : d.Solid id := by
  obtain ⟨lexed, b, hw, hb, rfl⟩ := exists_wellFormed_of_parse h
  intro c hc
  obtain ⟨hlt, hsize⟩ := hw.parent c id hc
  rcases Builder.filled_build b hb c hsize with rfl | hfilled
  · exact absurd hlt (Nat.not_lt_zero id)
  · cases hfilled with
    | tokens hcount => exact Nat.lt_add_of_pos_right hcount
    | inAttribute hp hattr =>
        obtain rfl : id = _ := Option.some.inj (hc.symm.trans hp)
        exact absurd hattr hid

theorem placed_siblingsFrom (hw : d.WellFormed) (hsolid : d.Solid p)
    (hj : (d.node j).parent = some p) :
    d.Placed (d.node p).tokenEnd (d.node j).tokenStart
      ((d.siblingsFrom j).map d.plainWritten) := by
  induction hn : d.nodes.size - j using Nat.strong_induction_on generalizing j with
  | _ n ih =>
      have hend := (hw.inside j p hj).2
      rw [siblingsFrom_eq hw.forward, List.map_cons]
      refine .cons le_rfl (hsolid j hj) hend rfl ?_
      cases hs : (d.node j).nextSibling with
      | none => exact .nil hend
      | some next =>
          obtain ⟨⟨hlt, q, hq, hnextp⟩, -⟩ := hs ▸ hw.nextSibling j
          obtain rfl : p = q := Option.some.inj (hj.symm.trans hq)
          have hsize := (hw.parent next p hnextp).2
          exact (ih _ (by omega) hnextp rfl).mono (hw.apart j next hs).2

theorem placed_children (hw : d.WellFormed) (hsolid : d.Solid id)
    (hordered : (d.node id).tokenStart ≤ (d.node id).tokenEnd) :
    d.Placed (d.node id).tokenEnd (d.node id).tokenStart
      ((d.children id).map d.plainWritten) := by
  unfold children
  cases hc : (d.node id).firstChild with
  | none => exact .nil hordered
  | some first =>
      have hparent := (hc ▸ hw.firstChild id).1
      exact (placed_siblingsFrom hw hsolid hparent).mono (hw.inside first id hparent).1

theorem isDirective_of_mem_parts {part : ElementPart} {piece : Piece} (hpart : part ∈ d.parts id)
    (h : piece ∈ d.partPieces part) : piece.isDirective = false := by
  cases part with
  | own i => exact List.mem_singleton.1 h ▸ rfl
  | child w =>
      obtain ⟨c, -, rfl⟩ := List.mem_map.1 (mem_of_child hpart)
      exact List.mem_singleton.1 h ▸ rfl

theorem children_remaining (hw : d.WellFormed) (hsolid : d.Solid id) (e : NodeEdits)
    (tagEnd : Nat) :
    (remaining (d.losesPart e) (d.isTagBlank tagEnd) (d.parts id)).filterMap child? =
      (d.children id).filter fun c =>
        !(d.kind c == .attr && e.removesAttribute (d.attributeName c)) := by
  have hordered : (d.node id).tokenStart ≤ (d.node id).tokenEnd := Nat.le_add_right _ _
  have hchildren : (d.parts id).filterMap child? = d.children id := by
    rw [parts, filterMap_elementParts (placed_children hw hsolid hordered), List.map_map]
    exact List.map_id _
  rw [← hchildren, filterMap_remaining, List.filterMap_filter, List.filter_filterMap]
  · refine congrArg (List.filterMap · (d.parts id)) (funext fun part => ?_)
    cases part with
    | own i => rfl
    | child w => rfl
  · rintro (w | i) hsome
    · rfl
    · cases hsome

end Document
end BladeTree
