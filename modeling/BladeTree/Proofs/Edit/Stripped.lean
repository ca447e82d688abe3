import BladeTree.Proofs.Edit.Alike
import BladeTree.Proofs.Edit.Parts

namespace BladeTree
namespace Document

section Definitions

variable (d : Document)

def blankStart (tagEnd pos start : Nat) : Nat :=
  if pos < start ∧ start ≤ tagEnd ∧ d.kind? (start - 1) = some .whitespace then start - 1
  else start

/-- The tokens `pos … stop`, those of the children as they are written. Some children go, each with
the blank before it. -/
def stripped (goes : Nat → Bool) (tagEnd pos stop : Nat) : List Written → List Piece
  | [] => [.plain (d.tokenText pos stop)]
  | w :: rest =>
    if goes w.id then
      .plain (d.tokenText pos (d.blankStart tagEnd pos (d.node w.id).tokenStart)) ::
        stripped goes tagEnd (d.node w.id).tokenEnd stop rest
    else
      .plain (d.tokenText pos (d.node w.id).tokenStart) :: w.pieces ++
        stripped goes tagEnd (d.node w.id).tokenEnd stop rest

end Definitions

variable {d : Document} {goes : Nat → Bool} {e : NodeEdits} {tagEnd pos stop start : Nat}
  {ws ws' : List Written}

theorem stripped_eq_interleave (h : ∀ w ∈ ws, goes w.id = false) :
    d.stripped goes tagEnd pos stop ws = d.interleave pos stop ws := by
  induction ws generalizing pos with
  | nil => rfl
  | cons w ws ih =>
      obtain ⟨hw, hws⟩ := List.forall_mem_cons.1 h
      rw [stripped, hw, if_neg Bool.false_ne_true, ih hws, interleave]

theorem alike_stripped (h : List.Forall₂ Written.Alike ws ws') :
    Piece.Alike (d.stripped goes tagEnd pos stop ws) (d.stripped goes tagEnd pos stop ws') := by
  induction h generalizing pos with
  | nil => exact .refl _
  | cons hw _ ih =>
      rw [stripped, stripped, hw.id]
      split
      · exact ih.cons _
      · exact (hw.pieces.cons _).append ih

theorem blankStart_succ (hlt : pos < start)
    (h : ¬ (start = pos + 1 ∧ d.isTagBlank tagEnd (.own pos))) :
    d.blankStart tagEnd pos start = d.blankStart tagEnd (pos + 1) start ∧
      pos + 1 ≤ d.blankStart tagEnd pos start := by
  obtain rfl | hmore : start = pos + 1 ∨ pos + 1 < start := by omega
  · have hblank : d.blankStart tagEnd pos (pos + 1) = pos + 1 := by
      rw [blankStart, if_neg]
      rintro ⟨-, hle, hkind⟩
      apply h
      rw [Nat.add_sub_cancel] at hkind
      simp [isTagBlank, hkind, Nat.lt_of_succ_le hle]
    have hself : d.blankStart tagEnd (pos + 1) (pos + 1) = pos + 1 :=
      if_neg fun hroom => lt_irrefl _ hroom.1
    rw [hblank, hself]
    exact ⟨rfl, le_rfl⟩
  · simp only [blankStart, hlt, hmore, true_and]
    split
    · omega
    · omega

section Whole

variable (hw : d.toTokenized.Whole)
include hw

theorem tokenText_self (i : Nat) : d.tokenText i i = "" := by
  rw [tokenText_eq hw le_rfl, Tokenized.textBetween, d.source.slice_self]

theorem alike_token (hlt : pos < start) (ps : List Piece) :
    Piece.Alike (.plain (d.tokenText pos (pos + 1)) :: .plain (d.tokenText (pos + 1) start) :: ps)
      (.plain (d.tokenText pos start) :: ps) := by
  rw [tokenText_eq hw hlt.le, ← hw.textBetween_append (Nat.le_succ pos) hlt,
    ← tokenText_eq hw (Nat.le_succ pos), ← tokenText_eq hw hlt]
  exact (Piece.alike_plain_append _ _).append (.refl ps)

theorem alike_stripped_succ {w : Written} (hpos : pos < (d.node w.id).tokenStart)
    (rest : List Written) :
    Piece.Alike
      ((if d.isTagBlank tagEnd (.own pos) && (decide ((d.node w.id).tokenStart = pos + 1) &&
          goes w.id) then [] else [.plain (d.tokenText pos (pos + 1))]) ++
        d.stripped goes tagEnd (pos + 1) stop (w :: rest))
      (d.stripped goes tagEnd pos stop (w :: rest)) := by
  rw [stripped, stripped]
  cases goes w.id with
  | false =>
      rw [Bool.and_false, Bool.and_false, if_neg Bool.false_ne_true, if_neg Bool.false_ne_true,
        if_neg Bool.false_ne_true, List.singleton_append, List.cons_append, List.cons_append]
      exact alike_token hw hpos _
  | true =>
      rw [Bool.and_true, if_pos rfl, if_pos rfl]
      by_cases hblank : (d.node w.id).tokenStart = pos + 1 ∧ d.isTagBlank tagEnd (.own pos)
      · obtain ⟨hnext, hown⟩ := hblank
        have hkind := hown
        simp only [isTagBlank, Bool.and_eq_true, decide_eq_true_eq, beq_iff_eq] at hkind
        have hlater : d.blankStart tagEnd (pos + 1) (pos + 1) = pos + 1 :=
          if_neg fun hroom => lt_irrefl _ hroom.1
        have hfirst : d.blankStart tagEnd pos (pos + 1) = pos := by
          rw [blankStart, Nat.add_sub_cancel, if_pos ⟨Nat.lt_succ_self pos, hkind⟩]
        rw [hnext, hown, hlater, hfirst, decide_eq_true rfl, Bool.and_true,
          if_pos rfl, List.nil_append]
        exact (Piece.alike_plain_cons (tokenText_self hw _) _).trans
          (Piece.alike_plain_cons (tokenText_self hw _) _).symm
      · obtain ⟨hsame, hlt⟩ := blankStart_succ hpos hblank
        rw [if_neg (by simpa [and_comm] using hblank), List.singleton_append, ← hsame]
        exact alike_token hw hlt _

theorem alike_remaining (hgoes : ∀ w ∈ ws, d.losesPart e (.child w) = goes w.id)
    (hplaced : d.Placed stop pos ((ws.map (·.id)).map d.plainWritten)) :
    Piece.Alike
      ((remaining (d.losesPart e) (d.isTagBlank tagEnd) (d.elementParts pos stop ws)).flatMap
        d.partPieces)
      (d.stripped goes tagEnd pos stop ws) := by
  fun_induction elementParts d pos stop ws with
  | case1 w rest hlt ih =>
      rw [List.map_cons, Placed.cons_iff] at hplaced
      obtain ⟨-, hsolid, hend, hrest⟩ := hplaced
      obtain ⟨hgoesw, hgoesrest⟩ := List.forall_mem_cons.1 hgoes
      have hmax : max (d.node w.id).tokenEnd ((d.node w.id).tokenStart + 1) =
          (d.node w.id).tokenEnd := max_eq_left hsolid
      rw [hmax] at ih ⊢
      have hlater := ih hgoesrest hrest
      have hblank : d.isTagBlank tagEnd (.child w) = false := rfl
      rw [remaining, stripped, hgoesw, hblank, Bool.false_and, Bool.or_false]
      cases goes w.id with
      | true =>
          have hself : d.blankStart tagEnd (d.node w.id).tokenStart (d.node w.id).tokenStart =
              (d.node w.id).tokenStart := if_neg fun hroom => lt_irrefl _ hroom.1
          rw [if_pos rfl, if_pos rfl, hself]
          exact hlater.trans (Piece.alike_plain_cons (tokenText_self hw _) _).symm
      | false =>
          rw [if_neg Bool.false_ne_true, if_neg Bool.false_ne_true, List.flatMap_cons,
            List.cons_append]
          refine .trans ?_ (Piece.alike_plain_cons (tokenText_self hw _) _).symm
          exact (Piece.Alike.refl w.pieces).append hlater
  | case2 pos hlt w rest hstart ih =>
      rw [List.map_cons, Placed.cons_iff] at hplaced
      obtain ⟨hpos, hsolid, hend, hrest⟩ := hplaced
      have hpos : pos < (d.node w.id).tokenStart := lt_of_le_of_ne hpos (Ne.symm hstart)
      have hlater := ih hgoes (Placed.cons_iff.2 ⟨hpos, hsolid, hend, hrest⟩)
      have hgoesw := hgoes w List.mem_cons_self
      have hstop : (d.node w.id).tokenStart < stop := hsolid.trans_le hend
      have hhead : (d.elementParts (pos + 1) stop (w :: rest)).head?.any (d.losesPart e) =
          (decide ((d.node w.id).tokenStart = pos + 1) && goes w.id) := by
        by_cases hnext : (d.node w.id).tokenStart = pos + 1
        · rw [elementParts, dif_pos (hnext ▸ hstop), if_pos hnext, ← hgoesw]
          simp [hnext]
        · rw [elementParts]
          split
          · simp [hnext, losesPart]
          · simp [hnext]
      refine .trans ?_ (alike_stripped_succ hw hpos rest)
      rw [remaining, hhead, losesPart, Bool.false_or]
      split
      · exact hlater
      · exact hlater.cons _
  | case3 pos hlt ih =>
      have hlater := ih hgoes (.nil hlt)
      have hhead : (d.elementParts (pos + 1) stop []).head?.any (d.losesPart e) = false := by
        rw [elementParts]
        split
        · rfl
        · rfl
      rw [remaining, hhead, Bool.and_false, Bool.or_false, losesPart, if_neg Bool.false_ne_true,
        List.flatMap_cons]
      exact (hlater.cons (.plain (d.tokenText pos (pos + 1)))).trans (alike_token hw hlt [])
  | case4 pos ws hge =>
      cases ws with
      | nil =>
          obtain rfl : pos = stop := le_antisymm hplaced.le (Nat.le_of_not_lt hge)
          exact (Piece.alike_plain_cons (tokenText_self hw _) []).symm
      | cons w rest => exact absurd (hplaced.lt (List.cons_ne_nil _ _)) hge

theorem alike_editElement_removing {id : Nat} {patterns : List String} (hwf : d.WellFormed)
    (hsolid : d.Solid id) (hids : ws.map (·.id) = d.children id)
    (hgoes : ∀ w ∈ ws, d.losesPart (.removing patterns) (.child w) = goes w.id) :
    Piece.Alike (d.editElement (.removing patterns) id ws)
      (d.stripped goes (d.startTagEnd id) (d.node id).tokenStart (d.node id).tokenEnd ws) := by
  have hordered : (d.node id).tokenStart ≤ (d.node id).tokenEnd := Nat.le_add_right _ _
  rw [editElement_removing]
  exact alike_remaining hw hgoes (hids ▸ placed_children hwf hsolid hordered)

end Whole

end Document
end BladeTree
