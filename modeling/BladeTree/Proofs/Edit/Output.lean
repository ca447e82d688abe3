import BladeTree.Edit.Piece
import Mathlib.Tactic

namespace BladeTree

def IsSeparator (s : String) : Prop := s = "" ∨ s = " "

namespace Piece

/-- The texts of pieces, each with a separator before it. -/
inductive Spaced : List Piece → String → Prop
  | nil : Spaced [] ""
  | cons {p : Piece} {ps : List Piece} {s x : String} :
      IsSeparator s → Spaced ps x → Spaced (p :: ps) (s ++ p.text ++ x)

/-- The texts of pieces in order. Only next to a directive may there be a space between two of
them; `after` tells whether the last text before them is one. -/
inductive Separated : Bool → List Piece → String → Prop
  | nil {after : Bool} : Separated after [] ""
  | empty {after : Bool} {p : Piece} {ps : List Piece} {x : String} :
      p.text = "" → Separated after ps x → Separated after (p :: ps) x
  | cons {after : Bool} {p : Piece} {ps : List Piece} {s x : String} :
      IsSeparator s → (s = " " → after ∨ p.isDirective) → Separated p.isDirective ps x →
      Separated after (p :: ps) (s ++ p.text ++ x)

def concat : List Piece → String
  | [] => ""
  | p :: ps => p.text ++ concat ps

theorem concat_append (ps qs : List Piece) : concat (ps ++ qs) = concat ps ++ concat qs := by
  induction ps with
  | nil => exact (String.empty_append).symm
  | cons p ps ih => rw [List.cons_append, concat, ih, concat, String.append_assoc]

end Piece

namespace Output

variable {o : Output} {p : Piece} {ps : List Piece}

theorem push_eq (o : Output) (p : Piece) : ∃ s, IsSeparator s ∧
    (o.push p).text = o.text ++ s ++ p.text ∧ (o.endsInName = false → p.isDirective = false → s = "") ∧
    (p.isDirective = false → (o.push p).endsInName → p.text = "" ∧ s = "" ∧ o.endsInName) := by
  by_cases hempty : p.text.isEmpty
  · have htext : p.text = "" := String.isEmpty_iff.1 hempty
    refine ⟨"", .inl rfl, ?_, fun _ _ => rfl, fun _ hends => ⟨htext, rfl, ?_⟩⟩
    · rw [push, if_pos hempty, htext, String.append_empty, String.append_empty]
    · rwa [push, if_pos hempty] at hends
  · refine ⟨if o.needsSpace p then " " else "", ?_, ?_, fun hends hp => ?_, fun hp hends => ?_⟩
    · split
      · exact .inr rfl
      · exact .inl rfl
    · rw [push, if_neg hempty]
    · simp only [needsSpace, hends, hp, Bool.false_and, Bool.or_self, Bool.false_eq_true, if_false]
    · rw [push, if_neg hempty, hp] at hends
      cases hends

theorem foldl_push (ps : List Piece) (o : Output) :
    ∃ x, Piece.Spaced ps x ∧ (ps.foldl push o).text = o.text ++ x := by
  induction ps generalizing o with
  | nil => exact ⟨"", .nil, (String.append_empty).symm⟩
  | cons p ps ih =>
      obtain ⟨s, hs, htext, -⟩ := push_eq o p
      obtain ⟨x, hx, hrest⟩ := ih (o.push p)
      refine ⟨s ++ p.text ++ x, .cons hs hx, ?_⟩
      rw [List.foldl_cons, hrest, htext, String.append_assoc, String.append_assoc,
        String.append_assoc]

theorem separated_foldl_push (ps : List Piece) {o : Output} {after : Bool}
    (hafter : o.endsInName → after) :
    ∃ x, Piece.Separated after ps x ∧ (ps.foldl push o).text = o.text ++ x := by
  induction ps generalizing o after with
  | nil => exact ⟨"", .nil, (String.append_empty).symm⟩
  | cons p ps ih =>
      by_cases hempty : p.text.isEmpty
      · obtain ⟨x, hx, hrest⟩ := ih hafter
        refine ⟨x, .empty (String.isEmpty_iff.1 hempty) hx, ?_⟩
        rw [List.foldl_cons, push, if_pos hempty, hrest]
      · have hpush : o.push p = ⟨o.text ++ (if o.needsSpace p then " " else "") ++ p.text,
            p.isDirective && endsInDirectiveName p.text⟩ := if_neg hempty
        have hends : (o.push p).endsInName → p.isDirective := by
          rw [hpush, Bool.and_eq_true]
          exact And.left
        obtain ⟨x, hx, hrest⟩ := ih hends
        have hspace : o.needsSpace p → after ∨ p.isDirective := by
          rw [needsSpace, Bool.or_eq_true, Bool.and_eq_true, Bool.and_eq_true]
          rintro (⟨hdirective, -⟩ | ⟨hname, -⟩)
          · exact .inr hdirective
          · exact .inl (hafter hname)
        refine ⟨(if o.needsSpace p then " " else "") ++ p.text ++ x, .cons ?_ ?_ hx, ?_⟩
        · split
          · exact .inr rfl
          · exact .inl rfl
        · intro hs
          apply hspace
          by_contra hno
          rw [if_neg hno] at hs
          exact absurd hs (by decide)
        · rw [List.foldl_cons, hrest, hpush]
          simp only [String.append_assoc]

theorem separated_join (ps : List Piece) : Piece.Separated false ps (Piece.join ps) := by
  have hempty : Output.empty.endsInName → false := nofun
  obtain ⟨x, hx, htext⟩ := separated_foldl_push ps hempty
  rw [Piece.join, htext]
  exact String.empty_append ▸ hx

/-- Text that is no directive gets at most one separator before it, and none unless it follows the
bare name of a directive. -/
theorem foldl_push_plain (hplain : ∀ p ∈ ps, p.isDirective = false) (o : Output) :
    ∃ s, IsSeparator s ∧ (o.endsInName = false → s = "") ∧
      (ps.foldl push o).text = o.text ++ s ++ Piece.concat ps := by
  induction ps generalizing o with
  | nil => exact ⟨"", .inl rfl, fun _ => rfl, by rw [Piece.concat]; simp⟩
  | cons p ps ih =>
      obtain ⟨hp, hps⟩ := List.forall_mem_cons.1 hplain
      obtain ⟨s, hs, htext, hnone, hends⟩ := push_eq o p
      obtain ⟨s', hs', hnone', hrest⟩ := ih hps (o.push p)
      rw [List.foldl_cons, hrest, htext, Piece.concat]
      cases hpushed : (o.push p).endsInName with
      | false =>
          obtain rfl := hnone' hpushed
          refine ⟨s, hs, fun ho => hnone ho hp, ?_⟩
          rw [String.append_empty, String.append_assoc]
      | true =>
          obtain ⟨hempty, rfl, ho⟩ := hends hp hpushed
          refine ⟨s', hs', fun hno => ?_, ?_⟩
          · rw [hno] at ho
            cases ho
          · rw [hempty, String.append_empty, String.append_empty, String.empty_append]

/-! What stands before and after an added directive -/

theorem endsInDirectiveName_append_space (text : String) :
    endsInDirectiveName (text ++ " ") = false := by
  simp [endsInDirectiveName, isWordChar]

theorem extendsDirective_append {a : String} (ha : a ≠ "") (b : String) :
    extendsDirective (a ++ b) = extendsDirective a := by
  obtain ⟨c, cs, hcs⟩ := List.exists_cons_of_ne_nil (mt String.toList_eq_nil_iff.1 ha)
  rw [extendsDirective, extendsDirective, String.toList_append, hcs, List.cons_append,
    List.head?_cons, List.head?_cons]

def before (o : Output) (p : Piece) : String := o.text ++ if o.needsSpace p then " " else ""

theorem push_of_ne (h : p.text ≠ "") :
    o.push p = ⟨o.before p ++ p.text, p.isDirective && endsInDirectiveName p.text⟩ :=
  if_neg (mt String.isEmpty_iff.1 h)

theorem endsInDirectiveName_before (hp : p.isDirective) :
    endsInDirectiveName (o.before p) = false := by
  rw [before]
  split
  · exact endsInDirectiveName_append_space o.text
  · rename_i hneeds
    rw [needsSpace, hp, Bool.true_and, Bool.or_eq_true, not_or, Bool.not_eq_true] at hneeds
    rw [String.append_empty]
    exact hneeds.1

theorem exists_foldl_push (ps : List Piece) (o : Output) : ∃ right,
    (ps.foldl push o).text = o.text ++ right ∧
      (o.endsInName → extendsDirective right = false) := by
  induction ps generalizing o with
  | nil => exact ⟨"", String.append_empty.symm, fun _ => rfl⟩
  | cons p ps ih =>
      rw [List.foldl_cons]
      by_cases hempty : p.text = ""
      · rw [push, if_pos (String.isEmpty_iff.2 hempty)]
        exact ih o
      obtain ⟨right, htext, -⟩ := ih (o.push p)
      refine ⟨(if o.needsSpace p then " " else "") ++ (p.text ++ right), ?_, fun hends => ?_⟩
      · rw [htext, push_of_ne hempty, before]
        simp only [String.append_assoc]
      · split
        · rw [extendsDirective_append (by decide)]
          rfl
        · rename_i hneeds
          rw [needsSpace, hends, Bool.true_and, Bool.or_eq_true, not_or, Bool.not_eq_true,
            Bool.not_eq_true] at hneeds
          rw [String.empty_append, extendsDirective_append hempty]
          exact hneeds.2

theorem join_append_cons (ps qs : List Piece) (hp : p.text ≠ "") : ∃ right,
    Piece.join (ps ++ p :: qs) = (ps.foldl push .empty).before p ++ p.text ++ right ∧
      (p.isDirective → endsInDirectiveName p.text → extendsDirective right = false) := by
  obtain ⟨right, htext, hright⟩ := exists_foldl_push qs ((ps.foldl push .empty).push p)
  rw [push_of_ne hp] at htext hright
  refine ⟨right, ?_, fun hdirective hname => hright (by rw [hdirective, hname]; rfl)⟩
  rw [Piece.join, List.foldl_append, List.foldl_cons, push_of_ne hp, htext]

end Output
end BladeTree
