import BladeTree.Edit.Writer
import BladeTree.Proofs.Edit.Output
import Mathlib.Data.List.Forall2

namespace BladeTree

namespace Output

theorem push_plain_plain (o : Output) (s t : String) :
    (o.push (.plain s)).push (.plain t) = o.push (.plain (s ++ t)) := by
  by_cases hs : s = ""
  · simp [push, Piece.plain, hs]
  by_cases ht : t = ""
  · rw [ht, String.append_empty]
    rfl
  have hfirst : extendsDirective (s ++ t) = extendsDirective s := by
    have hchars : s.toList ≠ [] := by simpa using hs
    simp [extendsDirective, List.head?_append_of_ne_nil _ hchars]
  have hspace : o.needsSpace (.plain (s ++ t)) = o.needsSpace (.plain s) := by
    simp [needsSpace, Piece.plain, hfirst]
  have hnone : (o.push (.plain s)).needsSpace (.plain t) = false := by
    simp [needsSpace, push, Piece.plain, hs]
  have hpush (o : Output) {s : String} (hs : s ≠ "") : o.push (.plain s) =
      ⟨o.text ++ (if o.needsSpace (.plain s) then " " else "") ++ s, false⟩ := by
    simp [push, Piece.plain, hs]
  rw [hpush _ ht, hnone, hpush _ (by simp [hs] : s ++ t ≠ ""), hspace, hpush _ hs]
  simp [String.append_assoc]

end Output

namespace Piece

def Alike (ps qs : List Piece) : Prop :=
  ∀ o : Output, ps.foldl Output.push o = qs.foldl Output.push o

variable {ps qs rs ps' qs' : List Piece}

theorem Alike.refl (ps : List Piece) : Alike ps ps := fun _ => rfl

theorem Alike.symm (h : Alike ps qs) : Alike qs ps := fun o => (h o).symm

theorem Alike.trans (h : Alike ps qs) (h' : Alike qs rs) : Alike ps rs :=
  fun o => (h o).trans (h' o)

theorem Alike.append (h : Alike ps qs) (h' : Alike ps' qs') : Alike (ps ++ ps') (qs ++ qs') := by
  intro o
  rw [List.foldl_append, List.foldl_append, h, h']

theorem Alike.cons (p : Piece) (h : Alike ps qs) : Alike (p :: ps) (p :: qs) :=
  fun o => h (o.push p)

theorem Alike.join_eq (h : Alike ps qs) : join ps = join qs := by rw [join, join, h]

theorem join_plain (s : String) : join [.plain s] = s := by
  by_cases hs : s = ""
  · simp [join, Output.push, Output.empty, plain, hs]
  · simp [join, Output.push, Output.empty, Output.needsSpace, plain, hs]

theorem Alike.flatMap {α β : Type} {R : α → β → Prop} {f : α → List Piece} {g : β → List Piece}
    (hfg : ∀ a b, R a b → Alike (f a) (g b)) {as : List α} {bs : List β}
    (h : List.Forall₂ R as bs) : Alike (as.flatMap f) (bs.flatMap g) := by
  induction h with
  | nil => exact .refl []
  | cons hab _ ih =>
      rw [List.flatMap_cons, List.flatMap_cons]
      exact (hfg _ _ hab).append ih

theorem alike_plain_append (s t : String) :
    Alike [.plain s, .plain t] [.plain (s ++ t)] := by
  intro o
  exact Output.push_plain_plain o s t

theorem alike_plain_cons {s : String} (hs : s = "") (ps : List Piece) :
    Alike (.plain s :: ps) ps := by
  intro o
  have hempty : (plain s).text.isEmpty := String.isEmpty_iff.2 hs
  rw [List.foldl_cons, Output.push, if_pos hempty]

end Piece

structure Written.Alike (w w' : Written) : Prop where
  id : w.id = w'.id
  pieces : Piece.Alike w.pieces w'.pieces

inductive ElementPart.Alike : ElementPart → ElementPart → Prop
  | child {w w' : Written} : w.Alike w' → ElementPart.Alike (.child w) (.child w')
  | own (token : Nat) : ElementPart.Alike (.own token) (.own token)

namespace PartOutput

inductive Alike : PartOutput → PartOutput → Prop
  | refl (p : PartOutput) : Alike p p
  | pieces {ps qs : List Piece} : Piece.Alike ps qs → Alike (.pieces ps) (.pieces qs)

theorem alike_join {ps qs : List PartOutput} (h : List.Forall₂ Alike ps qs) (held : List Piece) :
    Piece.Alike (join held ps) (join held qs) := by
  induction h generalizing held with
  | nil => exact .refl held
  | @cons p q _ _ hpq _ ih =>
      cases hpq with
      | pieces hpieces =>
          rw [join, join]
          exact ((Piece.Alike.refl held).append hpieces).append (ih [])
      | refl =>
          cases p with
          | pieces ps =>
              rw [join, join]
              exact (Piece.Alike.refl _).append (ih [])
          | blank text =>
              rw [join, join]
              exact (Piece.Alike.refl _).append (ih _)
          | dropped =>
              rw [join, join]
              exact ih []
          | appended ps =>
              rw [join, join]
              exact (Piece.Alike.refl _).append (ih held)

end PartOutput

theorem forall₂_takeWhile {α β : Type} {R : α → β → Prop} {p : α → Bool} {q : β → Bool}
    (hpq : ∀ a b, R a b → p a = q b) {as : List α} {bs : List β} (h : List.Forall₂ R as bs) :
    List.Forall₂ R (as.takeWhile p) (bs.takeWhile q) ∧
      List.Forall₂ R (as.dropWhile p) (bs.dropWhile q) := by
  induction h with
  | nil => exact ⟨.nil, .nil⟩
  | @cons a b as bs hab hrest ih =>
      rw [List.takeWhile_cons, List.takeWhile_cons, List.dropWhile_cons, List.dropWhile_cons,
        hpq a b hab]
      cases q b with
      | true => exact ⟨.cons hab ih.1, ih.2⟩
      | false => exact ⟨.nil, .cons hab hrest⟩

theorem any_eq_any {α β : Type} {R : α → β → Prop} {p : α → Bool} {q : β → Bool}
    (hpq : ∀ a b, R a b → p a = q b) {as : List α} {bs : List β} (h : List.Forall₂ R as bs) :
    as.any p = bs.any q := by
  induction h with
  | nil => rfl
  | @cons a b as bs hab _ ih => rw [List.any_cons, List.any_cons, hpq a b hab, ih]

namespace Document

variable {d : Document} {p q : ElementPart} {w w' : Written} {ws ws' : List Written}

theorem partStart_eq_of_alike (h : p.Alike q) : d.partStart p = d.partStart q := by
  cases h with
  | child hw => simp only [partStart, hw.id]
  | own token => rfl

theorem isBeforeTagEnd_eq_of_alike (tagEnd : Nat) (h : p.Alike q) :
    d.isBeforeTagEnd tagEnd p = d.isBeforeTagEnd tagEnd q := by
  simp only [isBeforeTagEnd, partStart_eq_of_alike h]

theorem isAttributeNamed_eq_of_alike (name : String) (h : p.Alike q) :
    d.isAttributeNamed name p = d.isAttributeNamed name q := by
  cases h with
  | child hw => simp only [isAttributeNamed, hw.id]
  | own token => rfl

theorem alike_editAttribute (e : NodeEdits) (h : w.Alike w') :
    (d.editAttribute e w).Alike (d.editAttribute e w') := by
  simp only [editAttribute, h.id]
  split
  · exact .refl _
  · split
    · exact .refl _
    · split
      · exact .refl _
      · exact .pieces h.pieces

theorem alike_editPart (e : NodeEdits) (tagEnd : Nat) (h : p.Alike q) :
    (d.editPart e tagEnd p).Alike (d.editPart e tagEnd q) := by
  cases h with
  | own token => exact .refl _
  | @child w w' hw =>
      simp only [editPart, hw.id]
      split
      · exact .refl _
      · exact .refl _
      · exact alike_editAttribute e hw
      · exact .pieces hw.pieces

variable (h : List.Forall₂ Written.Alike ws ws')
include h

theorem alike_interleave (pos stop : Nat) :
    Piece.Alike (d.interleave pos stop ws) (d.interleave pos stop ws') := by
  induction h generalizing pos with
  | nil => exact .refl _
  | cons hw _ ih =>
      rw [interleave, interleave, hw.id]
      exact (hw.pieces.cons _).append (ih _)

theorem alike_elementParts (pos stop : Nat) :
    List.Forall₂ ElementPart.Alike (d.elementParts pos stop ws) (d.elementParts pos stop ws') := by
  fun_induction elementParts d pos stop ws generalizing ws' with
  | case1 w rest hlt ih =>
      cases h with
      | @cons _ w' _ rest' hw hrest =>
          have hstart : (d.node w'.id).tokenStart = (d.node w.id).tokenStart := by rw [hw.id]
          rw [elementParts, dif_pos hlt, if_pos hstart, ← hw.id]
          exact .cons (.child hw) (ih hrest)
  | case2 pos hlt w rest hstart ih =>
      cases h with
      | @cons _ w' _ rest' hw hrest =>
          have hstart' : (d.node w'.id).tokenStart ≠ pos := by rwa [← hw.id]
          have hparts : d.elementParts pos stop (w' :: rest') =
              .own pos :: d.elementParts (pos + 1) stop (w' :: rest') := by
            rw [elementParts, dif_pos hlt, if_neg hstart']
          rw [hparts]
          exact .cons (.own pos) (ih (.cons hw hrest))
  | case3 pos hlt ih =>
      cases h
      have hparts : d.elementParts pos stop [] = .own pos :: d.elementParts (pos + 1) stop [] := by
        rw [elementParts, dif_pos hlt]
      rw [hparts]
      exact .cons (.own pos) (ih .nil)
  | case4 pos ws hlt =>
      rw [elementParts.eq_def, dif_neg hlt]
      exact .nil

theorem alike_editElement (e : NodeEdits) (id : Nat) :
    Piece.Alike (d.editElement e id ws) (d.editElement e id ws') := by
  have hparts := alike_elementParts (d := d) h (d.node id).tokenStart (d.node id).tokenEnd
  obtain ⟨hinTag, hrest⟩ := forall₂_takeWhile
    (fun p q => isBeforeTagEnd_eq_of_alike (d := d) (p := p) (q := q) (d.startTagEnd id)) hparts
  have hclass := any_eq_any
    (fun p q => isAttributeNamed_eq_of_alike (d := d) (p := p) (q := q) "class") hinTag
  have hedit {ps qs : List ElementPart} (hpq : List.Forall₂ ElementPart.Alike ps qs) :
      List.Forall₂ PartOutput.Alike (ps.map (d.editPart e (d.startTagEnd id)))
        (qs.map (d.editPart e (d.startTagEnd id))) :=
    List.forall₂_map_left_iff.2 (List.forall₂_map_right_iff.2
      (hpq.imp fun p q => alike_editPart e _))
  simp only [editElement, List.span_eq_takeWhile_dropWhile, hclass]
  exact PartOutput.alike_join (List.rel_append (hedit hinTag) (.cons (.refl _) (hedit hrest))) []

theorem alike_contentOnly (id : Nat) :
    List.Forall₂ Written.Alike (d.contentOnly id ws) (d.contentOnly id ws') := by
  have hfilter (p : Nat → Bool) : List.Forall₂ Written.Alike (ws.filter fun w => p w.id)
      (ws'.filter fun w => p w.id) :=
    List.rel_filter (fun w w' hw => by simp only [hw.id]) h
  rw [contentOnly, contentOnly]
  split
  · exact hfilter (d.isContent (d.startTagEnd id))
  · exact hfilter fun id => !d.isMarker id
  · exact h

/-- What is put out for a node depends on its children only by what is put out for them. -/
theorem alike_writeEdited (e : NodeEdits) (id : Nat) :
    Piece.Alike (d.writeEdited e id ws) (d.writeEdited e id ws') := by
  have hbody : Piece.Alike (d.writeBody e id ws) (d.writeBody e id ws') := by
    rw [writeBody, writeBody]
    split
    · exact .refl _
    · exact .refl _
    · exact Piece.Alike.flatMap (fun _ _ hw => hw.pieces) (alike_contentOnly h id)
    · rw [writeCore, writeCore]
      split
      · exact alike_editElement h e id
      · exact alike_interleave h _ _
  rw [writeEdited, writeEdited]
  exact (((Piece.Alike.refl _).append hbody).append (.refl _)).append (.refl _)

end Document
end BladeTree
