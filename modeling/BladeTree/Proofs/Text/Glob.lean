import BladeTree.Text.Glob
import Mathlib.Tactic

namespace BladeTree
namespace Glob

/-- A pattern in which each character stands for itself. -/
def IsLiteral (pattern : String) : Prop := '*' ∉ pattern.toList ∧ '?' ∉ pattern.toList

theorem segment_of_literal {ps ts : List Char} (h : '*' ∉ ps ∧ '?' ∉ ps) :
    segment ps ts = if ps = ts then .finished else .mismatch := by
  fun_induction segment ps ts with
  | case1 => rfl
  | case2 => rfl
  | case3 ps ts => simp at h
  | case4 => rfl
  | case5 p ps t ts hstar hfits ih =>
      simp only [List.mem_cons, not_or] at h
      obtain ⟨⟨-, hstars⟩, hany, hanys⟩ := h
      obtain rfl : p = t := hfits.resolve_left (Ne.symm hany)
      rw [ih ⟨hstars, hanys⟩]
      simp only [List.cons.injEq, true_and]
  | case6 p ps t ts hstar hfits =>
      rw [not_or] at hfits
      rw [if_neg fun heq => hfits.2 (List.cons.inj heq).1]

theorem IsLiteral.globMatch_iff {pattern text : String} (h : IsLiteral pattern) :
    globMatch pattern text ↔ pattern = text := by
  rw [globMatch, segment_of_literal h, ← String.toList_inj]
  by_cases heq : pattern.toList = text.toList
  · simp [heq]
  · simp [heq]

/-- What a character of a pattern stands for. -/
def StandsFor (p : Char) (piece : List Char) : Prop :=
  if p = '*' then True else if p = '?' then piece.length = 1 else piece = [p]

/-- A text is made of one piece for each character of a pattern. -/
def Fits (pattern text : List Char) : Prop :=
  ∃ pieces, List.Forall₂ StandsFor pattern pieces ∧ pieces.flatten = text

variable {p t : Char} {ps ts qs us : List Char}

theorem fits_nil_iff : Fits [] ts ↔ ts = [] := by
  unfold Fits
  simp only [List.forall₂_nil_left_iff, exists_eq_left, List.flatten_nil, eq_comm]

theorem fits_cons_iff :
    Fits (p :: ps) ts ↔ ∃ piece rest, StandsFor p piece ∧ Fits ps rest ∧ piece ++ rest = ts := by
  unfold Fits
  constructor
  · rintro ⟨_, hpieces, rfl⟩
    obtain ⟨piece, pieces, hpiece, hrest, rfl⟩ := List.forall₂_cons_left_iff.1 hpieces
    exact ⟨piece, pieces.flatten, hpiece, ⟨pieces, hrest, rfl⟩, List.flatten_cons.symm⟩
  · rintro ⟨piece, _, hpiece, ⟨pieces, hrest, rfl⟩, rfl⟩
    exact ⟨piece :: pieces, .cons hpiece hrest, List.flatten_cons⟩

theorem fits_star_iff : Fits ('*' :: ps) ts ↔ ∃ rest, rest <:+ ts ∧ Fits ps rest := by
  rw [fits_cons_iff]
  constructor
  · rintro ⟨piece, rest, -, hrest, happend⟩
    exact ⟨rest, ⟨piece, happend⟩, hrest⟩
  · rintro ⟨rest, ⟨piece, happend⟩, hrest⟩
    exact ⟨piece, rest, trivial, hrest, happend⟩

theorem fits_char_iff (hp : p ≠ '*') :
    Fits (p :: ps) ts ↔ ∃ t rest, (p = '?' ∨ p = t) ∧ Fits ps rest ∧ t :: rest = ts := by
  have hpiece {piece : List Char} : StandsFor p piece ↔ ∃ t, (p = '?' ∨ p = t) ∧ piece = [t] := by
    rw [StandsFor, if_neg hp]
    by_cases hany : p = '?'
    · simp only [hany, if_true, true_or, true_and, List.length_eq_one_iff]
    · simp only [hany, if_false, false_or, exists_eq_left']
  rw [fits_cons_iff]
  constructor
  · rintro ⟨_, rest, hstands, hrest, rfl⟩
    obtain ⟨t, ht, rfl⟩ := hpiece.1 hstands
    exact ⟨t, rest, ht, hrest, rfl⟩
  · rintro ⟨t, rest, ht, hrest, rfl⟩
    exact ⟨[t], rest, hpiece.2 ⟨t, ht, rfl⟩, hrest, rfl⟩

def Segment.Decides (ps ts : List Char) : Segment → Prop
  | mismatch => ¬ Fits ps ts
  | finished => Fits ps ts
  | star qs us => Fits ps ts ↔ Fits ('*' :: qs) us

theorem decides_segment (ps ts : List Char) : (segment ps ts).Decides ps ts := by
  fun_induction segment ps ts with
  | case1 => exact fits_nil_iff.2 rfl
  | case2 t ts => exact fun h => List.cons_ne_nil t ts (fits_nil_iff.1 h)
  | case3 ps ts => exact Iff.rfl
  | case4 p ps hstar =>
      intro h
      obtain ⟨t, rest, -, -, hnil⟩ := (fits_char_iff hstar).1 h
      exact List.cons_ne_nil t rest hnil
  | case5 p ps t ts hstar hfits ih =>
      have hcons : Fits (p :: ps) (t :: ts) ↔ Fits ps ts := by
        rw [fits_char_iff hstar]
        constructor
        · rintro ⟨t', rest, -, hrest, heq⟩
          exact (List.cons.inj heq).2 ▸ hrest
        · exact fun h => ⟨t, ts, hfits, h, rfl⟩
      unfold Segment.Decides at ih ⊢
      rwa [hcons]
  | case6 p ps t ts hstar hfits =>
      intro h
      obtain ⟨t', rest, ht, -, heq⟩ := (fits_char_iff hstar).1 h
      exact hfits ((List.cons.inj heq).1 ▸ ht)

/-- Wherever else in the text the pattern fits, its first segment ends there no sooner, so the
next star takes up the difference. -/
theorem fits_of_isSuffix {ts' : List Char} (h : segment ps ts = .star qs us) (hsuffix : ts' <:+ ts)
    (hfits : Fits ps ts') : Fits ('*' :: qs) us := by
  fun_induction segment ps ts generalizing ts' with
  | case1 | case2 | case4 | case6 => cases h
  | case3 ps ts =>
      cases h
      obtain ⟨rest, hrest, hfits⟩ := fits_star_iff.1 hfits
      exact fits_star_iff.2 ⟨rest, hrest.trans hsuffix, hfits⟩
  | case5 p ps t ts hstar _ ih =>
      obtain ⟨t', rest, -, hrest, rfl⟩ := (fits_char_iff hstar).1 hfits
      refine ih h ?_ hrest
      rcases List.suffix_cons_iff.1 hsuffix with heq | hsuffix
      · exact (List.cons.inj heq).2 ▸ List.suffix_rfl
      · exact (List.suffix_cons t' rest).trans hsuffix

theorem matchAfterStar_iff (ps ts : List Char) : matchAfterStar ps ts ↔ Fits ('*' :: ps) ts := by
  have hhere {ps ts : List Char} (h : Fits ps ts) : Fits ('*' :: ps) ts :=
    fits_star_iff.2 ⟨ts, List.suffix_rfl, h⟩
  fun_induction matchAfterStar ps ts with
  | case1 ps ts h =>
      have hdecides := decides_segment ps ts
      rw [h] at hdecides
      exact iff_of_true rfl (hhere hdecides)
  | case2 ps ts qs us h _ ih =>
      have hdecides := decides_segment ps ts
      rw [h] at hdecides
      refine ih.trans ⟨fun hrest => hhere (hdecides.2 hrest), fun hstar => ?_⟩
      obtain ⟨rest, hsuffix, hrest⟩ := fits_star_iff.1 hstar
      exact fits_of_isSuffix h hsuffix hrest
  | case3 ps h =>
      have hdecides := decides_segment ps []
      rw [h] at hdecides
      refine iff_of_false Bool.false_ne_true fun hstar => hdecides ?_
      obtain ⟨rest, hsuffix, hrest⟩ := fits_star_iff.1 hstar
      exact List.suffix_nil.1 hsuffix ▸ hrest
  | case4 ps t ts h ih =>
      have hdecides := decides_segment ps (t :: ts)
      rw [h] at hdecides
      refine ih.trans ?_
      rw [fits_star_iff, fits_star_iff]
      refine exists_congr fun rest => and_congr_left fun hrest => ?_
      rw [List.suffix_cons_iff]
      exact (or_iff_right fun heq : rest = t :: ts => hdecides (heq ▸ hrest)).symm

end Glob

/-- A pattern matches just the texts that are made of one piece for each of its characters. -/
theorem globMatch_iff_exists_pieces (pattern text : String) :
    globMatch pattern text ↔ ∃ pieces : List (List Char),
      List.Forall₂ Glob.StandsFor pattern.toList pieces ∧ pieces.flatten = text.toList := by
  have hdecides := Glob.decides_segment pattern.toList text.toList
  unfold globMatch
  split
  · rename_i h
    rw [h] at hdecides
    exact iff_of_true rfl hdecides
  · rename_i h
    rw [h] at hdecides
    exact (Glob.matchAfterStar_iff _ _).trans hdecides.symm
  · rename_i h
    rw [h] at hdecides
    exact iff_of_false Bool.false_ne_true hdecides

end BladeTree
