import BladeTree.Token.Lexer.Tag
import Mathlib.Tactic

namespace BladeTree

theorem CodeFlavor.ne_backslash_of_isQuote {flavor : CodeFlavor} {q : UInt8}
    (h : flavor.isQuote q) : q ≠ Byte.backslash := by
  rintro rfl
  cases flavor <;> exact absurd h (by decide)

namespace Source

variable (s : Source) {q : UInt8} {i j : Nat}

theorem closeString_eq_none_of_le (h : s.closeString q i = none) (hij : i ≤ j)
    (hj : s.byte? j = some q) (hq : q ≠ Byte.backslash) : s.closeString q (j + 1) = none := by
  fun_induction closeString s q i with
  | case1 i hlt b hb ih =>
      by_cases heq : i = j
      · subst heq
        have hbyte : s.byte? i = some s.bytes[i] := getElem?_pos s.bytes i hlt
        exact absurd ((Option.some.inj (hj.symm.trans hbyte)).trans hb) hq
      by_cases hnext : j = i + 1
      · exact hnext ▸ h
      · exact ih h (by omega)
  | case2 => cases h
  | case3 i hlt b hb hquote ih =>
      by_cases heq : i = j
      · subst heq
        have hbyte : s.byte? i = some s.bytes[i] := getElem?_pos s.bytes i hlt
        exact absurd (Option.some.inj (hbyte.symm.trans hj)) hquote
      · exact ih h (by omega)
  | case4 i hge => exact absurd (s.lt_size_of_byte? hj) (by omega)

theorem startsWith_eq_false {pat : List UInt8} (hpat : pat ≠ []) (hi : s.size ≤ i) :
    s.startsWith i pat = false := by
  cases pat with
  | nil => exact absurd rfl hpat
  | cons b bs =>
      rw [startsWith, Bool.and_eq_false_iff]
      refine .inl (Bool.eq_false_iff.2 fun h => ?_)
      exact absurd (s.lt_size_of_has h) (Nat.not_lt_of_le hi)

theorem find_eq_none_of_le {pat : List UInt8} (hpat : pat ≠ []) (h : s.find pat i = none)
    (hij : i ≤ j) : s.find pat j = none := by
  fun_induction find s pat i with
  | case1 => cases h
  | case2 i hs hlt ih =>
      rcases Nat.eq_or_lt_of_le hij with rfl | hij
      · rw [find, if_neg hs, if_pos hlt, h]
      · exact ih h hij
  | case3 i hs hge =>
      have hstarts : ¬ s.startsWith j pat := by
        rw [s.startsWith_eq_false hpat (by omega)]
        exact Bool.false_ne_true
      rw [find, if_neg hstarts, if_neg (by omega)]

end Source

/-- What a memo says of a source is so. -/
structure ScanMemo.Sound (s : Source) (m : ScanMemo) : Prop where
  string : ∀ flavor q p, CodeFlavor.isQuote flavor q → m.string q = some p →
    s.closeString q (p + 1) = none
  comment : ∀ p, m.comment = some p → s.find (ascii "*/") (p + 2) = none

namespace ScanMemo

variable {s : Source} {m : ScanMemo} {flavor : CodeFlavor} {q : UInt8} {pos : Nat}

theorem sound_empty (s : Source) : empty.Sound s where
  string flavor q p _ h := by
    unfold string at h
    split at h
    · cases h
    · split at h <;> cases h
  comment p h := by cases h

theorem string_recordString (hq : flavor.isQuote q) {flavor' : CodeFlavor} {q' : UInt8}
    (hq' : flavor'.isQuote q') :
    (m.recordString q pos).string q' =
      if q' = q then some ((m.string q).elim pos (min pos)) else m.string q' := by
  have hthree {flavor : CodeFlavor} {q : UInt8} (h : flavor.isQuote q) :
      q = Byte.singleQuote ∨ q = Byte.doubleQuote ∨ q = Byte.backquote := by
    simp only [CodeFlavor.isQuote, Bool.or_eq_true, Bool.and_eq_true, beq_iff_eq] at h
    tauto
  unfold recordString string
  rcases hthree hq with rfl | rfl | rfl <;> rcases hthree hq' with rfl | rfl | rfl <;> rfl

theorem Sound.recordString (h : m.Sound s) (hq : flavor.isQuote q)
    (hnone : s.closeString q (pos + 1) = none) : (m.recordString q pos).Sound s where
  string flavor' q' p hq' hp := by
    rw [string_recordString hq hq'] at hp
    split at hp
    · rename_i heq
      subst heq
      rw [Option.some.injEq] at hp
      cases hstring : m.string q' with
      | none =>
          rw [hstring] at hp
          exact hp ▸ hnone
      | some least =>
          rw [hstring, Option.elim_some] at hp
          rcases min_choice pos least with hmin | hmin <;> rw [hmin] at hp <;> subst hp
          · exact hnone
          · exact h.string flavor' q' _ hq' hstring
    · exact h.string flavor' q' p hq' hp
  comment p hp := by
    refine h.comment p (Eq.trans ?_ hp)
    unfold ScanMemo.recordString
    simp only
    split
    · rfl
    · split <;> rfl

theorem Sound.recordComment (h : m.Sound s) (hnone : s.find (ascii "*/") (pos + 2) = none) :
    (m.recordComment pos).Sound s where
  string flavor q p hq hp := h.string flavor q p hq hp
  comment _ hp := (Option.some.inj hp) ▸ hnone

end ScanMemo

namespace Source

variable (s : Source) {m m' : ScanMemo} {flavor : CodeFlavor} {q : UInt8} {pos : Nat}
  {stopAt : Option (List UInt8)}

theorem skipString_of_sound (h : m.Sound s) (hq : flavor.isQuote q) (hpos : s.byte? pos = some q) :
    (s.skipString m q pos).1 = s.closeString q (pos + 1) ∧ (s.skipString m q pos).2.Sound s := by
  unfold skipString
  split
  · rename_i hany
    obtain ⟨p, hp, hle⟩ := (Option.any_eq_true _ _).1 hany
    have hle : p ≤ pos := of_decide_eq_true hle
    have hnone := h.string flavor q p hq hp
    refine ⟨?_, h⟩
    rcases Nat.eq_or_lt_of_le hle with rfl | hlt
    · exact hnone.symm
    · exact (s.closeString_eq_none_of_le hnone hlt hpos
        (CodeFlavor.ne_backslash_of_isQuote hq)).symm
  · split
    · rename_i hstop
      exact ⟨hstop.symm, h⟩
    · rename_i hnone
      exact ⟨hnone.symm, h.recordString hq hnone⟩

theorem skipComment_of_sound (h : m.Sound s) (h' : m'.Sound s) :
    (s.skipComment m flavor stopAt pos).1 = (s.skipComment m' flavor stopAt pos).1 ∧
      (s.skipComment m flavor stopAt pos).2.Sound s := by
  have hblock {m : ScanMemo} (h : m.Sound s) (hopen : s.startsWith pos (ascii "/*")) :
      (s.skipComment m flavor stopAt pos).1 = (s.find (ascii "*/") (pos + 2)).map (· + 2) ∧
        (s.skipComment m flavor stopAt pos).2.Sound s := by
    unfold skipComment
    rw [if_pos hopen]
    split
    · rename_i hany
      obtain ⟨p, hp, hle⟩ := (Option.any_eq_true _ _).1 hany
      have hle : p ≤ pos := of_decide_eq_true hle
      refine ⟨?_, h⟩
      rw [s.find_eq_none_of_le (by decide) (h.comment p hp) (Nat.add_le_add_right hle 2)]
      rfl
    · split
      · rename_i hstop
        rw [hstop]
        exact ⟨rfl, h⟩
      · rename_i hnone
        rw [hnone]
        exact ⟨rfl, h.recordComment hnone⟩
  by_cases hopen : s.startsWith pos (ascii "/*")
  · exact ⟨(hblock h hopen).1.trans (hblock h' hopen).1.symm, (hblock h hopen).2⟩
  · unfold skipComment
    rw [if_neg hopen, if_neg hopen]
    split
    · exact ⟨rfl, h⟩
    · exact ⟨rfl, h⟩

theorem skipUnit_of_sound (h : m.Sound s) (h' : m'.Sound s) (hpos : s.byte? pos = some q) :
    (s.skipUnit m flavor stopAt q pos).1 = (s.skipUnit m' flavor stopAt q pos).1 ∧
      (s.skipUnit m flavor stopAt q pos).2.Sound s := by
  unfold skipUnit
  by_cases hq : flavor.isQuote q
  · obtain ⟨hstop, hsound⟩ := s.skipString_of_sound h hq hpos
    obtain ⟨hstop', -⟩ := s.skipString_of_sound h' hq hpos
    rw [if_pos hq, if_pos hq]
    exact ⟨congrArg (Option.getD · (pos + 1)) (hstop.trans hstop'.symm), hsound⟩
  · rw [if_neg hq, if_neg hq]
    by_cases hcomment : q = Byte.slash ∨ q = Byte.hash
    · have hskip : (s.skipComment m flavor stopAt pos).1 = (s.skipComment m' flavor stopAt pos).1 ∧
          (s.skipComment m flavor stopAt pos).2.Sound s := s.skipComment_of_sound h h'
      rw [if_pos hcomment, if_pos hcomment]
      exact ⟨congrArg (Option.getD · (pos + 1)) hskip.1, hskip.2⟩
    · rw [if_neg hcomment, if_neg hcomment]
      exact ⟨rfl, h⟩

theorem balancedParens_of_byte (m : ScanMemo) (flavor : CodeFlavor) (depth : Nat) {i : Nat} {b : UInt8}
    (hb : s.byte? i = some b) :
    s.balancedParens m flavor depth i =
      if b = Byte.openParen then s.balancedParens m flavor (depth + 1) (i + 1)
      else if b = Byte.closeParen then
        if depth ≤ 1 then ((i + 1, true), m) else s.balancedParens m flavor (depth - 1) (i + 1)
      else s.balancedParens (s.skipUnit m flavor none b i).2 flavor depth
        (s.skipUnit m flavor none b i).1 := by
  obtain ⟨hlt, rfl⟩ := getElem?_eq_some_iff.1 hb
  rw [balancedParens]
  exact dif_pos hlt

theorem not_lt_of_byte?_eq_none {i : Nat} (hb : s.byte? i = none) : ¬ i < s.size := by
  intro hlt
  rw [byte?, getElem?_pos s.bytes i hlt] at hb
  cases hb

theorem balancedParens_of_none (m : ScanMemo) (flavor : CodeFlavor) (depth : Nat) {i : Nat}
    (hb : s.byte? i = none) : s.balancedParens m flavor depth i = ((s.size, false), m) := by
  rw [balancedParens, dif_neg (s.not_lt_of_byte?_eq_none hb)]

theorem balancedParens_of_sound (h : m.Sound s) (h' : m'.Sound s) (depth i : Nat) :
    (s.balancedParens m flavor depth i).1 = (s.balancedParens m' flavor depth i).1 ∧
      (s.balancedParens m flavor depth i).2.Sound s := by
  induction hn : s.size - i using Nat.strong_induction_on generalizing m m' depth i with
  | _ n ih =>
      cases hb : s.byte? i with
      | none =>
          rw [s.balancedParens_of_none m flavor depth hb, s.balancedParens_of_none m' flavor depth hb]
          exact ⟨rfl, h⟩
      | some b =>
          have hlt := s.lt_size_of_byte? hb
          rw [s.balancedParens_of_byte m flavor depth hb, s.balancedParens_of_byte m' flavor depth hb]
          split
          · exact ih _ (by omega) h h' _ _ rfl
          split
          · split
            · exact ⟨rfl, h⟩
            · exact ih _ (by omega) h h' _ _ rfl
          · have hskip : (s.skipUnit m flavor none b i).1 = (s.skipUnit m' flavor none b i).1 ∧
                (s.skipUnit m flavor none b i).2.Sound s := s.skipUnit_of_sound h h' hb
            have hskip' : (s.skipUnit m' flavor none b i).2.Sound s :=
              (s.skipUnit_of_sound h' h hb).2
            have hpos := s.lt_skipUnit m' flavor none b hlt
            rw [hskip.1]
            exact ih _ (by omega) hskip.2 hskip' _ _ rfl

theorem findOutsideCode_of_byte (m : ScanMemo) (flavor : CodeFlavor) (terminator : List UInt8)
    {i : Nat} {b : UInt8} (hb : s.byte? i = some b) :
    s.findOutsideCode m flavor terminator i =
      if s.startsWith i terminator then (some i, m)
      else s.findOutsideCode (s.skipUnit m flavor (some terminator) b i).2 flavor terminator
        (s.skipUnit m flavor (some terminator) b i).1 := by
  obtain ⟨hlt, rfl⟩ := getElem?_eq_some_iff.1 hb
  rw [findOutsideCode]
  exact dif_pos hlt

theorem findOutsideCode_of_none (m : ScanMemo) (flavor : CodeFlavor) (terminator : List UInt8)
    {i : Nat} (hb : s.byte? i = none) :
    s.findOutsideCode m flavor terminator i = (none, m) := by
  rw [findOutsideCode, dif_neg (s.not_lt_of_byte?_eq_none hb)]

theorem findOutsideCode_of_sound (h : m.Sound s) (h' : m'.Sound s) (terminator : List UInt8)
    (i : Nat) :
    (s.findOutsideCode m flavor terminator i).1 = (s.findOutsideCode m' flavor terminator i).1 ∧
      (s.findOutsideCode m flavor terminator i).2.Sound s := by
  induction hn : s.size - i using Nat.strong_induction_on generalizing m m' i with
  | _ n ih =>
      cases hb : s.byte? i with
      | none =>
          rw [s.findOutsideCode_of_none m flavor terminator hb,
            s.findOutsideCode_of_none m' flavor terminator hb]
          exact ⟨rfl, h⟩
      | some b =>
          rw [s.findOutsideCode_of_byte m flavor terminator hb,
            s.findOutsideCode_of_byte m' flavor terminator hb]
          split
          · exact ⟨rfl, h⟩
          · have hlt := s.lt_size_of_byte? hb
            have hpos := s.lt_skipUnit m' flavor (some terminator) b hlt
            have hskip {m m' : ScanMemo} (h : m.Sound s) (h' : m'.Sound s) :
                (s.skipUnit m flavor (some terminator) b i).1 =
                    (s.skipUnit m' flavor (some terminator) b i).1 ∧
                  (s.skipUnit m flavor (some terminator) b i).2.Sound s :=
              s.skipUnit_of_sound h h' hb
            rw [(hskip h h').1]
            exact ih _ (by omega) (hskip h h').2 (hskip h' h).2 _ rfl

theorem valueEnd_of_sound (known : DirectiveSet) (quote : Option UInt8) (h : m.Sound s)
    (argsUnclosed : Bool) (i : Nat) : (s.valueEnd known quote argsUnclosed m i).memo.Sound s := by
  have hargs {m : ScanMemo} (h : m.Sound s) (paren : Nat) :
      (s.balancedParens m .php 0 paren).2.Sound s := (s.balancedParens_of_sound h h 0 paren).2
  fun_induction valueEnd s known quote argsUnclosed m i with
  | case1 => exact h
  | case2 => exact h
  | case3 _ _ _ _ _ _ _ _ _ ih => exact ih h
  | case4 _ memo _ _ _ _ _ _ paren _ _ _ _ _ ih => exact ih (hargs h paren)
  | case5 _ memo _ _ _ _ _ _ paren _ _ _ _ ih => exact ih (hargs h paren)
  | case6 _ _ _ _ _ _ _ _ _ ih => exact ih h
  | case7 _ _ _ _ _ _ _ _ ih => exact ih h
  | case8 => exact h

end Source
end BladeTree
