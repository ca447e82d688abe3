import BladeTree.Proofs.Text.Scan
import BladeTree.Text.LineIndex
import Mathlib.Data.Nat.Count
import Mathlib.Tactic

namespace BladeTree
namespace Source

variable (s : Source) {start o : Nat}

def IsNewline (i : Nat) : Prop := s.byte? i = some Byte.newline

instance (i : Nat) : Decidable (s.IsNewline i) := inferInstanceAs (Decidable (_ = _))

def line (o : Nat) : Nat := Nat.count s.IsNewline o

def StartsLine (start : Nat) : Prop := start = 0 ∨ ∃ i, start = i + 1 ∧ s.IsNewline i

structure InLine (start o : Nat) : Prop where
  starts : s.StartsLine start
  le : start ≤ o
  goesOn : ∀ i, start ≤ i → i < o → ¬ s.IsNewline i

theorem line_succ (o : Nat) : s.line (o + 1) = s.line o + if s.IsNewline o then 1 else 0 :=
  Nat.count_succ s.IsNewline o

theorem line_mono (h : start ≤ o) : s.line start ≤ s.line o := Nat.count_monotone _ h

theorem exists_inLine (o : Nat) : ∃ start, s.InLine start o := by
  induction o with
  | zero => exact ⟨0, .inl rfl, le_rfl, fun i _ hi => absurd hi (Nat.not_lt_zero i)⟩
  | succ o ih =>
      by_cases hnewline : s.IsNewline o
      · exact ⟨o + 1, .inr ⟨o, rfl, hnewline⟩, le_rfl, fun i hle hi => absurd hi (by omega)⟩
      · obtain ⟨start, hstarts, hle, hgoes⟩ := ih
        refine ⟨start, hstarts, hle.trans o.le_succ, fun i hi hlt => ?_⟩
        rcases Nat.lt_succ_iff_lt_or_eq.1 hlt with hlt | rfl
        · exact hgoes i hi hlt
        · exact hnewline

variable {s}

theorem StartsLine.line_lt (h : s.StartsLine start) {i : Nat} (hi : i < start) :
    s.line i < s.line start := by
  obtain rfl | ⟨j, rfl, hj⟩ := h
  · exact absurd hi (Nat.not_lt_zero i)
  · rw [line_succ, if_pos hj]
    exact Nat.lt_succ_of_le (s.line_mono (Nat.le_of_lt_succ hi))

theorem InLine.line_eq (h : s.InLine start o) : s.line start = s.line o := by
  obtain ⟨-, hle, hgoes⟩ := h
  induction hle with
  | refl => rfl
  | step hle ih =>
      rw [line_succ, if_neg (hgoes _ hle (Nat.lt_succ_self _)), Nat.add_zero]
      exact ih fun i hi hlt => hgoes i hi (hlt.trans (Nat.lt_succ_self _))

end Source

namespace LineIndex

variable {s : Source} {i n : Nat} {start o : UInt32} {p : LineCol}

theorem toNat_toUInt32 (h : n < 2 ^ 32) : n.toUInt32.toNat = n := by
  rw [Nat.toUInt32_eq, UInt32.toNat_ofNat_of_lt' h]

theorem getElem?_lineStarts (h : s.size < 2 ^ 32) :
    (lineStarts s i)[n]? = some start ↔
      ∃ j, i ≤ j ∧ s.IsNewline j ∧ s.line j = s.line i + n ∧ start.toNat = j + 1 := by
  fun_induction lineStarts s i generalizing n with
  | case1 i hlt hb ih =>
      have hnewline : s.IsNewline i := s.byte?_of_getElem hlt hb
      have hline : s.line (i + 1) = s.line i + 1 := by rw [s.line_succ, if_pos hnewline]
      cases n with
      | zero =>
          rw [List.getElem?_cons_zero, Option.some.injEq, ← UInt32.toNat_inj,
            toNat_toUInt32 (by omega)]
          constructor
          · exact fun hstart => ⟨i, le_rfl, hnewline, rfl, hstart.symm⟩
          · rintro ⟨j, hle, -, hj, hstart⟩
            rcases Nat.eq_or_lt_of_le hle with rfl | hlt
            · exact hstart.symm
            · have hmono : s.line (i + 1) ≤ s.line j := s.line_mono hlt
              omega
      | succ n =>
          rw [List.getElem?_cons_succ, ih, hline]
          refine exists_congr fun j => ?_
          constructor
          · rintro ⟨hle, hj, hlinej, hstart⟩
            exact ⟨by omega, hj, by omega, hstart⟩
          · rintro ⟨hle, hj, hlinej, hstart⟩
            have hne : i ≠ j := by
              rintro rfl
              omega
            exact ⟨by omega, hj, by omega, hstart⟩
  | case2 i hlt hb ih =>
      have hnewline : ¬ s.IsNewline i := fun hnewline =>
        hb (Option.some.inj ((s.byte?_of_lt hlt).symm.trans hnewline))
      have hline : s.line (i + 1) = s.line i := by rw [s.line_succ, if_neg hnewline, Nat.add_zero]
      rw [ih, hline]
      refine exists_congr fun j => and_congr_left fun ⟨hj, _⟩ => ?_
      have hne : i ≠ j := by
        rintro rfl
        exact hnewline hj
      omega
  | case3 i hge =>
      refine iff_of_false (by simp) ?_
      rintro ⟨j, hle, hj, -⟩
      have := s.lt_size_of_byte? hj
      omega

theorem getElem?_starts (h : s.size < 2 ^ 32) :
    (ofSource s).starts[n]? = some start ↔
      s.StartsLine start.toNat ∧ s.line start.toNat = n := by
  cases n with
  | zero =>
      rw [ofSource, List.getElem?_cons_zero, Option.some.injEq, ← UInt32.toNat_inj,
        UInt32.toNat_zero]
      constructor
      · intro hzero
        rw [← hzero]
        exact ⟨.inl rfl, rfl⟩
      · rintro ⟨hstarts, hline⟩
        by_contra hne
        have := hstarts.line_lt (Nat.pos_of_ne_zero (Ne.symm hne))
        omega
  | succ n =>
      have hzero : s.line 0 = 0 := rfl
      rw [ofSource, List.getElem?_cons_succ, getElem?_lineStarts h, hzero]
      constructor
      · rintro ⟨j, -, hj, hline, hstart⟩
        refine ⟨.inr ⟨j, hstart, hj⟩, ?_⟩
        rw [hstart, s.line_succ, if_pos hj]
        omega
      · rintro ⟨hstarts, hline⟩
        rcases hstarts with hstart | ⟨j, hstart, hj⟩
        · rw [hstart] at hline
          omega
        · rw [hstart, s.line_succ, if_pos hj] at hline
          exact ⟨j, j.zero_le, hj, by omega, hstart⟩

theorem takeWhile_eq_take {α : Type} {l : List α} {p : α → Bool} {k : Nat}
    (h : ∀ n a, l[n]? = some a → (p a ↔ n < k)) : l.takeWhile p = l.take k := by
  induction l generalizing k with
  | nil => rw [List.takeWhile_nil, List.take_nil]
  | cons a l ih =>
      have ha : p a ↔ 0 < k := h 0 a rfl
      cases k with
      | zero =>
          have hnot : ¬ p a := fun hp => Nat.lt_irrefl 0 (ha.1 hp)
          rw [List.takeWhile_cons_of_neg hnot, List.take_zero]
      | succ k =>
          rw [List.takeWhile_cons_of_pos (ha.2 k.succ_pos), List.take_succ_cons]
          refine congrArg (a :: ·) (ih fun n b hb => ?_)
          exact (h (n + 1) b hb).trans Nat.succ_lt_succ_iff

theorem takeWhile_starts (h : s.size < 2 ^ 32) :
    (ofSource s).starts.takeWhile (· ≤ o) = (ofSource s).starts.take (s.line o.toNat + 1) := by
  refine takeWhile_eq_take fun n start hstart => ?_
  obtain ⟨hstarts, rfl⟩ := (getElem?_starts h).1 hstart
  rw [decide_eq_true_eq, UInt32.le_iff_toNat_le, Nat.lt_succ_iff]
  constructor
  · exact s.line_mono
  · exact fun hle => Nat.le_of_not_lt fun hlt =>
      absurd (hstarts.line_lt hlt) (Nat.not_lt_of_le hle)

theorem lineCol_of_inLine (h : s.size < 2 ^ 32) (ho : o.toNat ≤ s.size) {start : Nat}
    (hin : s.InLine start o.toNat) :
    ((ofSource s).lineCol o).line.toNat = s.line o.toNat ∧
      ((ofSource s).lineCol o).col.toNat = o.toNat - start := by
  have hstart : start.toUInt32.toNat = start := toNat_toUInt32 (by have := hin.le; omega)
  have hget : (ofSource s).starts[s.line o.toNat]? = some start.toUInt32 := by
    rw [getElem?_starts h, hstart]
    exact ⟨hin.starts, hin.line_eq⟩
  have hlength : s.line o.toNat < (ofSource s).starts.length := (List.getElem?_eq_some_iff.1 hget).1
  have hmin : min o (ofSource s).size = o := by
    refine if_pos (UInt32.le_iff_toNat_le.2 ?_)
    rwa [ofSource, toNat_toUInt32 h]
  have hline : s.line o.toNat ≤ o.toNat := Nat.count_le _
  have hlast : ((ofSource s).starts.take (s.line o.toNat + 1)).getLastD 0 = start.toUInt32 := by
    rw [List.getLastD_eq_getLast?, List.getLast?_take, if_neg (Nat.succ_ne_zero _),
      Nat.add_sub_cancel, hget]
    rfl
  unfold lineCol
  simp only [hmin, takeWhile_starts h, List.length_take, hlast]
  rw [Nat.min_eq_left hlength, Nat.succ_sub_one]
  refine ⟨toNat_toUInt32 (by omega), ?_⟩
  rw [UInt32.toNat_sub_of_le _ _ (UInt32.le_iff_toNat_le.2 (hstart.le.trans hin.le)), hstart]

end LineIndex

/-- A position of the text is at an offset: its line reaches the offset in as many bytes as the
column says. -/
def LineCol.IsAt (s : Source) (p : LineCol) (o : Nat) : Prop :=
  ∃ start, s.InLine start o ∧ s.line o = p.line.toNat ∧ start + p.col.toNat = o

namespace LineIndex

variable {s : Source} {o : UInt32} {p : LineCol}

theorem lineCol_eq_iff (h : s.size < 2 ^ 32) (ho : o.toNat ≤ s.size) :
    (ofSource s).lineCol o = p ↔ p.IsAt s o.toNat := by
  constructor
  · rintro rfl
    obtain ⟨start, hin⟩ := s.exists_inLine o.toNat
    obtain ⟨hline, hcol⟩ := lineCol_of_inLine h ho hin
    exact ⟨start, hin, hline.symm, by rw [hcol, Nat.add_sub_cancel' hin.le]⟩
  · rintro ⟨start, hin, hline, hcol⟩
    obtain ⟨hline', hcol'⟩ := lineCol_of_inLine h ho hin
    rw [LineCol.mk.injEq, ← UInt32.toNat_inj, ← UInt32.toNat_inj]
    exact ⟨hline'.trans hline, by omega⟩

theorem offset_eq_some_iff (h : s.size < 2 ^ 32) :
    (ofSource s).offset p = some o ↔ o.toNat ≤ s.size ∧ ∃ start : UInt32,
      s.StartsLine start.toNat ∧ s.line start.toNat = p.line.toNat ∧ start + p.col = o := by
  have hsize : o ≤ (ofSource s).size ↔ o.toNat ≤ s.size := by
    rw [UInt32.le_iff_toNat_le, ofSource, toNat_toUInt32 h]
  have hstep (start : UInt32) : (if start + p.col ≤ (ofSource s).size then some (start + p.col)
      else none) = some o ↔ o.toNat ≤ s.size ∧ start + p.col = o := by
    rw [← hsize]
    split
    · rename_i hle
      rw [Option.some.injEq]
      exact ⟨fun heq => ⟨heq ▸ hle, heq⟩, And.right⟩
    · rename_i hle
      exact iff_of_false nofun fun ⟨hle', heq⟩ => hle (heq ▸ hle')
  unfold offset
  simp only [bind, Option.bind_eq_some_iff, getElem?_starts h, hstep]
  constructor
  · rintro ⟨start, ⟨hstarts, hline⟩, hle, heq⟩
    exact ⟨hle, start, hstarts, hline, heq⟩
  · rintro ⟨hle, start, hstarts, hline, heq⟩
    exact ⟨start, ⟨hstarts, hline⟩, hle, heq⟩

/-- The offset of a position is where the position is, if the column stays in its line. -/
theorem isAt_iff_offset (h : s.size < 2 ^ 32) :
    o.toNat ≤ s.size ∧ p.IsAt s o.toNat ↔ (ofSource s).offset p = some o ∧
      p.col.toNat ≤ o.toNat ∧ ∀ i, o.toNat - p.col.toNat ≤ i → i < o.toNat → ¬ s.IsNewline i := by
  rw [offset_eq_some_iff h]
  constructor
  · rintro ⟨ho, start, hin, hline, hcol⟩
    have hstart : start.toUInt32.toNat = start := toNat_toUInt32 (by omega)
    refine ⟨⟨ho, start.toUInt32, ?_, ?_, ?_⟩, by omega, fun i hi => hin.goesOn i (by omega)⟩
    · rw [hstart]
      exact hin.starts
    · rw [hstart, hin.line_eq, hline]
    · rw [← UInt32.toNat_inj, UInt32.toNat_add, hstart, hcol]
      exact Nat.mod_eq_of_lt o.toNat_lt
  · rintro ⟨⟨ho, start, hstarts, hline, hsum⟩, hcol, hgoes⟩
    have hstart : start.toNat + p.col.toNat = o.toNat := by
      rw [← UInt32.toNat_inj, UInt32.toNat_add] at hsum
      have := start.toNat_lt
      have := p.col.toNat_lt
      omega
    have hin : s.InLine start.toNat o.toNat :=
      ⟨hstarts, by omega, fun i hi => hgoes i (by omega)⟩
    exact ⟨ho, start.toNat, hin, hin.line_eq.symm.trans hline, hstart⟩

theorem offset_lineCol (h : s.size < 2 ^ 32) (ho : o.toNat ≤ s.size) :
    (ofSource s).offset ((ofSource s).lineCol o) = some o :=
  ((isAt_iff_offset h).1 ⟨ho, (lineCol_eq_iff h ho).1 rfl⟩).1

-- A column may reach into a later line, and where the sum runs over 32 bits, an earlier one.
example : let x := ofSource (Source.ofString "a\nb")
    x.lineCol 2 = ⟨1, 0⟩ ∧ x.offset ⟨0, 2⟩ = some 2 ∧ x.offset ⟨1, 4294967295⟩ = some 1 := by
  decide +kernel

end LineIndex
end BladeTree
