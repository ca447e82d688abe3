import BladeTree.Token.Code
import BladeTree.Proofs.Text.Boundary

namespace BladeTree

/-- Bytes below `0x80`, each a character of its own. -/
def Byte.isAscii (b : UInt8) : Bool := b < 0x80

theorem Byte.isAscii_iff (b : UInt8) : Byte.isAscii b ↔ b.toNat < 0x80 := by
  simp [Byte.isAscii, UInt8.lt_iff_toNat_lt]

def Byte.AllAscii (bs : List UInt8) : Prop := ∀ b ∈ bs, Byte.isAscii b

-- Not by search, which may find the instance that goes through all bytes.
instance (bs : List UInt8) : Decidable (Byte.AllAscii bs) := List.decidableBAll _ bs

def Byte.AsciiClass (p : UInt8 → Bool) : Prop := ∀ b, p b → Byte.isAscii b

theorem Byte.asciiClass_iff (p : UInt8 → Bool) :
    Byte.AsciiClass p ↔ ∀ n : Fin 256, p (UInt8.ofNat n) → Byte.isAscii (UInt8.ofNat n) := by
  constructor
  · exact fun h n => h _
  · intro h b hb
    have := h ⟨b.toNat, b.toNat_lt⟩
    simp only [UInt8.ofNat_toNat] at this
    exact this hb

theorem Byte.asciiClass_isSpace : Byte.AsciiClass Byte.isSpace :=
  (Byte.asciiClass_iff _).2 (by decide +kernel)

theorem Byte.asciiClass_isHorizontalSpace : Byte.AsciiClass Byte.isHorizontalSpace :=
  (Byte.asciiClass_iff _).2 (by decide +kernel)

theorem Byte.asciiClass_isWord : Byte.AsciiClass Byte.isWord :=
  (Byte.asciiClass_iff _).2 (by decide +kernel)

theorem Byte.asciiClass_isTagName : Byte.AsciiClass Byte.isTagName :=
  (Byte.asciiClass_iff _).2 (by decide +kernel)

theorem Byte.asciiClass_toLower : Byte.AsciiClass fun b => Byte.isAscii (Byte.toLower b) :=
  (Byte.asciiClass_iff _).2 (by decide +kernel)

theorem Byte.asciiClass_beq {b : UInt8} (h : Byte.isAscii b) : Byte.AsciiClass (· == b) := by
  intro x hx
  rw [beq_iff_eq] at hx
  exact hx ▸ h

namespace Source

variable (s : Source)

theorem byte?_of_lt {i : Nat} (h : i < s.size) : s.byte? i = some s.bytes[i] := by
  unfold byte?
  exact getElem?_pos s.bytes i h

theorem byte?_of_getElem {i : Nat} {b : UInt8} (h : i < s.size) (hb : s.bytes[i] = b) :
    s.byte? i = some b :=
  hb ▸ s.byte?_of_lt h

theorem exists_of_has {p : UInt8 → Bool} {i : Nat} (h : s.has p i) :
    ∃ b, s.byte? i = some b ∧ p b := by
  unfold has at h
  exact (Option.any_eq_true _ _).1 h

theorem isBoundary_of_ascii {i : Nat} {b : UInt8} (hb : s.byte? i = some b)
    (h : Byte.isAscii b) : s.isBoundary i := by
  rw [isBoundary_iff, hb]
  refine ⟨Nat.le_of_lt (s.lt_size_of_byte? hb), ?_⟩
  rintro _ ⟨⟩
  rw [isContinuation_iff]
  rw [Byte.isAscii_iff] at h
  omega

theorem isBoundary_succ_of_ascii {i : Nat} {b : UInt8} (hb : s.byte? i = some b)
    (h : Byte.isAscii b) : s.isBoundary (i + 1) :=
  s.isBoundary_succ hb ((Byte.isAscii_iff b).1 h)

theorem isBoundary_skipWhile {p : UInt8 → Bool} (hp : Byte.AsciiClass p) {i : Nat}
    (hi : s.isBoundary i) : s.isBoundary (s.skipWhile p i) := by
  fun_induction skipWhile s p i with
  | case1 i h _ ih =>
      obtain ⟨b, hb, hpb⟩ := s.exists_of_has h
      exact ih (s.isBoundary_succ_of_ascii hb (hp b hpb))
  | case2 => exact hi

theorem isBoundary_skipWhile_not {p : UInt8 → Bool} (hp : Byte.AsciiClass (fun b => !p b))
    {i : Nat} (hi : i ≤ s.size) : s.isBoundary (s.skipWhile p i) := by
  fun_induction skipWhile s p i with
  | case1 i _ hlt ih => exact ih hlt
  | case2 i h =>
      cases hb : s.byte? i with
      | none =>
          have : i = s.size := by
            by_contra hne
            rw [s.byte?_of_lt (by omega)] at hb
            cases hb
          exact this ▸ s.isBoundary_size
      | some b =>
          refine s.isBoundary_of_ascii hb (hp b ?_)
          simpa [has, hb] using h

def Plain (pat : List UInt8) : Prop := pat ≠ [] ∧ Byte.AllAscii pat

instance (pat : List UInt8) : Decidable (Plain pat) := inferInstanceAs (Decidable (_ ∧ _))

theorem isBoundary_add_length {pat : List UInt8} (hp : Byte.AllAscii pat) {i : Nat}
    (hi : s.isBoundary i) (h : s.startsWith i pat) : s.isBoundary (i + pat.length) := by
  induction pat generalizing i with
  | nil => exact hi
  | cons b bs ih =>
      simp only [startsWith, Bool.and_eq_true] at h
      obtain ⟨c, hc, hcb⟩ := s.exists_of_has h.1
      have hascii := Byte.asciiClass_beq (hp b (by simp)) c hcb
      have := ih (fun x hx => hp x (by simp [hx])) (s.isBoundary_succ_of_ascii hc hascii) h.2
      rwa [List.length_cons, show i + (bs.length + 1) = i + 1 + bs.length by omega]

theorem isBoundary_of_startsWith {pat : List UInt8} (hp : Plain pat) {i : Nat}
    (h : s.startsWith i pat) : s.isBoundary i := by
  obtain ⟨hne, hp⟩ := hp
  cases pat with
  | nil => exact absurd rfl hne
  | cons b bs =>
      simp only [startsWith, Bool.and_eq_true] at h
      obtain ⟨c, hc, hcb⟩ := s.exists_of_has h.1
      exact s.isBoundary_of_ascii hc (Byte.asciiClass_beq (hp b (by simp)) c hcb)

theorem byte?_of_startsWith {pat : List UInt8} {b : UInt8} {i k : Nat} (h : s.startsWith i pat)
    (hb : pat[k]? = some b) : s.byte? (i + k) = some b := by
  induction pat generalizing i k with
  | nil => cases hb
  | cons c cs ih =>
      simp only [startsWith, Bool.and_eq_true] at h
      cases k with
      | zero =>
          obtain ⟨x, hx, hxc⟩ := s.exists_of_has h.1
          cases hb
          rw [Nat.add_zero, hx, eq_of_beq hxc]
      | succ k =>
          rw [← Nat.add_assoc, Nat.add_right_comm]
          exact ih h.2 hb

theorem startsWith_cons_eq_false {pat : List UInt8} {b c : UInt8} {i : Nat}
    (hb : s.byte? i = some b) (hne : c ≠ b) : s.startsWith i (c :: pat) = false := by
  rw [Bool.eq_false_iff]
  intro h
  have hbyte : s.byte? i = some c := s.byte?_of_startsWith h (k := 0) rfl
  exact hne (Option.some.inj (hbyte.symm.trans hb))

theorem isBoundary_after {pat : List UInt8} (hp : Plain pat) {i n : Nat}
    (h : s.startsWith i pat) (hn : pat.length = n) : s.isBoundary (i + n) :=
  hn ▸ s.isBoundary_add_length hp.2 (s.isBoundary_of_startsWith hp h) h

theorem isBoundary_add_length_ignoreCase {pat : List UInt8} (hp : Byte.AllAscii pat)
    {i : Nat} (hi : s.isBoundary i) (h : s.startsWithIgnoreCase i pat) :
    s.isBoundary (i + pat.length) := by
  induction pat generalizing i with
  | nil => exact hi
  | cons b bs ih =>
      simp only [startsWithIgnoreCase, Bool.and_eq_true] at h
      obtain ⟨c, hc, hcb⟩ := s.exists_of_has h.1
      have hlower : Byte.isAscii (Byte.toLower c) := by
        rw [beq_iff_eq.1 hcb]
        exact hp b (by simp)
      have hascii := Byte.asciiClass_toLower c hlower
      have := ih (fun x hx => hp x (by simp [hx])) (s.isBoundary_succ_of_ascii hc hascii) h.2
      rwa [List.length_cons, show i + (bs.length + 1) = i + 1 + bs.length by omega]

theorem startsWith_of_find {pat : List UInt8} {i j : Nat} (h : s.find pat i = some j) :
    s.startsWith j pat := by
  fun_induction find s pat i with
  | case1 i hs => simp only [Option.some.injEq] at h; exact h ▸ hs
  | case2 i _ _ ih => exact ih h
  | case3 => cases h

theorem le_of_findOutsideCode {m : ScanMemo} {flavor : CodeFlavor} {terminator : List UInt8}
    {i j : Nat} (h : (s.findOutsideCode m flavor terminator i).1 = some j) :
    i ≤ j ∧ s.startsWith j terminator := by
  fun_induction findOutsideCode s m flavor terminator i with
  | case1 m i _ hs => simp only [Option.some.injEq] at h; exact ⟨h.le, h ▸ hs⟩
  | case2 m i _ _ hlt next ih =>
      obtain ⟨hle, hs⟩ := ih h
      have : i < next.1 := hlt
      exact ⟨by omega, hs⟩
  | case3 => cases h

theorem isBoundary_balancedParens (m : ScanMemo) (flavor : CodeFlavor) (depth i : Nat) :
    s.isBoundary (s.balancedParens m flavor depth i).1.1 := by
  fun_induction balancedParens s m flavor depth i with
  | case1 _ _ _ _ _ _ ih => exact ih
  | case2 m depth i h b _ hb =>
      exact s.isBoundary_succ_of_ascii (s.byte?_of_getElem h hb) (by decide)
  | case3 _ _ _ _ _ _ _ _ ih => exact ih
  | case4 _ _ _ _ _ _ _ _ _ ih => exact ih
  | case5 => exact s.isBoundary_size

theorem stop_balancedParens {m : ScanMemo} {flavor : CodeFlavor} {depth i : Nat}
    (h : (s.balancedParens m flavor depth i).1.2 = false) :
    (s.balancedParens m flavor depth i).1.1 = s.size := by
  fun_induction balancedParens s m flavor depth i with
  | case1 _ _ _ _ _ _ ih => exact ih h
  | case2 => cases h
  | case3 _ _ _ _ _ _ _ _ ih => exact ih h
  | case4 _ _ _ _ _ _ _ _ _ ih => exact ih h
  | case5 => rfl

end Source
end BladeTree
