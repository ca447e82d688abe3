import BladeTree.Text.Source
import Mathlib.Tactic

namespace BladeTree

theorem isContinuation_iff (b : UInt8) :
    Byte.isContinuation b ↔ 0x80 ≤ b.toNat ∧ b.toNat < 0xC0 := by
  simp [Byte.isContinuation, UInt8.le_iff_toNat_le, UInt8.lt_iff_toNat_lt]

/-- The first byte of a character is no continuation, all others are, and a character whose
first byte is ASCII has no others. -/
theorem utf8EncodeChar_shape (c : Char) :
    ∃ b bs, String.utf8EncodeChar c = b :: bs ∧ ¬ Byte.isContinuation b ∧
      (∀ x ∈ bs, Byte.isContinuation x) ∧ (b.toNat < 0x80 → bs = []) := by
  unfold String.utf8EncodeChar
  simp only
  generalize c.val.toNat = v
  split
  · refine ⟨_, _, rfl, ?_, ?_, ?_⟩ <;> simp [isContinuation_iff]; omega
  · split
    · refine ⟨_, _, rfl, ?_, ?_, ?_⟩ <;> simp [isContinuation_iff] <;> omega
    · split
      · refine ⟨_, _, rfl, ?_, ?_, ?_⟩ <;> simp [isContinuation_iff] <;> omega
      · refine ⟨_, _, rfl, ?_, ?_, ?_⟩ <;> simp [isContinuation_iff] <;> omega

def encodedBytes (cs : List Char) : List UInt8 := cs.flatMap String.utf8EncodeChar

theorem encodedBytes_append (l r : List Char) :
    encodedBytes (l ++ r) = encodedBytes l ++ encodedBytes r :=
  List.flatMap_append

theorem exists_split_of_not_continuation (cs : List Char) (i : Nat)
    (hi : i ≤ (encodedBytes cs).length)
    (h : ∀ b, (encodedBytes cs)[i]? = some b → ¬ Byte.isContinuation b) :
    ∃ l r, cs = l ++ r ∧ (encodedBytes l).length = i := by
  induction cs generalizing i with
  | nil => exact ⟨[], [], rfl, (Nat.le_zero.1 hi).symm⟩
  | cons c cs ih =>
      obtain ⟨b, bs, hc, -, hbs, -⟩ := utf8EncodeChar_shape c
      have he : encodedBytes (c :: cs) = b :: (bs ++ encodedBytes cs) := by
        rw [encodedBytes, List.flatMap_cons, hc]; rfl
      cases i with
      | zero => exact ⟨[], c :: cs, rfl, rfl⟩
      | succ i =>
          rw [he, List.getElem?_cons_succ] at h
          have hlen : bs.length ≤ i := by
            by_contra hlt
            rw [List.getElem?_append_left (by omega), List.getElem?_eq_getElem (by omega)] at h
            exact h _ rfl (hbs _ (List.getElem_mem _))
          rw [List.getElem?_append_right hlen] at h
          rw [he] at hi
          obtain ⟨l, r, rfl, hl⟩ := ih (i - bs.length) (by simp at hi; omega) h
          refine ⟨c :: l, r, rfl, ?_⟩
          rw [encodedBytes, List.flatMap_cons, hc]
          simp only [List.cons_append, List.length_cons, List.length_append]
          rw [encodedBytes] at hl
          omega

namespace Source

variable (s : Source)

theorem exists_chars : ∃ cs, s.bytes.data.toList = encodedBytes cs := by
  obtain ⟨cs, h⟩ := s.text.isValidUTF8
  refine ⟨cs, ?_⟩
  rw [s.bytes_eq, h]
  simp [List.utf8Encode, encodedBytes]

theorem byte?_eq (i : Nat) : s.byte? i = s.bytes.data.toList[i]? := by
  unfold byte?
  by_cases h : i < s.bytes.size
  · rw [getElem?_pos s.bytes i h, ByteArray.getElem_eq_getElem_data]
    simp
  · rw [getElem?_neg s.bytes i h]
    simpa using h

theorem isBoundary_iff (i : Nat) :
    s.isBoundary i ↔ i ≤ s.size ∧ ∀ b, s.byte? i = some b → ¬ Byte.isContinuation b := by
  unfold isBoundary has
  cases hb : s.byte? i with
  | none =>
      have hi : s.size ≤ i := by
        rw [byte?_eq, List.getElem?_eq_none_iff] at hb
        simpa [size] using hb
      simp only [Option.any_none, Bool.or_false, beq_iff_eq, reduceCtorEq, false_implies,
        implies_true, and_true]
      omega
  | some b =>
      have hi := s.lt_size_of_byte? hb
      simp [hi.le, hi.ne]

theorem byte?_append {l r : List Char} (h : s.bytes.data.toList = encodedBytes (l ++ r)) :
    s.byte? (encodedBytes l).length = (encodedBytes r)[0]? := by
  rw [byte?_eq, h, encodedBytes_append, List.getElem?_append_right le_rfl, Nat.sub_self]

theorem isBoundary_append {l r : List Char} (h : s.bytes.data.toList = encodedBytes (l ++ r)) :
    s.isBoundary (encodedBytes l).length := by
  rw [isBoundary_iff, s.byte?_append h]
  constructor
  · have := congrArg List.length h
    rw [encodedBytes_append, List.length_append] at this
    simp only [Array.length_toList, ByteArray.size_data] at this
    unfold size
    omega
  · intro b hb
    cases r with
    | nil => simp [encodedBytes] at hb
    | cons c r =>
        obtain ⟨b', bs, hc, hcont, -, -⟩ := utf8EncodeChar_shape c
        rw [encodedBytes, List.flatMap_cons, hc] at hb
        simp at hb
        exact hb ▸ hcont

theorem isBoundary_zero : s.isBoundary 0 := by
  obtain ⟨cs, h⟩ := s.exists_chars
  exact s.isBoundary_append (l := []) (r := cs) h

theorem isBoundary_size : s.isBoundary s.size := by simp [isBoundary]

theorem le_size_of_isBoundary {i : Nat} (h : s.isBoundary i) : i ≤ s.size :=
  ((s.isBoundary_iff i).1 h).1

theorem exists_split {i : Nat} (h : s.isBoundary i) :
    ∃ l r, s.bytes.data.toList = encodedBytes (l ++ r) ∧ (encodedBytes l).length = i := by
  obtain ⟨cs, hcs⟩ := s.exists_chars
  rw [isBoundary_iff] at h
  have hsize : s.size = (encodedBytes cs).length := by rw [← hcs]; simp [size]
  obtain ⟨l, r, rfl, hl⟩ := exists_split_of_not_continuation cs i (hsize ▸ h.1) fun b hb =>
    h.2 b (by rw [byte?_eq, hcs, hb])
  exact ⟨l, r, hcs, hl⟩

theorem isValid_of_isBoundary {i : Nat} (h : s.isBoundary i) :
    String.Pos.Raw.IsValid s.text ⟨i⟩ := by
  obtain ⟨l, r, hbytes, hl⟩ := s.exists_split h
  rw [String.Pos.Raw.isValid_iff_isValidUTF8_extract_zero]
  refine ⟨?_, l, ?_⟩
  · have := s.le_size_of_isBoundary h
    rw [size, s.bytes_eq] at this
    simpa [String.Pos.Raw.le_iff] using this
  · rw [← s.bytes_eq]
    apply ByteArray.ext
    apply Array.toList_inj.1
    rw [encodedBytes_append] at hbytes
    simp [ByteArray.data_extract, hbytes, List.utf8Encode, ← hl, encodedBytes]

theorem isBoundary_succ {i : Nat} {b : UInt8} (hb : s.byte? i = some b) (hlt : b.toNat < 0x80) :
    s.isBoundary (i + 1) := by
  have hi : s.isBoundary i := by
    rw [isBoundary_iff, hb]
    refine ⟨(s.lt_size_of_byte? hb).le, ?_⟩
    rintro _ ⟨⟩
    rw [isContinuation_iff]
    omega
  obtain ⟨l, r, hbytes, rfl⟩ := s.exists_split hi
  cases r with
  | nil =>
      rw [s.byte?_append hbytes] at hb
      simp [encodedBytes] at hb
  | cons c r =>
      obtain ⟨b', bs, hc, -, -, hbs⟩ := utf8EncodeChar_shape c
      rw [s.byte?_append hbytes, encodedBytes, List.flatMap_cons, hc] at hb
      simp at hb
      subst hb
      rw [hbs hlt] at hc
      have := s.isBoundary_append (l := l ++ [c]) (r := r) (by simpa using hbytes)
      simpa [encodedBytes, hc] using this

theorem toByteArray_slice {a b : Nat} (ha : s.isBoundary a) (hb : s.isBoundary b) (h : a ≤ b) :
    (s.slice a b).toByteArray = s.bytes.extract a b := by
  have hv : (s.bytes.extract a b).IsValidUTF8 := by
    rw [s.bytes_eq]
    exact (String.Pos.Raw.isValidUTF8_extract_iff ⟨a⟩ ⟨b⟩ h
      (s.isValid_of_isBoundary hb).le_rawEndPos).2
      (.inr ⟨s.isValid_of_isBoundary ha, s.isValid_of_isBoundary hb⟩)
  rw [slice, String.fromUTF8?, dif_pos hv]
  rfl

theorem slice_append_slice {a b c : Nat} (ha : s.isBoundary a) (hb : s.isBoundary b)
    (hc : s.isBoundary c) (hab : a ≤ b) (hbc : b ≤ c) :
    s.slice a b ++ s.slice b c = s.slice a c := by
  apply String.toByteArray_inj.1
  rw [String.toByteArray_append, s.toByteArray_slice ha hb hab, s.toByteArray_slice hb hc hbc,
    s.toByteArray_slice ha hc (hab.trans hbc), ByteArray.extract_append_extract,
    Nat.min_eq_left hab, Nat.max_eq_right hbc]

theorem slice_self (a : Nat) : s.slice a a = "" := by
  have hempty : s.bytes.extract a a = ByteArray.empty := by
    rw [ByteArray.extract_eq_empty_iff]
    omega
  rw [slice, hempty]
  rfl

theorem slice_ofString_slice {a b p q : Nat} (ha : s.isBoundary a) (hb : s.isBoundary b)
    (hap : a ≤ p) (hpq : p ≤ q) (hqb : q ≤ b) :
    (ofString (s.slice a b)).slice (p - a) (q - a) = s.slice p q := by
  have hbytes : (ofString (s.slice a b)).bytes = s.bytes.extract a b :=
    s.toByteArray_slice ha hb (hap.trans (hpq.trans hqb))
  have hextract : (s.bytes.extract a b).extract (p - a) (q - a) = s.bytes.extract p q := by
    rw [ByteArray.extract_extract, show a + (p - a) = p by omega,
      show min (a + (q - a)) b = q by omega]
  rw [← hbytes] at hextract
  exact congrArg (fun bytes => (String.fromUTF8? bytes).getD "") hextract

theorem slice_all : s.slice 0 s.size = s.text := by
  apply String.toByteArray_inj.1
  rw [s.toByteArray_slice s.isBoundary_zero s.isBoundary_size (Nat.zero_le _), size,
    ByteArray.extract_zero_size, s.bytes_eq]

end Source
end BladeTree
