import BladeTree.Proofs.Text.Scan
import Mathlib.Data.List.Infix

namespace BladeTree

/-! Texts as bytes -/

theorem ascii_eq (text : String) : ascii text = encodedBytes text.toList := by
  have h : text.toByteArray = text.toList.utf8Encode := by
    conv_lhs => rw [← String.ofList_toList (s := text)]
    exact String.toByteArray_ofList
  unfold ascii
  rw [String.toUTF8_eq_toByteArray, h]
  simp [List.utf8Encode, encodedBytes]

theorem ascii_append (a b : String) : ascii (a ++ b) = ascii a ++ ascii b := by
  simp only [ascii_eq, String.toList_append, encodedBytes_append]

theorem utf8EncodeChar_of_lt {c : Char} (h : c.toNat < 0x80) :
    String.utf8EncodeChar c = [UInt8.ofNat c.toNat] := by
  apply String.utf8EncodeChar_eq_singleton
  rw [Char.utf8Size_eq_one_iff, UInt32.le_iff_toNat_le]
  exact Nat.le_of_lt_succ h

theorem eq_of_utf8EncodeChar {c d : Char} {bs : List UInt8} (hc : c.toNat < 0x80)
    (h : String.utf8EncodeChar d = UInt8.ofNat c.toNat :: bs) : d = c ∧ bs = [] := by
  obtain ⟨b, bs', hd, -, -, hbs⟩ := utf8EncodeChar_shape d
  obtain ⟨rfl, rfl⟩ := List.cons.inj (h.symm.trans hd)
  have hbyte : (UInt8.ofNat c.toNat).toNat = c.toNat := by
    rw [UInt8.toNat_ofNat']
    omega
  obtain rfl : bs = [] := hbs (by omega)
  have hone : d.utf8Size = 1 := by rw [← String.length_utf8EncodeChar, h]; rfl
  have hlt : d.toNat < 0x80 := by
    rw [Char.utf8Size_eq_one_iff, UInt32.le_iff_toNat_le] at hone
    exact Nat.lt_succ_of_le hone
  rw [utf8EncodeChar_of_lt hlt, List.cons.injEq] at h
  have hnat := congrArg UInt8.toNat h.1
  rw [UInt8.toNat_ofNat', hbyte] at hnat
  refine ⟨Char.toNat_inj.1 ?_, rfl⟩
  omega

structure Byte.Spells (p : UInt8 → Bool) (q : Char → Bool) : Prop where
  ascii : Byte.AsciiClass p
  char : ∀ c, q c → c.toNat < 0x80
  byte : ∀ n : Fin 128, p (UInt8.ofNat n) = q (Char.ofNat n)

namespace Byte.Spells

variable {p : UInt8 → Bool} {q : Char → Bool} (h : Byte.Spells p q)
include h

theorem encode (c : Char) : ∃ b bs, String.utf8EncodeChar c = b :: bs ∧ p b = q c ∧
    (∀ x ∈ bs, p x = false) ∧ (q c → bs = []) := by
  obtain ⟨b, bs, hc, -, hbs, -⟩ := utf8EncodeChar_shape c
  have hrest : ∀ x ∈ bs, p x = false := by
    intro x hx
    rw [← Bool.not_eq_true]
    intro hp
    have hlow := (Byte.isAscii_iff x).1 (h.ascii x hp)
    have hhigh := (isContinuation_iff x).1 (hbs x hx)
    omega
  by_cases hlt : c.toNat < 0x80
  · obtain ⟨rfl, rfl⟩ := List.cons.inj (hc.symm.trans (utf8EncodeChar_of_lt hlt))
    refine ⟨_, _, hc, ?_, hrest, fun _ => rfl⟩
    rw [h.byte ⟨c.toNat, hlt⟩, Char.ofNat_toNat]
  · have hq : q c = false := Bool.eq_false_iff.2 fun hq => hlt (h.char c hq)
    have hp : p b = false := by
      rw [← Bool.not_eq_true]
      intro hp
      have hb := (Byte.isAscii_iff b).1 (h.ascii b hp)
      have hnat : (Char.ofNat b.toNat).toNat = b.toNat := by
        rw [Char.ofNat, dif_pos (.inl (by omega))]
        rfl
      have hcode : String.utf8EncodeChar c = UInt8.ofNat (Char.ofNat b.toNat).toNat :: bs := by
        rw [hc, hnat, UInt8.ofNat_toNat]
      obtain ⟨rfl, -⟩ := eq_of_utf8EncodeChar (by omega) hcode
      exact hlt (by omega)
    refine ⟨b, bs, hc, hp.trans hq.symm, hrest, fun hqc => ?_⟩
    rw [hq] at hqc
    cases hqc

theorem head?_encodedBytes (cs : List Char) : (encodedBytes cs).head?.any p = cs.head?.any q := by
  cases cs with
  | nil => rfl
  | cons c cs =>
      obtain ⟨b, bs, hc, hb, -⟩ := h.encode c
      rw [encodedBytes, List.flatMap_cons, hc, List.cons_append, List.head?_cons, List.head?_cons]
      exact hb

theorem getLast?_encodedBytes (cs : List Char) :
    (encodedBytes cs).getLast?.any p = cs.getLast?.any q := by
  rcases List.eq_nil_or_concat cs with rfl | ⟨cs, c, rfl⟩
  · rfl
  obtain ⟨b, bs, hc, hb, hbs, hone⟩ := h.encode c
  rw [List.concat_eq_append, encodedBytes_append, List.getLast?_append, List.getLast?_append]
  have hlast : encodedBytes [c] = b :: bs := by rw [encodedBytes, List.flatMap_singleton, hc]
  rw [hlast, List.getLast?_singleton]
  cases hrest : bs.getLast? with
  | none =>
      rw [List.getLast?_eq_none_iff.1 hrest]
      exact hb
  | some x =>
      have hx : p x = false := hbs x (List.mem_of_getLast? hrest)
      have hq : q c = false := by
        rw [← Bool.not_eq_true]
        intro hq
        rw [hone hq] at hrest
        cases hrest
      rw [List.getLast?_cons, hrest]
      exact hx.trans hq.symm

theorem dropWhile_encodedBytes (cs : List Char) :
    (encodedBytes cs).dropWhile p = encodedBytes (cs.dropWhile q) := by
  induction cs with
  | nil => rfl
  | cons c cs ih =>
      obtain ⟨b, bs, hc, hb, -, hone⟩ := h.encode c
      have hcons : encodedBytes (c :: cs) = b :: (bs ++ encodedBytes cs) := by
        rw [encodedBytes, List.flatMap_cons, hc]
        rfl
      cases hq : q c with
      | true =>
          rw [hcons, hone hq, List.dropWhile_cons_of_pos (hb.trans hq), List.nil_append, ih,
            List.dropWhile_cons_of_pos hq]
      | false =>
          rw [List.dropWhile_cons_of_neg (by simp [hq]), hcons,
            List.dropWhile_cons_of_neg (by simp [hb, hq])]

theorem forall_encodedBytes {cs : List Char} (hcs : ∀ c ∈ cs, q c) : ∀ b ∈ encodedBytes cs, p b := by
  intro b hmem
  obtain ⟨c, hc, hbc⟩ := List.mem_flatMap.1 hmem
  obtain ⟨b', bs, hcode, hb, -, hone⟩ := h.encode c
  rw [hcode, hone (hcs c hc), List.mem_singleton] at hbc
  rw [hbc, hb]
  exact hcs c hc

end Byte.Spells

theorem isPrefix_of_encodedBytes {p cs : List Char} (hp : ∀ c ∈ p, c.toNat < 0x80)
    (h : encodedBytes p <+: encodedBytes cs) : p <+: cs := by
  induction p generalizing cs with
  | nil => exact List.nil_prefix
  | cons c p ih =>
      have hc : c.toNat < 0x80 := hp c List.mem_cons_self
      rw [encodedBytes, List.flatMap_cons, utf8EncodeChar_of_lt hc, List.singleton_append] at h
      cases cs with
      | nil => cases List.prefix_nil.1 h
      | cons d cs =>
          obtain ⟨b, bs, hd, -⟩ := utf8EncodeChar_shape d
          rw [encodedBytes, List.flatMap_cons, hd, List.cons_append, List.cons_prefix_cons] at h
          obtain ⟨rfl, htail⟩ := h
          obtain ⟨rfl, rfl⟩ := eq_of_utf8EncodeChar hc hd
          rw [List.cons_prefix_cons]
          exact ⟨rfl, ih (fun c hc => hp c (List.mem_cons_of_mem _ hc)) htail⟩

theorem isInfix_of_encodedBytes {p cs : List Char} (hp : ∀ c ∈ p, c.toNat < 0x80)
    (h : encodedBytes p <:+: encodedBytes cs) : p <:+: cs := by
  obtain ⟨before, after, h⟩ := h
  cases p with
  | nil => exact List.nil_infix
  | cons c p =>
      have hc : c.toNat < 0x80 := hp c List.mem_cons_self
      obtain ⟨l, r, rfl, hl⟩ := exists_split_of_not_continuation cs before.length
        (by rw [← h]; simp) fun b hb => by
          rw [← h, List.append_assoc, List.getElem?_append_right le_rfl, Nat.sub_self,
            encodedBytes, List.flatMap_cons, utf8EncodeChar_of_lt hc] at hb
          obtain rfl : UInt8.ofNat c.toNat = b := Option.some.inj hb
          rw [isContinuation_iff, UInt8.toNat_ofNat']
          omega
      rw [List.append_assoc, encodedBytes_append] at h
      have hr : encodedBytes (c :: p) ++ after = encodedBytes r := (List.append_inj h hl.symm).2
      have hfront : c :: p <+: r := isPrefix_of_encodedBytes hp ⟨after, hr⟩
      exact hfront.isInfix.trans (List.suffix_append l r).isInfix

namespace Source

variable (s : Source)

theorem startsWith_iff {pat : List UInt8} {i : Nat} :
    s.startsWith i pat ↔ pat <+: s.bytes.data.toList.drop i := by
  induction pat generalizing i with
  | nil => simp [startsWith]
  | cons b bs ih =>
      rw [startsWith, Bool.and_eq_true, ih, has, byte?_eq]
      by_cases hi : i < s.bytes.data.toList.length
      · rw [List.getElem?_eq_getElem hi, Option.any_some, beq_iff_eq,
          List.drop_eq_getElem_cons hi, List.cons_prefix_cons]
        exact and_congr_left' eq_comm
      · have hnil : s.bytes.data.toList.drop i = [] := List.drop_eq_nil_of_le (Nat.le_of_not_lt hi)
        rw [List.getElem?_eq_none (Nat.le_of_not_lt hi), hnil]
        simp

theorem has_eq (p : UInt8 → Bool) (i : Nat) : s.has p i = (s.bytes.data.toList.drop i).head?.any p := by
  rw [has, byte?_eq, List.head?_drop]

theorem skipWhile_eq (p : UInt8 → Bool) (i : Nat) :
    s.skipWhile p i = i + ((s.bytes.data.toList.drop i).takeWhile p).length := by
  fun_induction skipWhile s p i with
  | case1 i h _ ih =>
      obtain ⟨b, hb, hp⟩ := s.exists_of_has h
      rw [byte?_eq] at hb
      obtain ⟨hlt, rfl⟩ := List.getElem?_eq_some_iff.1 hb
      rw [ih, List.drop_eq_getElem_cons hlt, List.takeWhile_cons_of_pos hp, List.length_cons]
      omega
  | case2 i h =>
      rw [has_eq] at h
      cases hrest : s.bytes.data.toList.drop i with
      | nil => rfl
      | cons b bs =>
          rw [hrest, List.head?_cons] at h
          rw [List.takeWhile_cons_of_neg (show ¬ p b from h)]
          rfl

theorem startsWith_of_append {p q : List UInt8} {i : Nat} (h : s.startsWith i (p ++ q)) :
    s.startsWith i p := by
  rw [startsWith_iff] at h ⊢
  exact (List.prefix_append p q).trans h

theorem startsWith_eq_false_of_ne {p q : List UInt8} {i k : Nat} {a b : UInt8}
    (h : s.startsWith i p) (hp : p[k]? = some a) (hq : q[k]? = some b) (hne : a ≠ b) :
    s.startsWith i q = false := by
  rw [Bool.eq_false_iff]
  intro hother
  have hbyte : s.byte? (i + k) = some a := s.byte?_of_startsWith h hp
  have hbyte' : s.byte? (i + k) = some b := s.byte?_of_startsWith hother hq
  exact hne (Option.some.inj (hbyte.symm.trans hbyte'))

theorem find_eq_some {pat : List UInt8} {i stop : Nat} (hle : i ≤ stop)
    (hat : s.startsWith stop pat) (hstop : stop < s.size)
    (hbefore : ∀ j, i ≤ j → j < stop → ¬ s.startsWith j pat) : s.find pat i = some stop := by
  fun_induction find s pat i with
  | case1 i hs =>
      by_contra hne
      exact hbefore i le_rfl (by rw [Option.some.injEq] at hne; omega) hs
  | case2 i hs hi ih =>
      have hlt : i ≠ stop := by
        rintro rfl
        exact hs hat
      exact ih (by omega) fun j hj => hbefore j (by omega)
  | case3 i hs hi => omega

end Source

theorem isPrefix_of_not_mem {α : Type} {p xs ys : List α} {z : α} (hz : z ∉ p)
    (h : p <+: xs ++ z :: ys) : p <+: xs := by
  rcases List.prefix_or_prefix_of_prefix h (List.prefix_append xs _) with hp | ⟨t, rfl⟩
  · exact hp
  · rw [List.prefix_append_right_inj] at h
    cases t with
    | nil => simp
    | cons a t =>
        obtain ⟨rfl, -⟩ := List.cons_prefix_cons.1 h
        exact absurd (List.mem_append_right _ List.mem_cons_self) hz

theorem isInfix_of_cons {α : Type} {p xs : List α} {z : α} (hz : z ∉ p) (h : p <:+: z :: xs) :
    p <:+: xs := by
  rcases List.infix_cons_iff.1 h with hfront | hrest
  · have hnil : p <+: [] := isPrefix_of_not_mem hz hfront
    rw [List.prefix_nil.1 hnil]
    exact List.nil_infix
  · exact hrest

theorem isInfix_of_concat {α : Type} {p xs : List α} {z : α} (hz : z ∉ p)
    (h : p <:+: xs ++ [z]) : p <:+: xs := by
  rw [← List.reverse_infix] at h ⊢
  rw [List.reverse_append, List.reverse_singleton, List.singleton_append] at h
  exact isInfix_of_cons (by rwa [List.mem_reverse]) h

theorem not_mem_encodedBytes {p : List Char} {c : Char} (hc : c.toNat < 0x80)
    (hp : ∀ d ∈ p, d.toNat < 0x80 ∧ d ≠ c) : UInt8.ofNat c.toNat ∉ encodedBytes p := by
  intro hmem
  obtain ⟨d, hd, hbyte⟩ := List.mem_flatMap.1 hmem
  rw [utf8EncodeChar_of_lt (hp d hd).1, List.mem_singleton] at hbyte
  have henc : String.utf8EncodeChar d = [UInt8.ofNat c.toNat] := by
    rw [utf8EncodeChar_of_lt (hp d hd).1, hbyte]
  exact (hp d hd).2 (eq_of_utf8EncodeChar hc henc).1

namespace Source

def enclosed (opening body closing : String) : Source := ofString (opening ++ body ++ closing)

section Enclosed

variable (opening body closing : String)

theorem bytes_enclosed : (enclosed opening body closing).bytes.data.toList =
    ascii opening ++ (ascii body ++ ascii closing) := by
  rw [← List.append_assoc, ← ascii_append, ← ascii_append]
  rfl

theorem size_enclosed : (enclosed opening body closing).size =
    (ascii opening).length + (ascii body).length + (ascii closing).length := by
  have h := congrArg List.length (bytes_enclosed opening body closing)
  rw [List.length_append, List.length_append, ← Nat.add_assoc] at h
  exact h

theorem startsWith_opening {pat : List UInt8} (h : pat <+: ascii opening ++ ascii body) :
    (enclosed opening body closing).startsWith 0 pat := by
  rw [startsWith_iff, bytes_enclosed, ← List.append_assoc]
  exact h.trans (List.prefix_append _ _)

theorem startsWith_closing : (enclosed opening body closing).startsWith
    ((ascii opening).length + (ascii body).length) (ascii closing) := by
  rw [startsWith_iff, bytes_enclosed, ← List.append_assoc, ← List.length_append,
    List.drop_left]

theorem slice_enclosed : (enclosed opening body closing).slice (ascii opening).length
    ((ascii opening).length + (ascii body).length) = body := by
  have hbytes : (enclosed opening body closing).bytes.extract (ascii opening).length
      ((ascii opening).length + (ascii body).length) = body.toByteArray := by
    apply ByteArray.ext
    apply Array.toList_inj.1
    rw [ByteArray.data_extract, Array.toList_extract, bytes_enclosed]
    simp [List.extract_eq_take_drop]
    rfl
  rw [slice, hbytes, String.fromUTF8?, dif_pos body.isValidUTF8]
  rfl

theorem not_startsWith_enclosed {pat : String} {c : Char} {i : Nat} (hc : c.toNat < 0x80)
    (hlast : body.toList.getLast? = some c) (hpat : ∀ d ∈ pat.toList, d.toNat < 0x80 ∧ d ≠ c)
    (hnot : ¬ pat.toList <:+: body.toList) (hle : (ascii opening).length ≤ i)
    (hlt : i < (ascii opening).length + (ascii body).length) :
    ¬ (enclosed opening body closing).startsWith i (ascii pat) := by
  rw [startsWith_iff, bytes_enclosed]
  intro h
  obtain ⟨cs, hcs⟩ := List.getLast?_eq_some_iff.1 hlast
  have hbody : ascii body = encodedBytes cs ++ [UInt8.ofNat c.toNat] := by
    rw [ascii_eq, hcs, encodedBytes_append, encodedBytes, encodedBytes, List.flatMap_singleton,
      utf8EncodeChar_of_lt hc]
  obtain ⟨j, rfl⟩ := Nat.exists_eq_add_of_le hle
  rw [hbody, List.length_append, List.length_singleton] at hlt
  rw [← List.drop_drop, List.drop_left, hbody, List.append_assoc, List.singleton_append,
    List.drop_append_of_le_length (by omega), ascii_eq] at h
  have hfront : encodedBytes pat.toList <+: (encodedBytes cs).drop j :=
    isPrefix_of_not_mem (not_mem_encodedBytes hc hpat) h
  have hwithin : pat.toList <:+: cs := by
    apply isInfix_of_encodedBytes (fun d hd => (hpat d hd).1)
    exact hfront.isInfix.trans (List.drop_suffix _ _).isInfix
  rw [hcs] at hnot
  exact hnot (hwithin.trans (List.prefix_append _ _).isInfix)

end Enclosed
end Source
end BladeTree
