import BladeTree.Proofs.Token.Memo

namespace BladeTree

/-- What a scanner of PHP reads at once. -/
inductive CodeUnit where
  | string
  | comment
  | byte (b : UInt8)
  deriving DecidableEq, Repr

namespace CodeUnit

def leave (depth : Nat) : CodeUnit → Nat
  | byte b =>
    if Source.isOpenBracket b then depth + 1
    else if Source.isCloseBracket b then depth - 1
    else depth
  | _ => depth

/-- A string, or a byte other than brackets, white space and the commas between arguments. -/
def isContent (depth : Nat) : CodeUnit → Bool
  | string => true
  | comment => false
  | byte b => !(Source.isOpenBracket b || Source.isCloseBracket b || Byte.isSpace b ||
      (b == Byte.comma && depth == 1))

def withDepth (depth : Nat) : List CodeUnit → List (Nat × CodeUnit)
  | [] => []
  | u :: us => (depth, u) :: withDepth (u.leave depth) us

def commas (depth : Nat) (us : List CodeUnit) : Nat :=
  (withDepth depth us).count (1, byte Byte.comma)

def hasContent (depth : Nat) (us : List CodeUnit) : Bool :=
  (withDepth depth us).any fun (depth, u) => u.isContent depth

/-- The number of arguments in a group of parentheses. -/
def argumentCount (us : List CodeUnit) : Nat :=
  if hasContent 0 us then commas 0 us + 1 else 0

variable {depth : Nat} {u : CodeUnit} {us : List CodeUnit}

theorem commas_cons :
    commas depth (u :: us) = (if u = byte Byte.comma ∧ depth = 1 then 1 else 0) +
      commas (u.leave depth) us := by
  rw [commas, withDepth, List.count_cons, Nat.add_comm]
  simp only [commas, beq_iff_eq, Prod.mk.injEq, and_comm]

theorem hasContent_cons :
    hasContent depth (u :: us) = (u.isContent depth || hasContent (u.leave depth) us) :=
  List.any_cons

end CodeUnit

namespace Source

variable (s : Source) {m : ScanMemo} {b : UInt8} {stop i : Nat}

/-- What is read at `i`, where `b` stands. -/
def unitAt (b : UInt8) (i : Nat) : CodeUnit :=
  if CodeFlavor.php.isQuote b ∧ (s.closeString b (i + 1)).isSome then .string
  else if (b = Byte.slash ∨ b = Byte.hash) ∧ (s.skipComment .empty .php none i).1.isSome then
    .comment
  else .byte b

def unitEnd (b : UInt8) (i : Nat) : Nat :=
  (s.skipUnit .empty .php none b i).1

theorem lt_unitEnd (b : UInt8) (hi : i < s.size) : i < s.unitEnd b i :=
  s.lt_skipUnit .empty .php none b hi

/-- What the scanner of arguments reads from `i` to `stop`. -/
def units (stop i : Nat) : List CodeUnit :=
  if h : i < stop ∧ i < s.size then
    have hi : i < s.size := h.2
    have := s.lt_unitEnd s.bytes[i] hi
    s.unitAt s.bytes[i] i :: units stop (s.unitEnd s.bytes[i] i)
  else []
termination_by s.size - i

theorem units_of_byte (hb : s.byte? i = some b) (hi : i < stop) :
    s.units stop i = s.unitAt b i :: s.units stop (s.unitEnd b i) := by
  obtain ⟨hlt, rfl⟩ := getElem?_eq_some_iff.1 hb
  rw [units]
  exact dif_pos ⟨hi, hlt⟩

theorem units_self : s.units stop stop = [] := by
  rw [units, dif_neg (by omega)]

theorem isQuote_php_iff :
    CodeFlavor.php.isQuote b ↔ b = Byte.singleQuote ∨ b = Byte.doubleQuote := by
  simp [CodeFlavor.isQuote]

theorem unitEnd_of_isQuote (hq : CodeFlavor.php.isQuote b) (hb : s.byte? i = some b) :
    s.unitEnd b i = (s.closeString b (i + 1)).getD (i + 1) := by
  rw [unitEnd, skipUnit, if_pos hq]
  exact congrArg (Option.getD · (i + 1)) (s.skipString_of_sound (ScanMemo.sound_empty s) hq hb).1

theorem unitEnd_of_unitAt_eq_string (hb : s.byte? i = some b) (h : s.unitAt b i = .string) :
    CodeFlavor.php.isQuote b ∧ s.closeString b (i + 1) = some (s.unitEnd b i) := by
  unfold unitAt at h
  split at h
  · rename_i hstring
    obtain ⟨e, he⟩ := Option.isSome_iff_exists.1 hstring.2
    rw [s.unitEnd_of_isQuote hstring.1 hb, he]
    exact ⟨hstring.1, rfl⟩
  · split at h <;> cases h

theorem unitAt_eq_byte (hb : s.byte? i = some b) (hstring : s.unitAt b i ≠ .string)
    (hcomment : s.unitAt b i ≠ .comment) :
    s.unitAt b i = .byte b ∧ s.unitEnd b i = i + 1 ∧
      (CodeFlavor.php.isQuote b → s.closeString b (i + 1) = none) := by
  unfold unitAt at hstring hcomment ⊢
  split at hstring
  · exact absurd rfl hstring
  rename_i hnostring
  rw [if_neg hnostring] at hcomment
  split at hcomment
  · exact absurd rfl hcomment
  rename_i hnocomment
  have hclose (hq : CodeFlavor.php.isQuote b) : s.closeString b (i + 1) = none :=
    Option.not_isSome_iff_eq_none.1 fun hsome => hnostring ⟨hq, hsome⟩
  refine ⟨by rw [if_neg hnostring, if_neg hnocomment], ?_, hclose⟩
  by_cases hq : CodeFlavor.php.isQuote b
  · rw [s.unitEnd_of_isQuote hq hb, hclose hq]
    rfl
  · rw [unitEnd, skipUnit, if_neg hq]
    by_cases hmark : b = Byte.slash ∨ b = Byte.hash
    · rw [if_pos hmark]
      have hskip : (s.skipComment .empty .php none i).1 = none :=
        Option.not_isSome_iff_eq_none.1 fun hsome => hnocomment ⟨hmark, hsome⟩
      exact congrArg (Option.getD · (i + 1)) hskip
    · rw [if_neg hmark]
      rfl

def ReadTo (stop i : Nat) : Prop :=
  i = stop ∨ ∃ m parens, m.Sound s ∧ (s.balancedParens m .php parens i).1 = (stop, true)

theorem unitEnd_eq_of_paren (h : b = Byte.openParen ∨ b = Byte.closeParen) :
    s.unitEnd b i = i + 1 := by
  rcases h with rfl | rfl <;> rfl

theorem ReadTo.next (h : s.ReadTo stop i) (hi : i ≠ stop) :
    ∃ b, s.byte? i = some b ∧ s.unitEnd b i ≤ stop ∧ s.ReadTo stop (s.unitEnd b i) := by
  obtain ⟨m, parens, hm, hread⟩ := h.resolve_left hi
  have hle {m : ScanMemo} {parens j : Nat}
      (hread : (s.balancedParens m .php parens j).1 = (stop, true)) : j ≤ stop := by
    have hlt := s.lt_balancedParens (congrArg Prod.snd hread)
    rw [hread] at hlt
    exact hlt.le
  cases hb : s.byte? i with
  | none =>
      rw [s.balancedParens_of_none m .php parens hb] at hread
      cases hread
  | some b =>
      rw [s.balancedParens_of_byte m .php parens hb] at hread
      refine ⟨b, rfl, ?_⟩
      split at hread
      · rename_i hopen
        rw [s.unitEnd_eq_of_paren (.inl hopen)]
        exact ⟨hle hread, .inr ⟨m, _, hm, hread⟩⟩
      split at hread
      · rename_i hclose
        rw [s.unitEnd_eq_of_paren (.inr hclose)]
        split at hread
        · cases hread
          exact ⟨le_rfl, .inl rfl⟩
        · exact ⟨hle hread, .inr ⟨m, _, hm, hread⟩⟩
      · have hskip : (s.skipUnit m .php none b i).1 = s.unitEnd b i ∧
            (s.skipUnit m .php none b i).2.Sound s :=
          s.skipUnit_of_sound hm (ScanMemo.sound_empty s) hb
        obtain ⟨hskip, hsound⟩ := hskip
        rw [hskip] at hread
        exact ⟨hle hread, .inr ⟨_, _, hsound, hread⟩⟩

section Count

variable (depth commas : Nat) (content : Bool)

theorem countCommas_self :
    (s.countCommas m stop depth commas content stop).1 = (commas, content) := by
  rw [countCommas, dif_neg (by omega)]

theorem countCommas_of_byte (hb : s.byte? i = some b) (hi : i < stop) :
    s.countCommas m stop depth commas content i =
      if isOpenBracket b then s.countCommas m stop (depth + 1) commas content (i + 1)
      else if isCloseBracket b then s.countCommas m stop (depth - 1) commas content (i + 1)
      else if b = Byte.comma ∧ depth = 1 then
        s.countCommas m stop depth (commas + 1) content (i + 1)
      else if b = Byte.singleQuote ∨ b = Byte.doubleQuote then
        s.countCommas (s.skipString m b i).2 stop depth commas true
          ((s.skipString m b i).1.elim (i + 1) (min · stop))
      else s.countCommas m stop depth commas (content || !Byte.isSpace b) (i + 1) := by
  obtain ⟨hlt, rfl⟩ := getElem?_eq_some_iff.1 hb
  rw [countCommas]
  refine (dif_pos (Nat.lt_min.2 ⟨hi, hlt⟩)).trans ?_
  refine ite_congr rfl (fun _ => rfl) fun _ => ite_congr rfl (fun _ => rfl) fun _ =>
    ite_congr rfl (fun _ => rfl) fun _ => ?_
  rw [dite_eq_ite]
  refine ite_congr rfl (fun _ => ?_) fun _ => rfl
  have hskip {e : Option Nat} (he : (s.skipString m s.bytes[i] i).1 = e) :
      s.countCommas (s.skipString m s.bytes[i] i).2 stop depth commas true
          (e.elim (i + 1) (min · stop)) =
        s.countCommas (s.skipString m s.bytes[i] i).2 stop depth commas true
          ((s.skipString m s.bytes[i] i).1.elim (i + 1) (min · stop)) := by
    rw [he]
  dsimp only
  split
  · rename_i hclosed
    exact hskip hclosed
  · rename_i hunclosed
    exact hskip hunclosed

theorem countCommas_string (hm : m.Sound s) (hb : s.byte? i = some b) (hi : i < stop)
    (hstring : s.unitAt b i = .string) (hend : s.unitEnd b i ≤ stop) : ∃ m', m'.Sound s ∧
      s.countCommas m stop depth commas content i =
        s.countCommas m' stop depth commas true (s.unitEnd b i) := by
  obtain ⟨hq, hclose⟩ := s.unitEnd_of_unitAt_eq_string hb hstring
  obtain ⟨hskip, hsound⟩ := s.skipString_of_sound hm hq hb
  refine ⟨_, hsound, ?_⟩
  have hquote := isQuote_php_iff.1 hq
  have hplain : isOpenBracket b = false ∧ isCloseBracket b = false ∧ b ≠ Byte.comma := by
    rcases hquote with rfl | rfl <;> decide
  rw [s.countCommas_of_byte depth commas content hb hi, hplain.1, hplain.2.1,
    if_neg Bool.false_ne_true, if_neg Bool.false_ne_true, if_neg fun h => hplain.2.2 h.1,
    if_pos hquote, hskip, hclose, Option.elim_some, Nat.min_eq_left hend]

theorem countCommas_byte (hm : m.Sound s) (hb : s.byte? i = some b) (hi : i < stop)
    (hclose : CodeFlavor.php.isQuote b → s.closeString b (i + 1) = none) : ∃ m', m'.Sound s ∧
      s.countCommas m stop depth commas content i =
        s.countCommas m' stop (CodeUnit.leave depth (.byte b))
          (commas + if b = Byte.comma ∧ depth = 1 then 1 else 0)
          (content || CodeUnit.isContent depth (.byte b)) (i + 1) := by
  rw [s.countCommas_of_byte depth commas content hb hi]
  have hcomma (hbracket : isOpenBracket b ∨ isCloseBracket b) : ¬ (b = Byte.comma ∧ depth = 1) := by
    rintro ⟨rfl, -⟩
    exact absurd hbracket (by decide)
  split
  · rename_i hopen
    refine ⟨m, hm, ?_⟩
    rw [CodeUnit.leave, if_pos hopen, CodeUnit.isContent, hopen, if_neg (hcomma (.inl hopen))]
    simp
  split
  · rename_i hopen hclosing
    refine ⟨m, hm, ?_⟩
    rw [CodeUnit.leave, if_neg hopen, if_pos hclosing, CodeUnit.isContent, hclosing,
      if_neg (hcomma (.inr hclosing))]
    simp
  rename_i hopen hclosing
  rw [CodeUnit.leave, if_neg hopen, if_neg hclosing, CodeUnit.isContent,
    Bool.eq_false_iff.2 hopen, Bool.eq_false_iff.2 hclosing]
  split
  · rename_i hseparates
    refine ⟨m, hm, ?_⟩
    rw [hseparates.1, hseparates.2]
    simp
  rename_i hseparates
  have hnot : (b == Byte.comma && depth == 1) = false := by simpa using hseparates
  rw [hnot]
  split
  · rename_i hquote
    obtain ⟨hskip, hsound⟩ := s.skipString_of_sound hm (isQuote_php_iff.2 hquote) hb
    refine ⟨_, hsound, ?_⟩
    have hspace : Byte.isSpace b = false := by
      rcases hquote with rfl | rfl <;> rfl
    rw [hskip, hclose (isQuote_php_iff.2 hquote), hspace]
    simp
  · exact ⟨m, hm, by simp⟩

/-- The two scanners keep step: without comments the next unit is the same to both. -/
theorem countCommas_eq (hm : m.Sound s) (h : s.ReadTo stop i)
    (hno : CodeUnit.comment ∉ s.units stop i) :
    (s.countCommas m stop depth commas content i).1 =
      (commas + CodeUnit.commas depth (s.units stop i),
        content || CodeUnit.hasContent depth (s.units stop i)) := by
  induction hn : s.size - i using Nat.strong_induction_on generalizing m depth commas content i with
  | _ n ih =>
      by_cases hi : i = stop
      · subst hi
        rw [s.countCommas_self, s.units_self, CodeUnit.commas, CodeUnit.hasContent,
          CodeUnit.withDepth, List.count_nil, List.any_nil, Nat.add_zero, Bool.or_false]
      obtain ⟨b, hb, hend, hnext⟩ := h.next s hi
      have hlt := s.lt_size_of_byte? hb
      have hpos := s.lt_unitEnd b hlt
      rw [s.units_of_byte hb (by omega), List.mem_cons, not_or] at hno
      rw [s.units_of_byte hb (by omega), CodeUnit.commas_cons, CodeUnit.hasContent_cons]
      have hrest {m : ScanMemo} (hm : m.Sound s) (depth commas : Nat) (content : Bool) :=
        ih (s.size - s.unitEnd b i) (by omega) depth commas content hm hnext hno.2 rfl
      by_cases hstring : s.unitAt b i = .string
      · obtain ⟨m', hm', hcount⟩ :=
          s.countCommas_string depth commas content hm hb (by omega) hstring hend
        rw [hcount, hrest hm', hstring]
        simp [CodeUnit.leave, CodeUnit.isContent]
      · obtain ⟨hbyte, hone, hclose⟩ := s.unitAt_eq_byte hb hstring (Ne.symm hno.1)
        have hi : i < stop := by omega
        obtain ⟨m', hm', hcount⟩ := s.countCommas_byte depth commas content hm hb hi hclose
        rw [hcount, ← hone, hrest hm', hbyte]
        simp [Nat.add_assoc, Bool.or_assoc]

end Count

/-- Where no comment stands among them, arguments are counted as they are read. -/
theorem countArguments_eq (hm : m.Sound s) {start : Nat}
    (h : (s.balancedParens .empty .php 0 start).1 = (stop, true))
    (hno : CodeUnit.comment ∉ s.units stop start) :
    (s.countArguments m start stop).1 = CodeUnit.argumentCount (s.units stop start) := by
  have hcount := s.countCommas_eq 0 0 false hm (.inr ⟨_, 0, ScanMemo.sound_empty s, h⟩) hno
  rw [Nat.zero_add, Bool.false_or] at hcount
  rw [countArguments, CodeUnit.argumentCount]
  simp only [hcount]

-- A comma in a comment is counted, so the comment may not stand there.
example : let s := Source.ofString "(a /* , */)"
    (s.balancedParens .empty .php 0 0).1 = (11, true) ∧ (s.units 11 0)[3]? = some .comment ∧
      CodeUnit.argumentCount (s.units 11 0) = 1 ∧ (s.countArguments .empty 0 11).1 = 2 := by
  cbv

end Source
end BladeTree
