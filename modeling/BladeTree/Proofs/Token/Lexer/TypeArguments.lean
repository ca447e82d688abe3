import BladeTree.Proofs.Text.Scan
import BladeTree.Token.Lexer.Generic

namespace BladeTree

/-- From `i` to `j` stand bytes of type arguments and whole lists of them. -/
inductive TypeArguments (s : Source) : Nat → Nat → Prop
  | nil (i : Nat) : TypeArguments s i i
  | byte {i j : Nat} {b : UInt8} : s.byte? i = some b →
      Byte.isWord b ∨ GenericScan.isFiller b → TypeArguments s (i + 1) j → TypeArguments s i j
  | list {i k j : Nat} : s.byte? i = some Byte.lessThan → TypeArguments s (i + 1) k →
      s.byte? k = some Byte.greaterThan → TypeArguments s (k + 1) j → TypeArguments s i j

/-- A list of type arguments that is open at `i` closes at `k`. -/
def ClosesAt (s : Source) (i k : Nat) : Prop :=
  TypeArguments s i k ∧ s.byte? k = some Byte.greaterThan

/-- A list of type arguments that names a type, from its opening bracket to past its closing one:
the byte of a name stands between the two. -/
def IsNamedList (s : Source) (start stop : Nat) : Prop :=
  ∃ k, s.byte? start = some Byte.lessThan ∧ ClosesAt s (start + 1) k ∧ stop = k + 1 ∧
    ∃ i, start < i ∧ i < k ∧ s.has Byte.isWord i

variable {s : Source} {i j k : Nat} {b : UInt8}

theorem TypeArguments.trans (h : TypeArguments s i j) (h' : TypeArguments s j k) :
    TypeArguments s i k := by
  induction h with
  | nil => exact h'
  | byte hb harg _ ih => exact .byte hb harg (ih h')
  | list hopen hinner hclose _ _ ih => exact .list hopen hinner hclose (ih h')

theorem TypeArguments.le (h : TypeArguments s i j) : i ≤ j := by
  induction h with
  | nil => exact le_rfl
  | byte _ _ _ ih => omega
  | list _ _ _ _ ih ih' => omega

theorem ne_bracket (h : Byte.isWord b ∨ GenericScan.isFiller b) :
    b ≠ Byte.lessThan ∧ b ≠ Byte.greaterThan := by
  constructor <;> rintro rfl <;> exact absurd h (by decide)

namespace ClosesAt

theorem eq_of_close (h : ClosesAt s i k) (hi : s.byte? i = some Byte.greaterThan) : i = k := by
  obtain ⟨hargs, -⟩ := h
  cases hargs with
  | nil => rfl
  | byte hb harg => exact absurd (Option.some.inj (hb.symm.trans hi)) (ne_bracket harg).2
  | list hopen => exact absurd (Option.some.inj (hi.symm.trans hopen)) (by decide)

theorem of_byte (h : ClosesAt s i k) (hb : s.byte? i = some b)
    (harg : Byte.isWord b ∨ GenericScan.isFiller b) : ClosesAt s (i + 1) k := by
  obtain ⟨hargs, hk⟩ := h
  cases hargs with
  | nil => exact absurd (Option.some.inj (hb.symm.trans hk)) (ne_bracket harg).2
  | byte _ _ hrest => exact ⟨hrest, hk⟩
  | list hopen => exact absurd (Option.some.inj (hb.symm.trans hopen)) (ne_bracket harg).1

theorem of_open (h : ClosesAt s i k) (hopen : s.byte? i = some Byte.lessThan) :
    ∃ l, ClosesAt s (i + 1) l ∧ ClosesAt s (l + 1) k := by
  obtain ⟨hargs, hk⟩ := h
  cases hargs with
  | nil => exact absurd (Option.some.inj (hk.symm.trans hopen)) (by decide)
  | byte hb harg => exact absurd (Option.some.inj (hb.symm.trans hopen)) (ne_bracket harg).1
  | list _ hinner hclose hrest => exact ⟨_, ⟨hinner, hclose⟩, hrest, hk⟩

theorem not_of_byte (hnot : ∀ b, s.byte? i = some b → b ≠ Byte.lessThan ∧
    b ≠ Byte.greaterThan ∧ ¬ (Byte.isWord b ∨ GenericScan.isFiller b)) : ¬ ClosesAt s i k := by
  rintro ⟨hargs, hk⟩
  cases hargs with
  | nil => exact (hnot _ hk).2.1 rfl
  | byte hb harg => exact (hnot _ hb).2.2 harg
  | list hopen => exact (hnot _ hopen).1 rfl

/-- What is open at `i` is still open past whole arguments, and closes where it did. -/
theorem past (h : ClosesAt s i k) (hargs : TypeArguments s i j) : ClosesAt s j k := by
  induction hargs generalizing k with
  | nil => exact h
  | byte hb harg _ ih => exact ih (h.of_byte hb harg)
  | list hopen hinner hclose _ ih ih' =>
      obtain ⟨l, hl, hrest⟩ := h.of_open hopen
      obtain rfl := (ih hl).eq_of_close hclose
      exact ih' hrest

theorem unique (h : ClosesAt s i j) (h' : ClosesAt s i k) : j = k :=
  (h'.past h.1).eq_of_close h.2

end ClosesAt

namespace GenericScan

/-- Lists are open at `i`, innermost first, each with whole arguments up to the next. -/
def Opened (s : Source) : List Nat → Nat → Prop
  | [], _ => True
  | start :: opened, i =>
    s.byte? start = some Byte.lessThan ∧ TypeArguments s (start + 1) i ∧ Opened s opened start

/-- The lookup finds the end of the list of type arguments at `start`, if it is one. -/
def Answers (s : Source) (closes : List (Nat × Nat)) (start : Nat) : Prop :=
  ∀ stop, closes.lookup start = some stop ↔ IsNamedList s start stop

variable {pos start : Nat} {opened : List Nat} {lastName : Option Nat} {closes : List (Nat × Nat)}

theorem Opened.trans (h : Opened s opened i) (hargs : TypeArguments s i j) : Opened s opened j := by
  cases opened with
  | nil => trivial
  | cons start opened => exact ⟨h.1, h.2.1.trans hargs, h.2.2⟩

theorem Opened.exists_closesAt (h : Opened s opened i) (hstart : start ∈ opened)
    (hk : ClosesAt s (start + 1) k) : ∃ l, ClosesAt s i l := by
  induction opened generalizing i with
  | nil => cases hstart
  | cons inner opened ih =>
      obtain ⟨hopen, hargs, houter⟩ := h
      rcases List.mem_cons.1 hstart with rfl | hstart
      · exact ⟨k, hk.past hargs⟩
      · obtain ⟨l, hl⟩ := ih houter hstart
        obtain ⟨l, hl, -⟩ := hl.of_open hopen
        exact ⟨l, hl.past hargs⟩

theorem Opened.lt (h : Opened s opened i) : ∀ start ∈ opened, start < i := by
  induction opened generalizing i with
  | nil => nofun
  | cons inner opened ih =>
      have hlt : inner < i := h.2.1.le
      exact List.forall_mem_cons.2 ⟨hlt, fun start hstart => (ih h.2.2 start hstart).trans hlt⟩

/-- A scan that began at `pos` has matched the brackets before `i`. -/
structure Matching (s : Source) (pos : Nat) (opened : List Nat) (lastName : Option Nat)
    (closes : List (Nat × Nat)) (i : Nat) : Prop where
  le : pos ≤ i
  nested : Opened s opened i
  le_opened : ∀ start ∈ opened, pos ≤ start
  name : ∀ start, pos ≤ start →
    (lastName.any (start < ·) ↔ ∃ k, start < k ∧ k < i ∧ s.has Byte.isWord k)
  closed : ∀ start, pos ≤ start → start < i → s.byte? start = some Byte.lessThan →
    start ∉ opened → Answers s closes start
  /-- Nothing is said yet of lists that are open or still to come. -/
  unanswered : ∀ start, start ∈ opened ∨ i ≤ start → closes.lookup start = none

theorem matching_start (s : Source) (pos : Nat) : Matching s pos [] none [] pos where
  le := le_rfl
  nested := trivial
  le_opened := nofun
  name start hstart := by
    refine iff_of_false Bool.false_ne_true ?_
    rintro ⟨k, hlt, hk, -⟩
    omega
  closed start hstart hlt := absurd hstart (Nat.not_le_of_lt hlt)
  unanswered _ _ := rfl

namespace Matching

theorem lt_of_lt_succ {q : Nat} (hq : q < i + 1) (hopen : s.byte? q = some Byte.lessThan)
    (hb : s.byte? i = some b) (hne : b ≠ Byte.lessThan) : q < i := by
  refine Nat.lt_of_le_of_ne (Nat.le_of_lt_succ hq) ?_
  rintro rfl
  exact hne (Option.some.inj (hb.symm.trans hopen))

theorem names_succ (hb : s.byte? i = some b) (hword : ¬ Byte.isWord b) :
    (∃ k, start < k ∧ k < i + 1 ∧ s.has Byte.isWord k) ↔
      ∃ k, start < k ∧ k < i ∧ s.has Byte.isWord k := by
  refine exists_congr fun k => and_congr_right fun _ => ?_
  rw [Nat.lt_succ_iff_lt_or_eq, or_and_right, or_iff_left]
  rintro ⟨rfl, hk⟩
  rw [Source.has, hb] at hk
  exact hword hk

theorem push (h : Matching s pos opened lastName closes i)
    (hb : s.byte? i = some Byte.lessThan) :
    Matching s pos (i :: opened) lastName closes (i + 1) where
  le := h.le.trans i.le_succ
  nested := ⟨hb, .nil (i + 1), h.nested⟩
  le_opened := List.forall_mem_cons.2 ⟨h.le, h.le_opened⟩
  name start hstart := (h.name start hstart).trans (names_succ hb (by decide)).symm
  closed start hstart hlt hopen hnot := by
    rw [List.mem_cons, not_or] at hnot
    exact h.closed start hstart (by omega) hopen hnot.2
  unanswered start hstart := by
    refine h.unanswered start ?_
    rcases hstart with hstart | hle
    · rcases List.mem_cons.1 hstart with rfl | hstart
      · exact .inr le_rfl
      · exact .inl hstart
    · exact .inr (by omega)

theorem byte (h : Matching s pos opened lastName closes i) (hb : s.byte? i = some b)
    (harg : Byte.isWord b ∨ isFiller b) {lastName' : Option Nat} (hname : ∀ start, pos ≤ start →
      (lastName'.any (start < ·) ↔ ∃ k, start < k ∧ k < i + 1 ∧ s.has Byte.isWord k)) :
    Matching s pos opened lastName' closes (i + 1) where
  le := h.le.trans i.le_succ
  nested := h.nested.trans (.byte hb harg (.nil (i + 1)))
  le_opened := h.le_opened
  name := hname
  closed start hstart hlt hopen :=
    h.closed start hstart (lt_of_lt_succ hlt hopen hb (ne_bracket harg).1) hopen
  unanswered start hstart := h.unanswered start (hstart.imp_right i.le_succ.trans)

theorem word (h : Matching s pos opened lastName closes i) (hb : s.byte? i = some b)
    (hword : Byte.isWord b) : Matching s pos opened (some i) closes (i + 1) := by
  refine h.byte hb (.inl hword) fun start hstart => ?_
  rw [Option.any_some, decide_eq_true_eq]
  constructor
  · intro hlt
    refine ⟨i, hlt, i.lt_succ_self, ?_⟩
    rw [Source.has, hb, Option.any_some, hword]
  · rintro ⟨k, hlt, hk, -⟩
    omega

theorem filler (h : Matching s pos opened lastName closes i) (hb : s.byte? i = some b)
    (hword : ¬ Byte.isWord b) (hfiller : isFiller b) :
    Matching s pos opened lastName closes (i + 1) :=
  h.byte hb (.inr hfiller) fun start hstart =>
    (h.name start hstart).trans (names_succ hb hword).symm

theorem answers_close (h : Matching s pos (start :: opened) lastName closes i)
    (hb : s.byte? i = some Byte.greaterThan) :
    Answers s (if lastName.any (start < ·) then (start, i + 1) :: closes else closes) start := by
  obtain ⟨hopen, hargs, -⟩ := h.nested
  have hname := h.name start (h.le_opened start List.mem_cons_self)
  intro stop
  split
  · rename_i hnamed
    rw [List.lookup_cons_self, Option.some.injEq]
    constructor
    · rintro rfl
      exact ⟨i, hopen, ⟨hargs, hb⟩, rfl, hname.1 hnamed⟩
    · rintro ⟨k, -, hk, rfl, -⟩
      rw [hk.unique ⟨hargs, hb⟩]
  · rename_i hnamed
    rw [h.unanswered start (.inl List.mem_cons_self)]
    refine iff_of_false (Option.some_ne_none stop).symm ?_
    rintro ⟨k, -, hk, -, hword⟩
    obtain rfl := hk.unique ⟨hargs, hb⟩
    exact hnamed (hname.2 hword)

theorem pop (h : Matching s pos (start :: opened) lastName closes i)
    (hb : s.byte? i = some Byte.greaterThan) :
    Matching s pos opened lastName
      (if lastName.any (start < ·) then (start, i + 1) :: closes else closes) (i + 1) := by
  have hanswers := h.answers_close hb
  obtain ⟨hopen, hargs, houter⟩ := h.nested
  have hlookup {q : Nat} (hq : q ≠ start) :
      List.lookup q (if lastName.any (start < ·) then (start, i + 1) :: closes else closes) =
        closes.lookup q := by
    split
    · rw [List.lookup_cons, beq_false_of_ne hq]
    · rfl
  constructor
  case le => exact h.le.trans i.le_succ
  case nested => exact houter.trans (.list hopen hargs hb (.nil (i + 1)))
  case le_opened => exact fun q hq => h.le_opened q (List.mem_cons_of_mem start hq)
  case name =>
    exact fun q hq => (h.name q hq).trans (names_succ hb (by decide)).symm
  case closed =>
    intro q hq hlt hqopen hnot
    by_cases heq : q = start
    · exact heq ▸ hanswers
    · have hlt := lt_of_lt_succ hlt hqopen hb (by decide)
      have hq := h.closed q hq hlt hqopen (by simp [heq, hnot])
      exact fun stop => hlookup heq ▸ hq stop
  case unanswered =>
    intro q hq
    have hstart : start < i := hargs.le
    have hne : q ≠ start := by
      rcases hq with hq | hq
      · exact (houter.lt q hq).ne
      · omega
    rw [hlookup hne]
    exact h.unanswered q (hq.imp (List.mem_cons_of_mem start) i.le_succ.trans)

theorem answers (h : Matching s pos opened lastName closes i) (hnot : ∀ k, ¬ ClosesAt s i k)
    (hstart : pos ≤ start) (hlt : start < i) (hopen : s.byte? start = some Byte.lessThan) :
    Answers s closes start := by
  by_cases hmem : start ∈ opened
  · intro stop
    rw [h.unanswered start (.inl hmem)]
    refine iff_of_false (Option.some_ne_none stop).symm ?_
    rintro ⟨k, -, hk, -⟩
    obtain ⟨l, hl⟩ := h.nested.exists_closesAt hmem hk
    exact hnot l hl
  · exact h.closed start hstart hlt hopen hmem

end Matching

/-- A scan knows of each bracket in its range whether a list of type arguments starts there. -/
theorem answers_matchBrackets (h : Matching s pos opened lastName closes i) (hstart : pos ≤ start)
    (hlt : start < (matchBrackets s opened lastName closes i).1)
    (hopen : s.byte? start = some Byte.lessThan) :
    Answers s (matchBrackets s opened lastName closes i).2 start := by
  fun_induction matchBrackets s opened lastName closes i with
  | case1 _ _ _ _ hi b hb ih => exact ih (h.push (s.byte?_of_getElem hi hb)) hlt
  | case2 => exact h.closed start hstart hlt hopen nofun
  | case3 _ _ i hi b _ hb _ _ _ hempty =>
      have hpop := h.pop (s.byte?_of_getElem hi hb)
      rw [List.isEmpty_iff.1 hempty] at hpop
      exact hpop.closed start hstart hlt hopen nofun
  | case4 _ _ i hi b _ hb _ _ _ _ ih => exact ih (h.pop (s.byte?_of_getElem hi hb)) hlt
  | case5 _ _ _ i hi b _ _ hword ih => exact ih (h.word (s.byte?_of_lt hi) hword) hlt
  | case6 _ _ _ i hi b _ _ hword hfiller ih =>
      exact ih (h.filler (s.byte?_of_lt hi) hword hfiller) hlt
  | case7 opened lastName closes i hi b hless hgreater hword hfiller =>
      refine h.answers (fun k => ClosesAt.not_of_byte fun c hc => ?_) hstart hlt hopen
      rw [s.byte?_of_lt hi, Option.some.injEq] at hc
      subst hc
      exact ⟨hless, hgreater, not_or.2 ⟨hword, hfiller⟩⟩
  | case8 opened lastName closes i hge =>
      refine h.answers (fun k => ClosesAt.not_of_byte fun c hc => ?_) hstart hlt hopen
      exact absurd (s.lt_size_of_byte? hc) hge

theorem le_matchBrackets (s : Source) (opened : List Nat) (lastName : Option Nat)
    (closes : List (Nat × Nat)) (i : Nat) : i ≤ (matchBrackets s opened lastName closes i).1 := by
  fun_induction matchBrackets s opened lastName closes i with
  | case1 _ _ _ _ _ _ _ ih => omega
  | case2 | case7 | case8 => exact le_rfl
  | case3 => omega
  | case4 _ _ _ _ _ _ _ _ _ _ _ ih => omega
  | case5 _ _ _ _ _ _ _ _ _ ih => omega
  | case6 _ _ _ _ _ _ _ _ _ _ ih => omega

def Sound (s : Source) (g : GenericScan) : Prop :=
  ∀ pos, g.covers pos → s.byte? pos = some Byte.lessThan → Answers s g.closes pos

theorem sound_startingAt (s : Source) (pos : Nat) : (startingAt s pos).Sound s := by
  intro start hcovers hopen
  obtain ⟨hle, hlt⟩ := Bool.and_eq_true_iff.1 hcovers
  refine answers_matchBrackets (matching_start s pos) (of_decide_eq_true hle) ?_ hopen
  rcases lt_max_iff.1 (of_decide_eq_true hlt) with hlt | hlt
  · exact hlt
  · obtain rfl : start = pos := le_antisymm (Nat.le_of_lt_succ hlt) (of_decide_eq_true hle)
    obtain ⟨hsize, hbyte⟩ := getElem?_eq_some_iff.1 hopen
    have hpush :
        matchBrackets s [] none [] start = matchBrackets s [start] none [] (start + 1) := by
      rw [matchBrackets]
      exact (dif_pos hsize).trans (if_pos hbyte)
    rw [hpush]
    exact le_matchBrackets s [start] none [] (start + 1)

theorem covers_startingAt (s : Source) (pos : Nat) : (startingAt s pos).covers pos := by
  simp [covers, startingAt]

theorem close?_startingAt (hpos : s.byte? pos = some Byte.lessThan) {stop : Nat} :
    (startingAt s pos).close? pos = some stop ↔ IsNamedList s pos stop :=
  sound_startingAt s pos pos (covers_startingAt s pos) hpos stop

theorem Sound.covering {g : GenericScan} (h : g.Sound s) (pos : Nat) :
    (g.covering s pos).Sound s := by
  unfold GenericScan.covering
  split
  · exact h
  · exact sound_startingAt s pos

theorem Sound.close?_covering {g : GenericScan} (h : g.Sound s)
    (hpos : s.byte? pos = some Byte.lessThan) :
    (g.covering s pos).close? pos = (startingAt s pos).close? pos := by
  unfold GenericScan.covering
  split
  · rename_i hcovers
    exact Option.ext fun stop => (h pos hcovers hpos stop).trans (close?_startingAt hpos).symm
  · rfl

/-- The ends that are found when a lexer asks about positions one after another. -/
def ends (g : GenericScan) (s : Source) : List Nat → List (Option Nat)
  | [] => []
  | pos :: rest => (g.covering s pos).close? pos :: (g.covering s pos).ends s rest

theorem Sound.ends_eq {g : GenericScan} (h : g.Sound s) {positions : List Nat}
    (hpositions : ∀ pos ∈ positions, s.byte? pos = some Byte.lessThan) :
    g.ends s positions = positions.map fun pos => (startingAt s pos).close? pos := by
  induction positions generalizing g with
  | nil => rfl
  | cons pos positions ih =>
      obtain ⟨hpos, hpositions⟩ := List.forall_mem_cons.1 hpositions
      rw [ends, List.map_cons, h.close?_covering hpos, ih (h.covering pos) hpositions]

/-- Whatever a lexer has asked before, it finds the end of a list of type arguments that names a
type just where one starts. -/
theorem ends_initial (s : Source) (positions : List Nat)
    (h : ∀ pos ∈ positions, s.byte? pos = some Byte.lessThan) :
    Lexer.initial.generics.ends s positions =
        positions.map (fun pos => (startingAt s pos).close? pos) ∧
      ∀ pos ∈ positions, ∀ stop,
        (startingAt s pos).close? pos = some stop ↔ IsNamedList s pos stop := by
  have hinitial : Lexer.initial.generics.Sound s := fun pos hcovers =>
    absurd (of_decide_eq_true (Bool.and_eq_true_iff.1 hcovers).2) (Nat.not_lt_zero pos)
  exact ⟨hinitial.ends_eq h, fun pos hpos stop => close?_startingAt (h pos hpos)⟩

/-- Lists within a list, one without a name, and lists within one that is broken off. -/
theorem ends_initial_nested :
    let s := Source.ofString "<A<>,<B>>-<C<D>-"
    let positions := [0, 2, 5, 10, 12, 0]
    (∀ pos ∈ positions, s.byte? pos = some Byte.lessThan) ∧
      (Lexer.initial.generics.ends s positions =
          positions.map (fun pos => (startingAt s pos).close? pos) ∧
        ∀ pos ∈ positions, ∀ stop,
          (startingAt s pos).close? pos = some stop ↔ IsNamedList s pos stop) ∧
      Lexer.initial.generics.ends s positions =
        [some 9, none, some 8, none, some 15, some 9] := by
  refine ⟨?_, ends_initial _ _ ?_, ?_⟩
  · decide
  · decide
  · decide +kernel

end GenericScan

end BladeTree
