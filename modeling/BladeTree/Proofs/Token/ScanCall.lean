import BladeTree.Proofs.Text.Scan
import BladeTree.Proofs.Token.Arguments

namespace BladeTree

/-- A question to a scanner. -/
inductive ScanCall where
  | string (quote : UInt8) (pos : Nat)
  | comment (flavor : CodeFlavor) (stopAt : Option (List UInt8)) (pos : Nat)
  | parens (flavor : CodeFlavor) (pos : Nat)
  | outsideCode (flavor : CodeFlavor) (terminator : List UInt8) (pos : Nat)
  | arguments (start stop : Nat)

/-- What may be asked about a source. A string begins at a quote, of which scripts have every kind,
and a group of parentheses at an opening one. -/
def ScanCall.IsFor (s : Source) : ScanCall → Prop
  | string quote pos => CodeFlavor.script.isQuote quote ∧ s.byte? pos = some quote
  | parens _ pos => s.byte? pos = some Byte.openParen
  | arguments start stop => start ≤ stop ∧ stop ≤ s.size
  | comment .. | outsideCode .. => True

instance (s : Source) (c : ScanCall) : Decidable (c.IsFor s) := by
  cases c <;> unfold ScanCall.IsFor <;> infer_instance

inductive ScanAnswer where
  | stop (pos : Option Nat)
  | group (pos : Nat) (closed : Bool)
  | count (arguments : Nat)
  deriving DecidableEq, Repr

def ScanAnswer.pos? : ScanAnswer → Option Nat
  | stop pos => pos
  | group pos _ => some pos
  | count _ => none

namespace Source

variable (s : Source) {m m' : ScanMemo} {flavor : CodeFlavor} {quote : UInt8} {stop i j : Nat}

def ask (m : ScanMemo) : ScanCall → ScanAnswer × ScanMemo
  | .string quote pos => (s.skipString m quote pos).map .stop id
  | .comment flavor stopAt pos => (s.skipComment m flavor stopAt pos).map .stop id
  | .parens flavor pos =>
    (s.balancedParens m flavor 0 pos).map (fun (pos, closed) => .group pos closed) id
  | .outsideCode flavor terminator pos => (s.findOutsideCode m flavor terminator pos).map .stop id
  | .arguments start stop => (s.countArguments m start stop).map .count id

/-- The answers of one scanner to calls one after another. -/
def answers (m : ScanMemo) : List ScanCall → List ScanAnswer
  | [] => []
  | c :: cs => (s.ask m c).1 :: answers (s.ask m c).2 cs

theorem countCommas_of_sound (h : m.Sound s) (h' : m'.Sound s) (depth commas : Nat)
    (content : Bool) (i : Nat) :
    (s.countCommas m stop depth commas content i).1 =
        (s.countCommas m' stop depth commas content i).1 ∧
      (s.countCommas m stop depth commas content i).2.Sound s := by
  induction hn : stop - i using Nat.strong_induction_on
    generalizing m m' depth commas content i with
  | _ n ih =>
      have hrest {m m' : ScanMemo} (h : m.Sound s) (h' : m'.Sound s) (depth commas : Nat)
          (content : Bool) {j : Nat} (hj : stop - j < n) := ih _ hj h h' depth commas content j rfl
      by_cases hi : i < min stop s.size
      · obtain ⟨hstop, hsize⟩ := Nat.lt_min.1 hi
        have hb : s.byte? i = some s.bytes[i] := getElem?_pos s.bytes i hsize
        have hone : stop - (i + 1) < n := by omega
        rw [s.countCommas_of_byte depth commas content hb hstop,
          s.countCommas_of_byte depth commas content hb hstop]
        split
        · exact hrest h h' _ _ _ hone
        split
        · exact hrest h h' _ _ _ hone
        split
        · exact hrest h h' _ _ _ hone
        split
        · rename_i hquote
          obtain ⟨hskip, hsound⟩ := s.skipString_of_sound h (isQuote_php_iff.2 hquote) hb
          obtain ⟨hskip', hsound'⟩ := s.skipString_of_sound h' (isQuote_php_iff.2 hquote) hb
          rw [hskip, hskip']
          refine hrest hsound hsound' _ _ _ ?_
          cases hclose : s.closeString s.bytes[i] (i + 1) with
          | none => exact hone
          | some e =>
              have hlt := s.lt_closeString hclose
              rw [Option.elim_some]
              omega
        · exact hrest h h' _ _ _ hone
      · rw [countCommas, dif_neg hi, countCommas, dif_neg hi]
        exact ⟨rfl, h⟩

theorem closeString_le_size (h : s.closeString quote i = some j) : j ≤ s.size := by
  fun_induction closeString s quote i with
  | case1 _ _ _ _ ih => exact ih h
  | case2 => cases h; omega
  | case3 _ _ _ _ _ ih => exact ih h
  | case4 => cases h

theorem lineCommentEnd_le_size (stopAt : Option (List UInt8)) (i : Nat) :
    s.lineCommentEnd stopAt i ≤ s.size := by
  fun_induction lineCommentEnd s stopAt i with
  | case1 => omega
  | case2 _ _ _ ih => exact ih
  | case3 => exact le_rfl

theorem skipString_le_size (h : (s.skipString m quote i).1 = some j) : j ≤ s.size := by
  unfold skipString at h
  split at h
  · cases h
  split at h
  · rename_i hclose
    cases h
    exact s.closeString_le_size hclose
  · cases h

theorem skipComment_le_size {stopAt : Option (List UInt8)}
    (h : (s.skipComment m flavor stopAt i).1 = some j) : j ≤ s.size := by
  unfold skipComment at h
  split at h
  · split at h
    · cases h
    split at h
    · rename_i hfind
      cases h
      have hclose := s.startsWith_of_find hfind
      exact s.le_size_of_isBoundary (s.isBoundary_after (by decide) hclose rfl)
    · cases h
  split at h
  · cases h
    exact s.lineCommentEnd_le_size stopAt (i + 1)
  · cases h

theorem findOutsideCode_lt_size {terminator : List UInt8}
    (h : (s.findOutsideCode m flavor terminator i).1 = some j) : j < s.size := by
  fun_induction findOutsideCode s m flavor terminator i with
  | case1 => cases h; omega
  | case2 _ _ _ _ _ _ ih => exact ih h
  | case3 => cases h

theorem ask_le_size (m : ScanMemo) (c : ScanCall) (h : (s.ask m c).1.pos? = some j) :
    j ≤ s.size := by
  cases c with
  | string quote pos => exact s.skipString_le_size h
  | comment flavor stopAt pos => exact s.skipComment_le_size h
  | parens flavor pos =>
      cases h
      exact s.le_size_of_isBoundary (s.isBoundary_balancedParens m flavor 0 pos)
  | outsideCode flavor terminator pos => exact (s.findOutsideCode_lt_size h).le
  | arguments start stop => cases h

/-- The states of the scan for the end of a group of parentheses at `start`: how many of them are
open, what is remembered and the offset. -/
inductive ScansGroup (m : ScanMemo) (flavor : CodeFlavor) (start : Nat) :
    Nat → ScanMemo → Nat → Prop
  | start : ScansGroup m flavor start 0 m start
  | opening (depth : Nat) (m' : ScanMemo) (i : Nat) : ScansGroup m flavor start depth m' i →
      s.byte? i = some Byte.openParen → ScansGroup m flavor start (depth + 1) m' (i + 1)
  | closing (depth : Nat) (m' : ScanMemo) (i : Nat) : ScansGroup m flavor start depth m' i →
      s.byte? i = some Byte.closeParen → 1 < depth →
      ScansGroup m flavor start (depth - 1) m' (i + 1)
  | unit (depth : Nat) (m' : ScanMemo) (i : Nat) (b : UInt8) :
      ScansGroup m flavor start depth m' i → s.byte? i = some b → b ≠ Byte.openParen →
      b ≠ Byte.closeParen →
      ScansGroup m flavor start depth (s.skipUnit m' flavor none b i).2
        (s.skipUnit m' flavor none b i).1

variable {s} {start depth : Nat}

theorem ScansGroup.balancedParens_eq (h : s.ScansGroup m flavor start depth m' i) :
    s.balancedParens m flavor 0 start = s.balancedParens m' flavor depth i := by
  induction h with
  | start => rfl
  | opening depth m' i _ hb ih => rw [ih, s.balancedParens_of_byte _ _ _ hb, if_pos rfl]
  | closing depth m' i _ hb hdepth ih =>
      rw [ih, s.balancedParens_of_byte _ _ _ hb, if_neg (by decide), if_pos rfl,
        if_neg (Nat.not_le_of_lt hdepth)]
  | unit depth m' i b _ hb hopen hclose ih =>
      rw [ih, s.balancedParens_of_byte _ _ _ hb, if_neg hopen, if_neg hclose]

theorem ScansGroup.eq_start_or_pos (h : s.ScansGroup m flavor start depth m' i)
    (hstart : s.byte? start = some Byte.openParen) : i = start ∨ 0 < depth := by
  induction h with
  | start => exact .inl rfl
  | opening => exact .inr (Nat.succ_pos _)
  | closing depth m' i _ _ hdepth => exact .inr (Nat.sub_pos_of_lt hdepth)
  | unit depth m' i b _ hb hopen _ ih =>
      refine .inr (ih.resolve_left ?_)
      rintro rfl
      exact hopen (Option.some.inj (hb.symm.trans hstart))

/-- Where a group begins with a parenthesis, none is closed while none is open. -/
theorem ScansGroup.pos_of_closes (h : s.ScansGroup m flavor start depth m' i)
    (hstart : s.byte? start = some Byte.openParen) (hclose : s.byte? i = some Byte.closeParen) :
    0 < depth := by
  refine (h.eq_start_or_pos hstart).resolve_left ?_
  rintro rfl
  cases hclose.symm.trans hstart

variable (s)

/-- What is scanned does not depend on what is remembered, as long as that is so, and what is
remembered after it is so too. -/
def Transparent {α : Type} (scan : ScanMemo → α × ScanMemo) : Prop :=
  ∀ m m', m.Sound s → m'.Sound s → (scan m).1 = (scan m').1 ∧ (scan m).2.Sound s

theorem Transparent.map {s : Source} {α β : Type} {scan : ScanMemo → α × ScanMemo}
    (h : s.Transparent scan) (f : α → β) : s.Transparent fun m => (scan m).map f id := by
  intro m m' hm hm'
  obtain ⟨heq, hsound⟩ := h m m' hm hm'
  exact ⟨congrArg f heq, hsound⟩

theorem transparent_ask {c : ScanCall} (hc : c.IsFor s) : s.Transparent (s.ask · c) := by
  cases c with
  | string quote pos =>
      have hstring : s.Transparent (s.skipString · quote pos) := by
        intro m m' h h'
        obtain ⟨hstop, hsound⟩ := s.skipString_of_sound h hc.1 hc.2
        obtain ⟨hstop', -⟩ := s.skipString_of_sound h' hc.1 hc.2
        exact ⟨hstop.trans hstop'.symm, hsound⟩
      exact hstring.map ScanAnswer.stop
  | comment flavor stopAt pos =>
      have hcomment : s.Transparent (s.skipComment · flavor stopAt pos) :=
        fun _ _ => s.skipComment_of_sound
      exact hcomment.map ScanAnswer.stop
  | parens flavor pos =>
      have hparens : s.Transparent (s.balancedParens · flavor 0 pos) :=
        fun _ _ h h' => s.balancedParens_of_sound h h' 0 pos
      exact hparens.map fun (pos, closed) => ScanAnswer.group pos closed
  | outsideCode flavor terminator pos =>
      have hfind : s.Transparent (s.findOutsideCode · flavor terminator pos) :=
        fun _ _ h h' => s.findOutsideCode_of_sound h h' terminator pos
      exact hfind.map ScanAnswer.stop
  | arguments start stop =>
      have hcount : s.Transparent (s.countCommas · stop 0 0 false start) :=
        fun _ _ h h' => s.countCommas_of_sound h h' 0 0 false start
      exact hcount.map fun (commas, content) =>
        ScanAnswer.count (if content then commas + 1 else 0)

theorem answers_of_sound (h : m.Sound s) (h' : m'.Sound s) {calls : List ScanCall}
    (hcalls : ∀ c ∈ calls, c.IsFor s) :
    s.answers m calls = calls.map fun c => (s.ask m' c).1 := by
  induction calls generalizing m with
  | nil => rfl
  | cons c calls ih =>
      obtain ⟨hc, hcalls⟩ := List.forall_mem_cons.1 hcalls
      obtain ⟨hanswer, hsound⟩ := s.transparent_ask hc m m' h h'
      rw [answers, List.map_cons, hanswer, ih hsound hcalls]

/-- A scanner answers each call as one that was never asked before, and gives no position outside
of the source. -/
theorem answers_empty (calls : List ScanCall) (h : ∀ c ∈ calls, c.IsFor s) :
    s.answers .empty calls = calls.map (fun c => (s.ask .empty c).1) ∧
      ∀ a ∈ s.answers .empty calls, ∀ pos, a.pos? = some pos → pos ≤ s.size := by
  have hempty := ScanMemo.sound_empty s
  have hanswers := s.answers_of_sound hempty hempty h
  refine ⟨hanswers, fun a ha pos hpos => ?_⟩
  rw [hanswers] at ha
  obtain ⟨c, -, rfl⟩ := List.mem_map.1 ha
  exact s.ask_le_size .empty c hpos

/-- Strings and a comment that are never closed are asked about from the last to the first. -/
theorem answers_empty_unclosed :
    let s := ofString "('a', \"b) /* 'c"
    let calls := [.string Byte.singleQuote 13, .string Byte.singleQuote 1, .comment .php none 10,
      .string Byte.doubleQuote 6, .parens .php 0, .outsideCode .script (ascii "c") 6,
      .arguments 0 9]
    (∀ c ∈ calls, ScanCall.IsFor s c) ∧
      (s.answers .empty calls = calls.map (fun c => (s.ask .empty c).1) ∧
        ∀ a ∈ s.answers .empty calls, ∀ pos, a.pos? = some pos → pos ≤ s.size) ∧
      s.answers .empty calls = [.stop none, .stop (some 4), .stop none, .stop none, .group 9 true,
        .stop (some 14), .count 2] := by
  refine ⟨?_, answers_empty _ _ ?_, ?_⟩
  · decide
  · decide
  · decide +kernel

end Source
end BladeTree
