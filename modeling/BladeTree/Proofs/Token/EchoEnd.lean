import BladeTree.Proofs.Text.Scan
import BladeTree.Proofs.Token.Memo

namespace BladeTree
namespace Source

variable (s : Source) (f : EchoFlavor) {i start : Nat}

/-- In `start … stop` no echo opens and the closing delimiter of the flavor does not begin. -/
def BareEcho (start stop : Nat) : Prop :=
  ∀ i, start ≤ i → i < stop → ¬ s.startsWith i (ascii f.closing) ∧ ¬ s.opensEcho i

/-- What an opener that ends at `start` opens is an echo: its closing delimiter comes before any
opener, or neither of them comes. -/
def HoldsEcho (start : Nat) : Prop :=
  (∃ stop, start ≤ stop ∧ s.startsWith stop (ascii f.closing) ∧
    ∀ i, start ≤ i → s.opensEcho i → stop < i) ∨
  ∀ i, start ≤ i → ¬ s.startsWith i (ascii f.closing) ∧ ¬ s.opensEcho i

end Source

/-- What a search from `start` on that ends like this has seen. -/
def EchoEnd.Fits (s : Source) (f : EchoFlavor) (start : Nat) : EchoEnd → Prop
  | .closed stop => start ≤ stop ∧ s.startsWith stop (ascii f.closing) ∧ s.BareEcho f start stop
  | .degraded => ∃ i, start ≤ i ∧ s.opensEcho i ∧
      ∀ j, start ≤ j → j ≤ i → ¬ s.startsWith j (ascii f.closing)
  | .unterminated => ∀ i, start ≤ i → ¬ s.startsWith i (ascii f.closing) ∧ ¬ s.opensEcho i

namespace EchoEnd

variable {s : Source} {f : EchoFlavor} {i : Nat} {e : EchoEnd}

theorem Fits.pass (h : e.Fits s f (i + 1)) (hclose : ¬ s.startsWith i (ascii f.closing))
    (hopen : ¬ s.opensEcho i) : e.Fits s f i := by
  cases e with
  | closed stop =>
      obtain ⟨hle, hstop, hbare⟩ := h
      refine ⟨by omega, hstop, fun j hj hlt => ?_⟩
      rcases Nat.eq_or_lt_of_le hj with rfl | hj
      · exact ⟨hclose, hopen⟩
      · exact hbare j hj hlt
  | degraded =>
      obtain ⟨k, hk, hopens, hbefore⟩ := h
      refine ⟨k, by omega, hopens, fun j hj hle => ?_⟩
      rcases Nat.eq_or_lt_of_le hj with rfl | hj
      · exact hclose
      · exact hbefore j hj hle
  | unterminated =>
      intro j hj
      rcases Nat.eq_or_lt_of_le hj with rfl | hj
      · exact ⟨hclose, hopen⟩
      · exact h j hj

end EchoEnd

namespace Source

variable (s : Source) (f : EchoFlavor) {i start : Nat}

theorem opensEcho_iff :
    s.opensEcho i ↔ s.startsWith i (ascii "\x7b\x7b") ∨ s.startsWith i (ascii "\x7b!!") := by
  simp only [opensEcho, Bool.or_eq_true]

theorem byte?_of_opensEcho (h : s.opensEcho i) : s.byte? i = some Byte.openBrace := by
  rcases s.opensEcho_iff.1 h with h | h
  · exact s.byte?_of_startsWith h (k := 0) (by decide)
  · exact s.byte?_of_startsWith h (k := 0) (by decide)

theorem not_opensEcho_of_closing (h : s.startsWith i (ascii f.closing)) : ¬ s.opensEcho i := by
  intro hopen
  have hbrace : s.byte? i = some Byte.openBrace := s.byte?_of_opensEcho hopen
  have hne : (ascii f.closing)[0]? ≠ some Byte.openBrace := by
    cases f <;> decide
  obtain ⟨b, hb⟩ : ∃ b, (ascii f.closing)[0]? = some b := by
    cases f <;> exact ⟨_, rfl⟩
  have hbyte : s.byte? i = some b := s.byte?_of_startsWith h (k := 0) hb
  exact hne (hb.trans (hbyte.symm.trans hbrace))

theorem not_delimiter_of_size_le (h : s.size ≤ i) :
    ¬ s.startsWith i (ascii f.closing) ∧ ¬ s.opensEcho i := by
  constructor
  · rw [s.startsWith_eq_false (by cases f <;> decide) h]
    exact Bool.false_ne_true
  · intro hopen
    have := s.lt_size_of_byte? (s.byte?_of_opensEcho hopen)
    omega

theorem fits_findEchoEnd (start : Nat) : (s.findEchoEnd f start).Fits s f start := by
  fun_induction findEchoEnd s f start with
  | case1 i _ hclose => exact ⟨le_rfl, hclose, fun j hj hlt => by omega⟩
  | case2 i _ hclose hopen =>
      refine ⟨i, le_rfl, hopen, fun j hj hle => ?_⟩
      obtain rfl : j = i := by omega
      exact hclose
  | case3 i _ hclose hopen ih => exact ih.pass hclose hopen
  | case4 i hge =>
      intro j hj
      exact s.not_delimiter_of_size_le f (by omega)

theorem findEchoEnd_eq_closed {stop : Nat} (hle : start ≤ stop)
    (hclose : s.startsWith stop (ascii f.closing)) (hbare : s.BareEcho f start stop) :
    s.findEchoEnd f start = .closed stop := by
  have hfits : (s.findEchoEnd f start).Fits s f start := s.fits_findEchoEnd f start
  cases hend : s.findEchoEnd f start with rw [hend] at hfits
  | closed found =>
      obtain ⟨hstart, hfound, hbefore⟩ := hfits
      rcases lt_trichotomy found stop with hlt | rfl | hlt
      · exact absurd hfound (hbare found hstart hlt).1
      · rfl
      · exact absurd hclose (hbefore stop hle hlt).1
  | degraded =>
      obtain ⟨i, hi, hopen, hbefore⟩ := hfits
      have hstop : stop ≤ i := by
        by_contra hlt
        exact (hbare i hi (Nat.lt_of_not_le hlt)).2 hopen
      exact absurd hclose (hbefore stop hle hstop)
  | unterminated => exact absurd hclose (hfits stop hle).1

/-- The search tells whether there is an echo. -/
theorem holdsEcho_iff : s.HoldsEcho f start ↔ s.findEchoEnd f start ≠ .degraded := by
  have hfits : (s.findEchoEnd f start).Fits s f start := s.fits_findEchoEnd f start
  cases hend : s.findEchoEnd f start with rw [hend] at hfits
  | closed stop =>
      obtain ⟨hle, hstop, hbare⟩ := hfits
      refine ⟨fun _ => nofun, fun _ => .inl ⟨stop, hle, hstop, fun i hi hopen => ?_⟩⟩
      by_contra hlt
      rcases Nat.eq_or_lt_of_le (Nat.le_of_not_lt hlt) with rfl | hlt
      · exact s.not_opensEcho_of_closing f hstop hopen
      · exact (hbare i hi hlt).2 hopen
  | degraded =>
      obtain ⟨i, hi, hopen, hbefore⟩ := hfits
      refine ⟨fun hholds => ?_, fun hne => absurd rfl hne⟩
      rcases hholds with ⟨stop, hle, hstop, hfirst⟩ | hnone
      · exact absurd hstop (hbefore stop hle (hfirst i hi hopen).le)
      · exact absurd hopen (hnone i hi).2
  | unterminated => exact ⟨fun _ => nofun, fun _ => .inr hfits⟩

end Source
end BladeTree
