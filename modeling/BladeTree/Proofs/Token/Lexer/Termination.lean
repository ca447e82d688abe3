import BladeTree.Proofs.Token.Lexer.Reachable

namespace BladeTree

theorem Mode.patience_le (mode : Mode) : mode.patience ≤ 3 := by
  unfold patience
  split <;> decide

namespace Lexer

variable {o : ParseOptions} {s : Source} {l l' l'' : Lexer} {n : Nat}

/-- `n` steps of the loop in a row. -/
inductive StepsIn (o : ParseOptions) (s : Source) (l : Lexer) : Nat → Lexer → Prop
  | refl : StepsIn o s l 0 l
  | tail (n : Nat) (l' l'' : Lexer) : StepsIn o s l n l' → Steps o s l' l'' →
      StepsIn o s l (n + 1) l''

theorem StepsIn.head (h : Steps o s l l') (hsteps : StepsIn o s l' n l'') :
    StepsIn o s l (n + 1) l'' := by
  induction hsteps with
  | refl => exact .tail 0 l l' .refl h
  | tail n l₁ l₂ _ hlast ih => exact .tail (n + 1) l₁ l₂ ih hlast

/-- How far the loop has come. A byte counts for more than the patience of any mode. -/
def progress (l : Lexer) : Nat := 4 * l.pos + (3 - l.mode.patience)

theorem Reachable.progress_lt (h : Reachable o s l) (hstep : Steps o s l l') :
    l.progress < l'.progress := by
  obtain ⟨b, hb, hstep⟩ := hstep
  have hle : l.pos ≤ l'.pos := (h.covered.step hb hstep).2
  have hpatience : l.mode.patience ≤ 3 := l.mode.patience_le
  unfold progress
  rcases progresses_step h.covered.ready hb hstep with hpos | hmode
  · omega
  · omega

theorem Reachable.stepsIn (h : Reachable o s l) (hsteps : StepsIn o s l n l') :
    Reachable o s l' ∧ l.progress + n ≤ l'.progress := by
  induction hsteps with
  | refl => exact ⟨h, le_rfl⟩
  | tail n l₁ l₂ _ hlast ih =>
      obtain ⟨hreach, hle⟩ := ih
      have hlt : l₁.progress < l₂.progress := hreach.progress_lt hlast
      exact ⟨.step l₁ l₂ hreach hlast, by omega⟩

/-- The loop ends wherever it has come to: at the end of the source, or at an extension. -/
theorem Reachable.exists_end (h : Reachable o s l) : ∃ n l', StepsIn o s l n l' ∧
    (l'.pos = s.size ∨ ∃ b f, s.byte? l'.pos = some b ∧ l'.step o s b = .error f) := by
  induction hn : 4 * s.size + 4 - l.progress using Nat.strong_induction_on generalizing l with
  | _ n ih =>
      have hinside : l.pos ≤ s.size := h.covered.ready.inside
      rcases Nat.eq_or_lt_of_le hinside with hpos | hpos
      · exact ⟨0, l, .refl, .inl hpos⟩
      · cases hnext : l.step o s s.bytes[l.pos] with
        | error f => exact ⟨0, l, .refl, .inr ⟨_, f, s.byte?_of_lt hpos, hnext⟩⟩
        | ok next =>
            have hstep : Steps o s l next := ⟨_, s.byte?_of_lt hpos, hnext⟩
            have hlt : l.progress < next.progress := h.progress_lt hstep
            have hbound : l.progress ≤ 4 * s.size + 3 := by
              unfold progress
              omega
            obtain ⟨m, l', hsteps, hend⟩ := ih _ (by omega) (.step _ _ h hstep) rfl
            exact ⟨m + 1, l', hsteps.head hstep, hend⟩

theorem Reachable.idle_le (h : Reachable o s l) (hsteps : StepsIn o s l n l')
    (hpos : l'.pos = l.pos) : n ≤ 3 := by
  have hle : l.progress + n ≤ l'.progress := (h.stepsIn hsteps).2
  unfold progress at hle
  omega

/-- Reading breaks down just where an extension that is asked emits a length that overflows. -/
theorem lex_eq_error_iff {f : Fault} : lex o s = .error f ↔
    ∃ l b x, Reachable o s l ∧ s.byte? l.pos = some b ∧ l.Asks o s b x ∧
      x.claim? (l.offer o s) = .error f := by
  constructor
  · intro h
    obtain ⟨n, l, hsteps, hend⟩ := Reachable.initial (o := o) (s := s).exists_end
    have hl : Reachable o s l := (Reachable.initial.stepsIn hsteps).1
    rcases hend with hpos | ⟨b, f', hb, hf⟩
    · cases (hl.lex_eq hpos).symm.trans h
    · cases (hl.lex_eq_error hb hf).symm.trans h
      obtain ⟨x, hasks, hx⟩ := (claim?_eq_iff (by nofun)).1 (step_eq_error_iff.1 hf)
      exact ⟨l, b, x, hl, hb, hasks, hx⟩
  · rintro ⟨l, b, x, hl, hb, hasks, hx⟩
    exact hl.lex_eq_error hb (step_eq_error_iff.2 ((claim?_eq_iff (by nofun)).2 ⟨x, hasks, hx⟩))

/-- The loop takes at most four steps for each byte, of which no more than three in a row stay at
one offset, so that it is never stuck. It comes to the end of the source, unless an extension that
is asked emits a length that overflows. -/
theorem lex_ends (o : ParseOptions) (s : Source) :
    (∃ n l, StepsIn o s initial n l ∧ n ≤ 4 * s.size ∧
      (l.pos = s.size ∧ lex o s = .ok ⟨l.flushText.tokens, l.flushText.errors⟩ ∨
        ∃ b x offset, s.byte? l.pos = some b ∧ l.Asks o s b x ∧
          x.claim? (l.offer o s) = .error (.offsetOverflow offset) ∧
          lex o s = .error (.offsetOverflow offset))) ∧
    ∀ l n l', Reachable o s l → StepsIn o s l n l' → l'.pos = l.pos → n ≤ 3 := by
  refine ⟨?_, fun l n l' hl hsteps hpos => hl.idle_le hsteps hpos⟩
  obtain ⟨n, l, hsteps, hend⟩ := Reachable.initial (o := o) (s := s).exists_end
  obtain ⟨hl, hle⟩ := Reachable.initial.stepsIn hsteps
  have hinitial : initial.progress = 3 := rfl
  have hinside : l.pos ≤ s.size := hl.covered.ready.inside
  have hprogress : l.progress ≤ 4 * s.size + 3 := by
    unfold progress
    omega
  refine ⟨n, l, hsteps, by omega, ?_⟩
  rcases hend with hpos | ⟨b, f, hb, hf⟩
  · exact .inl ⟨hpos, hl.lex_eq hpos⟩
  · obtain ⟨x, hasks, hx⟩ := (claim?_eq_iff (by nofun)).1 (step_eq_error_iff.1 hf)
    obtain ⟨offset, rfl⟩ := x.exists_offset_of_claim? hx
    exact .inr ⟨b, x, offset, hb, hasks, hx, hl.lex_eq_error hb hf⟩

end Lexer
end BladeTree
