import BladeTree.Proofs.Token.Lexer.Progress

namespace BladeTree

/-- The tokens of a source as they come from the lexer. -/
structure Lexed.Sound (o : ParseOptions) (s : Source) (lexed : Lexed) : Prop where
  tiles : Tiles 0 lexed.tokens.toList s.size
  solid : o.lexerExtensions = [] → ∀ t ∈ lexed.tokens, t.start < t.stop
  spelled : o.lexerExtensions = [] → ∀ t ∈ lexed.tokens, t.Spelled s
  named : o.lexerExtensions = [] → SlashesNamed lexed.tokens.toList
  whole : (∀ x ∈ o.lexerExtensions, x.OnBoundaries s) → ∀ t ∈ lexed.tokens, t.OnBoundaries s

namespace Lexer

variable {o : ParseOptions} {s : Source} {l : Lexer}

theorem patience_le_idleLimit (mode : Mode) : mode.patience ≤ idleLimit := by
  unfold Mode.patience
  split <;> decide

theorem Covered.step {b : UInt8} {l' : Lexer} (h : Covered o s l) (hb : s.byte? l.pos = some b)
    (hstep : l.step o s b = .ok l') : Covered o s l' ∧ l.pos ≤ l'.pos :=
  have hm := moves_step h.ready hb hstep
  ⟨h.moves hm, (h.ready.moves hm).2⟩

/-- What every step keeps holds where the run stops: at the end of the source, or where an extension
cannot be answered. -/
theorem Ready.run {P : Lexer → Prop} (hr : Ready s l) (h : P l)
    (hstep : ∀ l l' b, Ready s l → P l → s.byte? l.pos = some b → l.step o s b = .ok l' → P l')
    {idle : Nat} (hidle : l.mode.patience ≤ idle) : ∃ l', Ready s l' ∧ P l' ∧
      (l'.pos = s.size ∧ l.run o s idle = .ok l'.flushText ∨
        ∃ b f, s.byte? l'.pos = some b ∧ l'.step o s b = .error f ∧
          l.run o s idle = .error f) := by
  fun_induction Lexer.run o s idle l with
  | case1 idle l hlt f hf => exact ⟨l, hr, h, .inr ⟨_, f, s.byte?_of_lt hlt, hf, rfl⟩⟩
  | case2 idle l hlt next hnext hp ih =>
      have hb := s.byte?_of_lt hlt
      exact ih (hr.moves (moves_step hr hb hnext)).1 (hstep l _ _ hr h hb hnext)
        (patience_le_idleLimit _)
  | case3 idle l hlt next hnext hp he ih =>
      have hb := s.byte?_of_lt hlt
      have hpatience := (progresses_step hr hb hnext).resolve_left hp
      exact ih (hr.moves (moves_step hr hb hnext)).1 (hstep l _ _ hr h hb hnext) (by omega)
  | case4 idle l hlt next hnext hp he =>
      have hb := s.byte?_of_lt hlt
      have hle : l.pos ≤ next.pos := (hr.moves (moves_step hr hb hnext)).2
      have hpatience := (progresses_step hr hb hnext).resolve_left hp
      exact absurd ⟨by omega, by omega⟩ he
  | case5 idle l hge =>
      exact ⟨l, hr, h, .inl ⟨le_antisymm hr.inside (Nat.le_of_not_lt hge), rfl⟩⟩

theorem Covered.flushText (h : Covered o s l) (hpos : l.pos = s.size) :
    Lexed.Sound o s ⟨l.flushText.tokens, l.flushText.errors⟩ := by
  have hcut : s.isBoundary l.pos := hpos ▸ s.isBoundary_size
  have hf : l.flushText.front = l.pos := by rw [flushText_eq]; rfl
  have hp : l.flushText.pos = l.pos := by rw [flushText_eq]
  have hflush : Adds o s l l.flushText (l.pendingText ++ []) := by
    refine adds_tokens [] h.adds.behind ?_ (hf.trans hp.symm) hp.symm (fun _ => nofun)
      (fun _ => nofun) (fun _ => nofun) fun _ => ⟨hcut, by rwa [hp], nofun⟩
    rw [flushText_eq, List.append_nil]
  have hall := h.adds.trans hflush
  have htokens : l.flushText.tokens.toList = l.tokens.toList ++ (l.pendingText ++ []) := by
    rw [hflush.tokens]
    simp
  rw [← htokens] at hall
  refine ⟨?_, fun ho t ht => hall.solid ho t ht.val, fun ho t ht => hall.spelled ho t ht.val,
    hall.named, fun ho t ht => ?_⟩
  · have := hall.tiles
    rwa [hf, hpos] at this
  · exact (hall.whole ho s.isBoundary_zero).2 t ht.val

end Lexer

theorem exists_lexer_of_lex {o : ParseOptions} {s : Source} {lexed : Lexed} {P : Lexer → Prop}
    (hinitial : P .initial)
    (hstep : ∀ l l' b, Lexer.Ready s l → P l → s.byte? l.pos = some b → l.step o s b = .ok l' →
      P l')
    (h : lex o s = .ok lexed) : ∃ l : Lexer, Lexer.Ready s l ∧ P l ∧ l.pos = s.size ∧
      lexed = ⟨l.flushText.tokens, l.flushText.errors⟩ := by
  obtain ⟨m, hrun, h⟩ := exists_of_bind_eq_ok h
  cases h
  obtain ⟨l, hr, hl, ⟨hpos, hend⟩ | ⟨b, f, -, -, hfault⟩⟩ :=
    Lexer.ready_initial.run hinitial hstep (Lexer.patience_le_idleLimit _)
  · cases hrun.symm.trans hend
    exact ⟨l, hr, hl, hpos, rfl⟩
  · cases hrun.symm.trans hfault

theorem lexed_sound {o : ParseOptions} {s : Source} {lexed : Lexed} (h : lex o s = .ok lexed) :
    lexed.Sound o s := by
  obtain ⟨l, -, hcovered, hpos, rfl⟩ := exists_lexer_of_lex Lexer.covered_initial
    (fun _ _ _ _ hl hb hstep => (hl.step hb hstep).1) h
  exact hcovered.flushText hpos

/-- Only a length that an extension emits keeps a source from being read. -/
theorem exists_lex (o : ParseOptions) (s : Source) : (∃ lexed, lex o s = .ok lexed) ∨
    ∃ x ∈ o.lexerExtensions, ∃ offer offset, offer.source = s ∧
      x.claim? offer = .error (.offsetOverflow offset) ∧
      lex o s = .error (.offsetOverflow offset) := by
  obtain ⟨l, -, -, ⟨-, hrun⟩ | ⟨b, f, -, hfault, hrun⟩⟩ :=
    (Lexer.ready_initial (s := s)).run (o := o) trivial (fun _ _ _ _ _ _ _ => trivial)
      (Lexer.patience_le_idleLimit _)
  · left
    rw [lex, hrun]
    exact ⟨_, rfl⟩
  · right
    obtain ⟨x, hasks, hx⟩ := (Lexer.claim?_eq_iff (by nofun)).1 (Lexer.step_eq_error_iff.1 hfault)
    obtain ⟨offset, rfl⟩ := x.exists_offset_of_claim? hx
    refine ⟨x, hasks.mem, _, offset, rfl, hx, ?_⟩
    rw [lex, hrun]
    rfl

theorem exists_lex_of_nil {o : ParseOptions} (ho : o.lexerExtensions = []) (s : Source) :
    ∃ lexed, lex o s = .ok lexed ∧ lexed.Sound o s := by
  rcases exists_lex o s with ⟨lexed, h⟩ | ⟨x, hx, -⟩
  · exact ⟨lexed, h, lexed_sound h⟩
  · rw [ho] at hx
    cases hx

/-- The tokens tile the source, whatever the extensions claim, unless a length overflows; without
extensions none is empty. -/
theorem tokens_tile_source (o : ParseOptions) (s : Source) :
    (∃ lexed, lex o s = .ok lexed ∧ Tiles 0 lexed.tokens.toList s.size ∧
      Token.allBytes s lexed.tokens.toList = s.bytes ∧
      (o.lexerExtensions = [] → ∀ t ∈ lexed.tokens, t.start < t.stop)) ∨
    ∃ x ∈ o.lexerExtensions, ∃ offer offset, offer.source = s ∧
      x.claim? offer = .error (.offsetOverflow offset) ∧
      lex o s = .error (.offsetOverflow offset) := by
  refine (exists_lex o s).imp_left fun ⟨lexed, hlex⟩ => ?_
  have hsound := lexed_sound hlex
  refine ⟨lexed, hlex, hsound.tiles, ?_, hsound.solid⟩
  rw [hsound.tiles.allBytes]
  exact ByteArray.extract_zero_size

-- The length is added to the offset before it is cut at the end of the source.
example : lex { ParseOptions.ofDirectives [] with lexerExtensions := [⟨"x", 0, ascii "b", [],
      fun _ => true, fun _ => ([⟨.text, wordLimit - 1⟩], true)⟩] } (.ofString "ab") =
    .error (.offsetOverflow 1) := by cbv

end BladeTree
