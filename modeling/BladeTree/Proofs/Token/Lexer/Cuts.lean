import BladeTree.Proofs.Token.Lexer.Run

namespace BladeTree

/-- An extension that is asked at a trigger byte claims the bytes around the place `i`. -/
def ParseOptions.ClaimsAround (o : ParseOptions) (s : Source) (i : Nat) : Prop :=
  ∃ x ∈ o.lexerExtensions, ∃ offer tokens stop, offer.source = s ∧
    s.has x.triggers.contains offer.position ∧ x.claim? offer = .ok (some (tokens, stop)) ∧
    offer.position ≤ i ∧ i < stop

/-- A token may begin or end here: between two characters, or where an extension claims. -/
def ParseOptions.MayCut (o : ParseOptions) (s : Source) (i : Nat) : Prop :=
  s.isBoundary i ∨ o.ClaimsAround s i

def Token.MayStand (o : ParseOptions) (s : Source) (t : Token) : Prop :=
  o.MayCut s t.start ∧ o.MayCut s t.stop

theorem Tiles.start_le {start stop : Nat} {ts : List Token} (h : Tiles start ts stop) {t : Token}
    (ht : t ∈ ts) : start ≤ t.start := by
  induction ts generalizing start with
  | nil => cases ht
  | cons u ts ih =>
      obtain ⟨rfl, hle, htail⟩ := h
      rcases List.mem_cons.1 ht with rfl | ht
      · exact le_rfl
      · exact hle.trans (ih htail ht)

namespace Lexer

variable {o : ParseOptions} {s : Source} {l l' : Lexer} {b : UInt8} {tokens : List Token}
  {stop : Nat}

theorem exists_of_claim? (hb : s.byte? l.pos = some b)
    (h : l.claim? o s b = .ok (some (tokens, stop))) {i : Nat} (hi : l.pos ≤ i)
    (hstop : i < stop) : o.ClaimsAround s i := by
  obtain ⟨x, hasks, hx⟩ := (claim?_eq_iff (by nofun)).1 h
  refine ⟨x, hasks.mem, _, tokens, stop, rfl, ?_, hx, hi, hstop⟩
  change s.has x.triggers.contains l.pos
  rw [Source.has, hb]
  exact List.contains_iff_mem.2 hasks.trigger

/-- The tokens so far and the pending text begin and end where they may. -/
structure Cut (o : ParseOptions) (s : Source) (l : Lexer) : Prop where
  behind : l.front ≤ l.pos
  front : o.MayCut s l.front
  tokens : ∀ t ∈ l.tokens, t.MayStand o s

theorem cut_initial : Cut o s initial := ⟨le_rfl, .inl s.isBoundary_zero, nofun⟩

namespace Cut

theorem add (h : Cut o s l) (us : List Token)
    (ht : l'.tokens = l.tokens ++ (l.pendingText ++ us)) (hf : l'.front = l'.pos)
    (hpos : o.MayCut s l.pos) (hpos' : o.MayCut s l'.pos) (hus : ∀ t ∈ us, t.MayStand o s) :
    Cut o s l' := by
  refine ⟨hf.le, hf ▸ hpos', fun t hmem => ?_⟩
  rw [ht, ← Array.mem_toList_iff, Array.toList_appendList, List.mem_append,
    List.mem_append] at hmem
  rcases hmem with hmem | hmem | hmem
  · exact h.tokens t (Array.mem_toList_iff.1 hmem)
  · obtain ⟨rfl, -⟩ := mem_pendingText hmem
    exact ⟨h.front, hpos⟩
  · exact hus t hmem

theorem keep (h : Cut o s l) (ht : l'.tokens = l.tokens) (hf : l'.front = l.front)
    (hpos : l.pos ≤ l'.pos) : Cut o s l' :=
  ⟨hf ▸ h.behind.trans hpos, hf ▸ h.front, ht ▸ h.tokens⟩

theorem emit (h : Cut o s l) (kind : TokenType) {n : Nat} (hpos : s.isBoundary l.pos)
    (hstop : s.isBoundary (l.pos + n)) : Cut o s (l.emit kind n) := by
  refine h.add [⟨kind, l.pos, l.pos + n⟩] (by rw [emit_eq]) (by rw [emit_eq]; rfl) (.inl hpos) ?_
    (List.forall_mem_singleton.2 ⟨.inl hpos, .inl hstop⟩)
  rw [emit_pos]
  exact .inl hstop

theorem goTo (h : Cut o s l) (mode : Mode) (hpos : s.isBoundary l.pos) :
    Cut o s (l.goTo mode) := by
  refine h.add [] (by rw [goTo_eq, List.append_nil]) (by rw [goTo_eq]; rfl) (.inl hpos) ?_ nofun
  rw [goTo_pos]
  exact .inl hpos

theorem move (h : Cut o s l) (hr : Ready s l) (hm : Move o s l l') : Cut o s l' := by
  cases hm with
  | emit kind length _ hpos _ hstop _ => exact h.emit kind hpos hstop
  | opens _ hb =>
      exact h.emit .lessThan (s.isBoundary_of_ascii hb (by decide))
        (s.isBoundary_succ_of_ascii hb (by decide))
  | slash length _ hb _ hstop =>
      have hmid := s.isBoundary_succ_of_ascii hb (by decide)
      exact (h.emit .slash (s.isBoundary_of_ascii hb (by decide)) hmid).emit .tagName
        (by rwa [emit_pos]) (by rwa [emit_pos])
  | read length _ _ _ => exact h.keep rfl rfl (Nat.le_add_right _ _)
  | goTo mode _ hpos _ => exact h.goTo mode hpos
  | claim b tokens stop _ hb hclaim =>
      obtain ⟨htiles, hlt, hstop⟩ := claim?_bounds hclaim hr.inside
      have hcut {i : Nat} (hle : l.pos ≤ i) (hi : i ≤ stop) : o.MayCut s i := by
        rcases Nat.eq_or_lt_of_le hi with rfl | hi
        · exact .inl hstop
        · exact .inr (exists_of_claim? hb hclaim hle hi)
      refine h.add tokens (by rw [accept_eq]) (by rw [accept_eq]; rfl) (hcut le_rfl hlt.le) ?_
        fun t ht => ?_
      · rw [accept_eq]
        exact .inl hstop
      · have hstart := htiles.start_le ht
        have hle := htiles.start_le_stop ht
        have hend := htiles.stop_le ht
        exact ⟨hcut hstart (hle.trans hend), hcut (hstart.trans hle) hend⟩
  | beginEcho flavor close hpos _ _ =>
      have hnoted : Cut o s { l with echoClose := close, returnMode := l.mode } :=
        ⟨h.behind, h.front, h.tokens⟩
      exact hnoted.goTo _ hpos
  | takeEcho => exact h.keep rfl rfl le_rfl
  | saveMode _ _ => exact h.keep rfl rfl le_rfl
  | learn g _ => exact h.keep rfl rfl le_rfl
  | note _ _ _ _ => exact h.keep rfl rfl le_rfl

theorem moves (h : Cut o s l) (hr : Ready s l) (hm : Relation.ReflTransGen (Move o s) l l') :
    Cut o s l' := by
  induction hm with
  | refl => exact h
  | tail hm hlast ih => exact ih.move (hr.moves hm).1 hlast

theorem flushText (h : Cut o s l) (hpos : s.isBoundary l.pos) : Cut o s l.flushText := by
  refine h.add [] ?_ ?_ (.inl hpos) ?_ nofun
  · rw [flushText_eq, List.append_nil]
  · rw [flushText_eq]
    rfl
  · rw [flushText_eq]
    exact .inl hpos

end Cut
end Lexer

/-- A token that begins or ends within a character does so in a claim of an extension. -/
theorem mayStand_of_lex {o : ParseOptions} {s : Source} {lexed : Lexed}
    (h : lex o s = .ok lexed) : ∀ t ∈ lexed.tokens, t.MayStand o s := by
  obtain ⟨l, -, hcut, hpos, rfl⟩ := exists_lexer_of_lex Lexer.cut_initial
    (fun _ _ _ hr hcut hb hstep => hcut.moves hr (Lexer.moves_step hr hb hstep)) h
  exact (hcut.flushText (hpos ▸ s.isBoundary_size)).tokens

end BladeTree
