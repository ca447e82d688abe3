import BladeTree.Proofs.Token.Lexer.Run
import BladeTree.Proofs.Token.Memo
import BladeTree.Proofs.Token.Unclosed

namespace BladeTree
namespace Lexer

variable {s : Source} {l : Lexer} {p q : Phase} {zone : Zone} {e : Enclosure} {kind : TokenType}
  {stop : Nat}

def kinds (l : Lexer) : List TokenType := (l.tokens.toList ++ l.pendingText).map (·.kind)

def Reaches (l : Lexer) (p : Phase) : Prop := (Phase.between .content).after? l.kinds = some p

def reports (l : Lexer) : List LexerErrorKind := l.errors.toList.map (·.kind)

def unclosed? (s : Source) (l : Lexer) (p : Phase) : Option LexerErrorKind :=
  p.unclosed?.or ((l.tokens.toList ++ l.pendingText).getLast?.bind (·.unclosed? s))

/-- The text so far leads to the phase `p`, no token lacks its end and nothing was reported. -/
structure Quiet (s : Source) (l : Lexer) (p : Phase) : Prop where
  reaches : l.Reaches p
  errors : l.errors = #[]
  closed : ∀ t ∈ l.tokens, t.unclosed? s = none
  memo : l.memo.Sound s

structure Ended (s : Source) (l : Lexer) (p : Phase) : Prop where
  reaches : l.Reaches p
  final : p.isFinal
  stop : s.size ≤ l.pos
  reports : l.reports = (l.unclosed? s p).toList

/-! Single changes -/

theorem kinds_emit (l : Lexer) (kind : TokenType) (n : Nat) :
    (l.emit kind n).kinds = l.kinds ++ [kind] := by
  rw [emit_eq]
  simp [kinds, pendingText]

theorem kinds_goTo (l : Lexer) (mode : Mode) : (l.goTo mode).kinds = l.kinds := by
  rw [goTo_eq]
  simp [kinds, pendingText]

theorem kinds_readText (l : Lexer) (n : Nat) :
    (l.readText n).kinds = l.kinds ∨ (l.readText n).kinds = l.kinds ++ [.text] := by
  unfold kinds pendingText readText
  cases l.textStart with
  | none =>
      simp only [Option.getD_none]
      split <;> simp
  | some start =>
      simp only [Option.getD_some]
      by_cases hold : start < l.pos
      · rw [if_pos hold, if_pos (hold.trans_le (Nat.le_add_right _ _))]
        simp
      · rw [if_neg hold]
        split <;> simp

@[simp] theorem emit_errors (l : Lexer) (kind : TokenType) (n : Nat) :
    (l.emit kind n).errors = l.errors := by rw [emit_eq]

@[simp] theorem emit_memo (l : Lexer) (kind : TokenType) (n : Nat) :
    (l.emit kind n).memo = l.memo := by rw [emit_eq]

theorem reports_emitUntil (l : Lexer) (kind : TokenType) (stop : Nat) :
    (l.emitUntil kind stop).reports = l.reports := by
  unfold emitUntil reports
  split
  · rw [emit_errors]
  · rfl

theorem reports_goTo (l : Lexer) (mode : Mode) : (l.goTo mode).reports = l.reports := by
  rw [goTo_eq]
  rfl

theorem unclosed?_goTo (l : Lexer) (mode : Mode) (p : Phase) :
    (l.goTo mode).unclosed? s p = l.unclosed? s p := by
  rw [goTo_eq]
  simp [unclosed?, pendingText]

theorem unclosed?_emitUntil (kind : TokenType) (p : Phase) (hlt : l.pos < stop) :
    (l.emitUntil kind stop).unclosed? s p =
      p.unclosed?.or ((⟨kind, l.pos, stop⟩ : Token).unclosed? s) := by
  rw [emitUntil_of_lt kind hlt, emit_eq, Nat.add_sub_cancel' hlt.le]
  simp [unclosed?, pendingText]

theorem unclosed?_pendingText {t : Token} (h : t ∈ l.pendingText) : t.unclosed? s = none := by
  obtain ⟨rfl, -⟩ := mem_pendingText h
  rfl

namespace Reaches

theorem emit (h : l.Reaches p) (hk : p.next? kind = some q) (n : Nat) :
    (l.emit kind n).Reaches q := by
  unfold Reaches
  rw [kinds_emit, Phase.after?_concat h, hk]

theorem goTo (h : l.Reaches p) (mode : Mode) : (l.goTo mode).Reaches p := by
  unfold Reaches
  rw [kinds_goTo]
  exact h

theorem readText (h : l.Reaches p) (hp : p.zone? = some zone) (n : Nat) :
    (l.readText n).Reaches p ∨ (l.readText n).Reaches (.between zone) := by
  rcases kinds_readText l n with hkinds | hkinds
  · left
    unfold Reaches
    rw [hkinds]
    exact h
  · right
    unfold Reaches
    rw [hkinds, Phase.after?_concat h, Phase.next?_text hp]

theorem report (h : l.Reaches p) (kind : LexerErrorKind) (offset : Nat) :
    (l.report kind offset).Reaches p := h

theorem emitUntil_of_lt (h : l.Reaches p) (hk : p.next? kind = some q) (hlt : l.pos < stop) :
    (l.emitUntil kind stop).Reaches q := by
  rw [Lexer.emitUntil_of_lt kind hlt]
  exact h.emit hk _

theorem ended (h : l.Reaches p) (hk : p.next? kind = some q) (hlt : l.pos < s.size)
    (hq : q.isFinal)
    (hr : l.reports = (q.unclosed?.or ((⟨kind, l.pos, s.size⟩ : Token).unclosed? s)).toList) :
    (l.emitUntil kind s.size).Ended s q where
  reaches := h.emitUntil_of_lt hk hlt
  final := hq
  stop := by
    rw [emitUntil_pos]
    exact Nat.le_max_right _ _
  reports := by rw [reports_emitUntil, unclosed?_emitUntil kind q hlt, hr]

theorem unclosed (h : l.Reaches (.opened e zone)) (hlt : l.pos < s.size)
    (hr : l.reports = e.unclosed?.toList) :
    (l.emitUntil e.content s.size).Ended s (.filled e zone) := by
  refine h.ended (Phase.next?_of_continue? (Phase.continue?_content e zone)) hlt rfl ?_
  rw [(Token.unclosed?_enclosure s l.pos s.size e).2.1, Option.or_none]
  exact hr

theorem unclosed_ahead (h : l.Reaches (.opened e zone)) (hahead : e.looksAhead)
    (hr : l.reports = e.unclosed?.toList) :
    ∃ q, (l.emitUntil e.content s.size).Ended s q := by
  by_cases hlt : l.pos < s.size
  · exact ⟨_, h.unclosed hlt hr⟩
  · rw [emitUntil_of_le _ (Nat.le_of_not_lt hlt)]
    refine ⟨_, h, rfl, Nat.le_of_not_lt hlt, hr.trans ?_⟩
    have hopened : (Phase.opened e zone).unclosed? = e.unclosed? := if_pos hahead
    unfold unclosed?
    rw [hopened]
    cases e with
    | echo | bladeComment | comment => rfl
    | _ => cases hahead

end Reaches

theorem Ended.goTo (h : l.Ended s p) (mode : Mode) : (l.goTo mode).Ended s p where
  reaches := h.reaches.goTo mode
  final := h.final
  stop := by
    rw [goTo_pos]
    exact h.stop
  reports := by
    rw [reports_goTo, unclosed?_goTo]
    exact h.reports

namespace Quiet

theorem reports_eq_nil (h : l.Quiet s p) : l.reports = [] := by
  unfold reports
  rw [h.errors]
  rfl

theorem report (h : l.Quiet s p) (kind : LexerErrorKind) (offset : Nat) :
    (l.report kind offset).reports = [kind] := by
  unfold reports Lexer.report
  rw [h.errors]
  rfl

theorem emit (h : l.Quiet s p) (hk : p.next? kind = some q) (n : Nat)
    (ht : (⟨kind, l.pos, l.pos + n⟩ : Token).unclosed? s = none) : (l.emit kind n).Quiet s q where
  reaches := h.reaches.emit hk n
  errors := by rw [emit_errors, h.errors]
  closed t hmem := by
    rw [emit_eq, ← Array.mem_toList_iff, Array.toList_appendList, List.mem_append,
      List.mem_append, List.mem_singleton] at hmem
    rcases hmem with hmem | hmem | rfl
    · exact h.closed t (Array.mem_toList_iff.1 hmem)
    · exact unclosed?_pendingText hmem
    · exact ht
  memo := by
    rw [emit_memo]
    exact h.memo

theorem emitUntil_of_lt (h : l.Quiet s p) (hk : p.next? kind = some q) (hlt : l.pos < stop)
    (ht : (⟨kind, l.pos, stop⟩ : Token).unclosed? s = none) :
    (l.emitUntil kind stop).Quiet s q := by
  rw [Lexer.emitUntil_of_lt kind hlt]
  refine h.emit hk _ ?_
  rwa [Nat.add_sub_cancel' hlt.le]

theorem emitUntil (h : l.Quiet s p) (hk : p.next? kind = some q) (stop : Nat)
    (ht : (⟨kind, l.pos, stop⟩ : Token).unclosed? s = none) :
    (l.emitUntil kind stop).Quiet s p ∨ (l.emitUntil kind stop).Quiet s q := by
  by_cases hlt : l.pos < stop
  · exact .inr (h.emitUntil_of_lt hk hlt ht)
  · rw [emitUntil_of_le kind (Nat.le_of_not_lt hlt)]
    exact .inl h

theorem goTo (h : l.Quiet s p) (mode : Mode) : (l.goTo mode).Quiet s p where
  reaches := h.reaches.goTo mode
  errors := by rw [goTo_eq, h.errors]
  closed t hmem := by
    rw [goTo_eq, ← Array.mem_toList_iff, Array.toList_appendList, List.mem_append] at hmem
    rcases hmem with hmem | hmem
    · exact h.closed t (Array.mem_toList_iff.1 hmem)
    · exact unclosed?_pendingText hmem
  memo := by
    rw [goTo_eq]
    exact h.memo

theorem readText (h : l.Quiet s p) (hp : p.zone? = some zone) (n : Nat) :
    (l.readText n).Quiet s p ∨ (l.readText n).Quiet s (.between zone) :=
  (h.reaches.readText hp n).imp (fun h' => ⟨h', h.errors, h.closed, h.memo⟩)
    fun h' => ⟨h', h.errors, h.closed, h.memo⟩

/-! Constructs with an end of their own -/

theorem opens (h : l.Quiet s p) (hp : p.zone? = some zone) (e : Enclosure) (n : Nat) :
    (l.emit e.opening n).Quiet s (.opened e (e.resumes zone)) :=
  h.emit (Phase.next?_opening hp e) n (Token.unclosed?_enclosure s _ _ e).1

theorem closes (h : l.Quiet s (.opened e zone)) (stop n : Nat) :
    ((l.emitUntil e.content stop).emit e.closing n).Quiet s (.between zone) := by
  obtain ⟨hopened, hfilled⟩ := Phase.continue?_closing e zone
  have hclosing (i j : Nat) := (Token.unclosed?_enclosure s i j e).2.2
  rcases h.emitUntil (Phase.next?_of_continue? (Phase.continue?_content e zone)) stop
    (Token.unclosed?_enclosure s _ _ e).2.1 with h' | h'
  · exact h'.emit (Phase.next?_of_continue? hopened) n (hclosing _ _)
  · exact h'.emit (Phase.next?_of_continue? hfilled) n (hclosing _ _)

end Quiet

theorem Quiet.unclosed?_eq_none (h : l.Quiet s p) (hp : p.unclosed? = none) : l.unclosed? s p = none := by
  unfold Lexer.unclosed?
  rw [hp, Option.none_or, Option.bind_eq_none_iff]
  intro t ht
  rcases List.mem_append.1 (List.mem_of_getLast? ht) with ht | ht
  · exact h.closed t (Array.mem_toList_iff.1 ht)
  · exact unclosed?_pendingText ht

end Lexer
end BladeTree
