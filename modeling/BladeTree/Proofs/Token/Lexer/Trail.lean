import BladeTree.Proofs.Token.Lexer.Cover

namespace BladeTree
namespace Lexer

variable {o : ParseOptions} {s : Source} {start l : Lexer}

/-- Moves that lead between two characters, with no end of an echo kept. -/
structure Trail (o : ParseOptions) (s : Source) (start l : Lexer) : Prop where
  moves : Relation.ReflTransGen (Move o s) start l
  ready : Ready s l
  cut : s.isBoundary l.pos
  silent : l.echoClose = none

theorem Ready.silent (h : Ready s l) (hm : ∀ flavor, l.mode ≠ .echoContent flavor) :
    l.echoClose = none := by
  cases hc : l.echoClose with
  | none => rfl
  | some c =>
      obtain ⟨flavor, hmode, -⟩ := h.echo c hc
      exact absurd hmode (hm flavor)

namespace Trail

theorem refl (h : Ready s l) (hcut : s.isBoundary l.pos) (hs : l.echoClose = none) :
    Trail o s l l :=
  ⟨.refl, h, hcut, hs⟩

variable (h : Trail o s start l)
include h

theorem move {l' : Lexer} (hm : Move o s l l') (hcut : s.isBoundary l'.pos)
    (hs : l'.echoClose = none) : Trail o s start l' :=
  ⟨h.moves.tail hm, h.ready.move hm, hcut, hs⟩

theorem emit (kind : TokenType) {n : Nat} (hk : ¬ kind.OpensTag) (hn : 0 < n)
    (hstop : s.isBoundary (l.pos + n)) : Trail o s start (l.emit kind n) :=
  h.move (.emit kind n h.silent h.cut hn hstop hk) (by rwa [emit_pos])
    (by rw [emit_echoClose, h.silent])

theorem emitUntil (kind : TokenType) {stop : Nat} (hk : ¬ kind.OpensTag)
    (hstop : s.isBoundary stop) : Trail o s start (l.emitUntil kind stop) := by
  by_cases hlt : l.pos < stop
  · rw [emitUntil_of_lt kind hlt]
    refine h.emit kind hk (Nat.sub_pos_of_lt hlt) ?_
    rwa [Nat.add_sub_cancel' hlt.le]
  · rwa [emitUntil_of_le kind (Nat.le_of_not_lt hlt)]

theorem emitClosed (kind closeKind : TokenType) {pat : List UInt8} {n stop : Nat}
    (hk : ¬ kind.OpensTag) (hc : ¬ closeKind.OpensTag) (hp : Source.Plain pat)
    (hle : l.pos ≤ stop) (hs : s.startsWith stop pat) (hn : pat.length = n) :
    Trail o s start ((l.emitUntil kind stop).emit closeKind n) := by
  have hpos : 0 < n := hn ▸ List.length_pos_of_ne_nil hp.1
  refine (h.emitUntil kind hk (s.isBoundary_of_startsWith hp hs)).emit closeKind hc hpos ?_
  rw [emitUntil_pos, Nat.max_eq_right hle]
  exact s.isBoundary_after hp hs hn

theorem opens (hb : s.byte? l.pos = some Byte.lessThan) :
    Trail o s start (l.emit .lessThan 1) :=
  h.move (.opens h.silent hb) (by rw [emit_pos]; exact s.isBoundary_succ_of_ascii hb (by decide))
    (by rw [emit_echoClose, h.silent])

theorem slash {n : Nat} (hb : s.byte? l.pos = some Byte.slash) (hn : 0 < n)
    (hstop : s.isBoundary (l.pos + 1 + n)) :
    Trail o s start ((l.emit .slash 1).emit .tagName n) :=
  h.move (.slash n h.silent hb hn hstop) (by rwa [emit_pos, emit_pos])
    (by rw [emit_echoClose, emit_echoClose, h.silent])

theorem readText {n : Nat} (hstop : s.isBoundary (l.pos + n)) :
    Trail o s start (l.readText n) :=
  h.move (.read n h.silent (s.le_size_of_isBoundary hstop) (.inr hstop)) hstop h.silent

theorem readTextUntil {stop : Nat} (hle : l.pos ≤ stop) (hstop : s.isBoundary stop) :
    Trail o s start (l.readTextUntil stop) := by
  refine h.readText ?_
  rwa [Nat.add_sub_cancel' hle]

theorem goTo (mode : Mode) (hq : ∀ q, mode = .attributeValueQuoted q → Byte.isAscii q) :
    Trail o s start (l.goTo mode) :=
  h.move (.goTo mode h.silent h.cut hq) (by rw [goTo_pos]; exact h.cut)
    (by rw [goTo_echoClose, h.silent])

theorem goToReturnMode : Trail o s start (l.goTo l.returnMode) :=
  h.goTo _ fun q hq => absurd hq (h.ready.resume.ne_quoted q)

theorem note (pendingRawText : Option RawText) (valueArgsUnclosed : Bool) (memo : ScanMemo)
    (errors : Array LexerError) :
    Trail o s start { l with pendingRawText, valueArgsUnclosed, memo, errors } :=
  h.move (.note pendingRawText valueArgsUnclosed memo errors) h.cut h.silent

end Trail
end Lexer
end BladeTree
