import BladeTree.Proofs.Token.Lexer.Echo

namespace BladeTree

/-- The source is a single construct, and `start … stop` is what lies between its delimiters. -/
def Source.Encloses (s : Source) (start stop : Nat) : Enclosure → Prop
  | .echo f => s.braceOpener? 0 = some (.echo f) ∧ start = f.width ∧
      s.findEchoEnd f start = .closed stop ∧ stop + f.width = s.size
  | .bladeComment => s.startsWith 0 (ascii "\x7b\x7b--") ∧ start = 4 ∧
      s.find (ascii "--\x7d\x7d") start = some stop ∧ stop + 4 = s.size
  | .comment => s.startsWith 0 (ascii "<!--") ∧ start = 4 ∧
      s.find (ascii "-->") start = some stop ∧ stop + 3 = s.size
  | _ => False

def Enclosure.tokens (e : Enclosure) (start stop size : Nat) : Array Token :=
  #[⟨e.opening, 0, start⟩, ⟨e.content, start, stop⟩, ⟨e.closing, stop, size⟩]

namespace Lexer

variable {o : ParseOptions} {s : Source} {e : Enclosure} {start stop : Nat}

theorem enclosed_eq (hlt : start < stop) (n : Nat) :
    ((initial.emit e.opening start).emitUntil e.content stop).emit e.closing n =
      { initial with pos := stop + n, tokens := e.tokens start stop (stop + n) } := by
  have hopen : initial.emit e.opening start =
      { initial with pos := start, tokens := #[⟨e.opening, 0, start⟩] } := by
    rw [emit_eq, initial]
    simp [pendingText]
  rw [hopen, emitUntil_eq e.content rfl hlt.le, emit_eq]
  simp [Token.between, hlt, Enclosure.tokens, pendingText, initial]

theorem lex_of_reachable {l : Lexer} (h : Reachable o s l) (hpos : l.pos = s.size)
    (htext : l.textStart = none) : lex o s = .ok ⟨l.tokens, l.errors⟩ := by
  rw [h.lex_eq hpos, flushText_eq]
  simp [pendingText, htext]

theorem lex_of_data {b : UInt8} {n : Nat} (ho : o.lexerExtensions = []) (hlt : start < stop)
    (hb : s.byte? initial.pos = some b) (hsize : stop + n = s.size)
    (hread : initial.data o s b =
      ((initial.emit e.opening start).emitUntil e.content stop).emit e.closing n) :
    lex o s = .ok ⟨e.tokens start stop s.size, #[]⟩ := by
  have hsteps : Steps o s initial (initial.data o s b) := by
    refine ⟨b, hb, ?_⟩
    rw [step_eq_read ho]
    rfl
  rw [hread, enclosed_eq hlt, hsize] at hsteps
  exact lex_of_reachable (.step _ _ .initial hsteps) rfl rfl

theorem lex_comment (ho : o.lexerExtensions = []) (hlt : start < stop)
    (h : s.Encloses start stop .comment) :
    lex o s = .ok ⟨Enclosure.comment.tokens start stop s.size, #[]⟩ := by
  obtain ⟨hopen, rfl, hfind, hsize⟩ := h
  have hmarkup : s.markupStart initial.pos = .comment := if_pos hopen
  have hbyte : s.byte? initial.pos = some Byte.lessThan :=
    s.byte?_of_startsWith hopen (k := 0) (by decide)
  have hpos : (initial.emit .commentStart 4).pos = 4 := emit_pos ..
  apply lex_of_data ho hlt hbyte hsize
  simp only [data, markup, hmarkup, comment, hpos, hfind, if_true]
  rfl

theorem lex_bladeComment (ho : o.lexerExtensions = []) (hlt : start < stop)
    (h : s.Encloses start stop .bladeComment) :
    lex o s = .ok ⟨Enclosure.bladeComment.tokens start stop s.size, #[]⟩ := by
  obtain ⟨hopen, rfl, hfind, hsize⟩ := h
  have hopener : s.braceOpener? initial.pos = some .bladeComment := if_pos hopen
  have hbyte : s.byte? initial.pos = some Byte.openBrace :=
    s.byte?_of_startsWith hopen (k := 0) (by decide)
  have hpos : (initial.emit .bladeCommentStart 4).pos = 4 := emit_pos ..
  have hne : Byte.openBrace ≠ Byte.lessThan := by decide
  apply lex_of_data ho hlt hbyte hsize
  simp only [data, brace, hopener, bladeComment, hpos, hfind, if_neg hne, if_true]
  rfl

theorem lex_echo {f : EchoFlavor} (ho : o.lexerExtensions = []) (hlt : start < stop)
    (h : s.Encloses start stop (.echo f)) :
    lex o s = .ok ⟨(Enclosure.echo f).tokens start stop s.size, #[]⟩ := by
  obtain ⟨hopener, rfl, hend, hsize⟩ := h
  have hwidth : initial.pos + f.width = f.width := Nat.zero_add _
  have hholds : s.HoldsEcho f (initial.pos + f.width) := by
    rw [hwidth, s.holdsEcho_iff, hend]
    nofun
  have hbegins : Begins s initial f (initial.brace s) := begins_brace hopener hholds
  have hpos : (initial.brace s).pos = f.width := by rw [hbegins.pos, hwidth]
  have hinside : (initial.brace s).pos < s.size := by omega
  have hends : Ends s initial f (initial.brace s) ((initial.brace s).echoContent s f) :=
    ends_echoContent hbegins hinside.le
  have hsteps : Steps o s (initial.brace s) ((initial.brace s).echoContent s f) := by
    refine ⟨_, s.byte?_of_lt hinside, ?_⟩
    rw [step_eq_read ho, read, hbegins.mode]
  have hreachable : Reachable o s ((initial.brace s).echoContent s f) :=
    .step _ _ (.step _ _ .initial (steps_brace hopener ho trivial)) hsteps
  rw [lex_of_reachable hreachable (by rw [hends.pos, hpos, hend]; exact hsize) hends.textStart,
    hends.tokens, hends.errors, hbegins.tokens, hbegins.errors, hpos, hwidth, hend, ← hsize]
  simp [EchoEnd.tokens, EchoEnd.errors, Token.between, hlt, Enclosure.tokens, pendingText, initial,
    Enclosure.opening, Enclosure.content, Enclosure.closing]

theorem lex_encloses (ho : o.lexerExtensions = []) (hlt : start < stop)
    (h : s.Encloses start stop e) : lex o s = .ok ⟨e.tokens start stop s.size, #[]⟩ := by
  cases e with
  | echo f => exact lex_echo ho hlt h
  | bladeComment => exact lex_bladeComment ho hlt h
  | comment => exact lex_comment ho hlt h
  | phpBlock | phpTag | verbatim => exact absurd h id

end Lexer
end BladeTree
