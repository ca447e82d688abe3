import BladeTree.Proofs.Token.Lexer.RawText
import BladeTree.Proofs.Token.Memo

namespace BladeTree
namespace Source

variable (s : Source) {pos stop : Nat}

/-- Where an escape ends that begins at `pos`: `@@` with a name, or `@` with two braces. -/
def escapeEnd? (pos : Nat) : Option Nat :=
  if s.startsWith pos (ascii "@@") then some (s.skipWhile Byte.isWord (pos + 2))
  else if s.startsWith pos (ascii "@\x7b\x7b") then some (pos + 3)
  else none

theorem byte?_of_escapeEnd? (h : s.escapeEnd? pos = some stop) :
    s.byte? pos = some Byte.atSign ∧
      (s.byte? (pos + 1) = some Byte.atSign ∨ s.byte? (pos + 1) = some Byte.openBrace) := by
  simp only [escapeEnd?] at h
  split at h
  · rename_i hat
    exact ⟨s.byte?_of_startsWith hat (k := 0) rfl, .inl (s.byte?_of_startsWith hat (k := 1) rfl)⟩
  split at h
  · rename_i hat
    exact ⟨s.byte?_of_startsWith hat (k := 0) rfl, .inr (s.byte?_of_startsWith hat (k := 1) rfl)⟩
  · cases h

theorem directiveAt?_of_escapeEnd? {known : DirectiveSet} (h : s.escapeEnd? pos = some stop) :
    s.directiveAt? known pos = none := by
  apply s.directiveAt?_eq_none
  by_contra hnot
  rw [not_or] at hnot
  simp only [escapeEnd?, if_neg hnot.1, if_neg hnot.2] at h
  cases h

theorem rawRunEnd_of_escapeEnd? (kind : RawText) (h : s.escapeEnd? pos = some stop) :
    s.rawRunEnd kind (s.rawUnitEnd kind Byte.atSign pos) = pos + 1 := by
  obtain ⟨hat, hnext⟩ := s.byte?_of_escapeEnd? h
  have hunit : s.rawUnitEnd kind Byte.atSign pos = pos + 1 := by
    have hblock : s.startsWith pos (ascii "/*") = false :=
      s.startsWith_cons_eq_false hat (by decide)
    have hline : s.startsWith pos (ascii "//") = false :=
      s.startsWith_cons_eq_false hat (by decide)
    simp only [rawUnitEnd]
    split
    · rfl
    · rename_i flavor _
      have hquote : flavor.isQuote Byte.atSign = false := by cases flavor <;> rfl
      simp [hquote, hblock, hline]
  rw [hunit, rawRunEnd]
  split
  · rename_i hlt
    rw [s.byte?_of_lt hlt, Option.some.injEq, Option.some.injEq] at hnext
    exact if_pos (.inr hnext.symm)
  · rfl

end Source

namespace Lexer

variable {o : ParseOptions} {s : Source} {l : Lexer} {stop : Nat} {m : DirectiveMatch}

theorem step_atSign (ho : o.lexerExtensions = []) (hm : l.mode = .data) :
    l.step o s Byte.atSign = .ok (l.atSign o s) := by
  rw [step_eq_read ho, read, hm]
  rfl

theorem steps_escape (ho : o.lexerExtensions = []) (hm : l.mode = .data)
    (h : s.escapeEnd? l.pos = some stop) : Steps o s l (l.readTextUntil stop) := by
  refine ⟨Byte.atSign, (s.byte?_of_escapeEnd? h).1, ?_⟩
  rw [step_atSign ho hm, Except.ok.injEq]
  simp only [Source.escapeEnd?] at h
  simp only [atSign]
  split at h
  · cases h
    rename_i hat
    rw [if_pos hat]
  rename_i hnot
  rw [if_neg hnot]
  split at h
  · cases h
    rename_i hat
    rw [if_pos hat, readTextUntil, Nat.add_sub_cancel_left]
  · cases h

/-- In raw text only the `@` of an escape is read, and what follows it as without an escape. -/
theorem steps_escape_rawText {kind : RawText} (hm : l.mode = .rawText kind)
    (h : s.escapeEnd? l.pos = some stop) : Steps o s l (l.readText 1) := by
  have hbyte : s.byte? l.pos = some Byte.atSign := (s.byte?_of_escapeEnd? h).1
  refine ⟨Byte.atSign, hbyte, ?_⟩
  have hcloses : ¬ s.closesRawText kind l.pos := by
    refine s.not_closesRawText kind ?_
    rw [hbyte]
    decide
  have hopener : (s.braceOpener? l.pos).isSome = false := by
    rw [Bool.eq_false_iff]
    intro hopener
    rw [s.byte?_of_braceOpener? hopener, Option.some.injEq] at hbyte
    cases hbyte
  rw [step_of_not_asks (by rw [hm]; rfl), Except.ok.injEq]
  simp only [read, hm, rawText, if_neg hcloses, hopener, s.directiveAt?_of_escapeEnd? h,
    Option.isSome_none, Bool.false_eq_true, and_false, if_false]
  rw [s.rawRunEnd_of_escapeEnd? kind h, readTextUntil, Nat.add_sub_cancel_left]

theorem Reachable.escape (ho : o.lexerExtensions = []) (hl : Reachable o s l) (hm : l.mode = .data)
    (h : s.escapeEnd? l.pos = some stop) {lexed : Lexed} (hlex : lex o s = .ok lexed) :
    ∀ t ∈ lexed.tokens, l.pos ≤ t.start → t.start < stop → t.kind = .text := by
  intro t ht hle hlt
  obtain ⟨i, hi⟩ := Nat.exists_eq_add_of_le hle
  have hread : ReadAsText t.start (l.readTextUntil stop) := by
    rw [hi]
    exact hl.covered.readAsText ho (by omega)
  exact hread.forall_tokens (.step _ _ hl (steps_escape ho hm h)) hlex t ht rfl

theorem exists_steps_text (ho : o.lexerExtensions = []) (hm : l.mode = .data)
    (hat : s.byte? l.pos = some Byte.atSign) (h : s.directiveAt? o.directives l.pos = none) :
    ∃ n, 0 < n ∧ Steps o s l (l.readText n) := by
  have hread : l.step o s Byte.atSign = .ok (l.atSign o s) := step_atSign ho hm
  have hlt (i : Nat) (hi : 0 < i) : 0 < s.skipWhile Byte.isWord (l.pos + i) - l.pos := by
    have := s.le_skipWhile Byte.isWord (l.pos + i)
    omega
  simp only [Lexer.atSign, h] at hread
  split at hread
  · exact ⟨_, hlt 2 Nat.two_pos, _, hat, hread⟩
  split at hread
  · exact ⟨3, by decide, _, hat, hread⟩
  · exact ⟨_, hlt 1 Nat.one_pos, _, hat, hread⟩

structure Named (l : Lexer) (m : DirectiveMatch) (l' : Lexer) : Prop where
  mode : l'.mode = if m.hasArgs then .directiveArgs else l.mode
  returnMode : m.hasArgs → l'.returnMode = l.mode
  pos : l'.pos = m.nameEnd
  textStart : l'.textStart = none
  memo : l'.memo = l.memo
  tokens : l'.tokens = l.tokens ++ (l.pendingText ++ [⟨.directive, l.pos, m.nameEnd⟩])

/-- In content a directive that opens no code region is read as its name, and then its arguments
are looked for if it has any. -/
theorem exists_steps_name (ho : o.lexerExtensions = []) (hm : l.mode = .data)
    (hat : s.byte? l.pos = some Byte.atSign) (h : s.directiveAt? o.directives l.pos = some m)
    (hverbatim : m.name ≠ "verbatim") (hphp : m.name ≠ "php") :
    ∃ l', Steps o s l l' ∧ Named l m l' := by
  have hescape : ¬ (s.startsWith l.pos (ascii "@@") ∨ s.startsWith l.pos (ascii "@\x7b\x7b")) := by
    intro hescape
    rw [s.directiveAt?_eq_none hescape] at h
    cases h
  rw [not_or] at hescape
  have hlt : l.pos < m.nameEnd := s.lt_directiveAt h
  refine ⟨_, ⟨_, hat, step_atSign ho hm⟩, ?_⟩
  simp only [Lexer.atSign, if_neg hescape.1, if_neg hescape.2, h, hverbatim, hphp, false_and,
    if_false, emitUntil_of_lt .directive hlt, emit_eq, Nat.add_sub_cancel' hlt.le]
  cases hargs : m.hasArgs with
  | false =>
      refine ⟨by rw [hargs]; rfl, fun hnot => ?_, rfl, rfl, rfl, rfl⟩
      cases hargs.symm.trans hnot
  | true =>
      rw [if_pos rfl, goTo_eq]
      refine ⟨by rw [hargs]; rfl, fun _ => rfl, rfl, rfl, rfl, ?_⟩
      simp [pendingText]

/-- A group of parentheses right behind the name of a directive is read as its arguments. -/
theorem steps_directiveArgs (hm : l.mode = .directiveArgs) (hmemo : l.memo.Sound s)
    (htext : l.textStart = none) (hparen : s.byte? l.pos = some Byte.openParen)
    (h : (s.balancedParens .empty .php 0 l.pos).1 = (stop, true)) :
    ∃ l', Steps o s l l' ∧ l'.mode = l.returnMode ∧ l'.pos = stop ∧
      l'.tokens = l.tokens.push ⟨.directiveArgs, l.pos, stop⟩ := by
  have hblank : s.skipHorizontalSpace l.pos = l.pos := by
    rw [Source.skipHorizontalSpace, Source.skipWhile, dif_neg]
    rw [Source.has, hparen]
    decide
  have hskip : l.emitUntil .whitespace l.pos = l := if_neg (lt_irrefl _)
  obtain ⟨hscan, -⟩ := s.balancedParens_of_sound hmemo (ScanMemo.sound_empty s) 0 l.pos
  rw [h] at hscan
  have hlt : l.pos < stop := by
    have := s.lt_balancedParens (congrArg Prod.snd h)
    rwa [h] at this
  have hread : l.read o s Byte.openParen =
      (emit { l with memo := (s.balancedParens l.memo .php 0 l.pos).2 } .directiveArgs
        (stop - l.pos)).goTo l.returnMode := by
    simp only [read, hm, directiveArgs, hblank, hskip, hscan, if_true, emitUntil_returnMode]
    exact congrArg (goTo · l.returnMode) (if_pos hlt)
  refine ⟨_, ⟨_, hparen, step_of_not_asks (by rw [hm]; rfl)⟩, ?_⟩
  rw [hread, goTo_eq, emit_eq]
  simp [pendingText, htext, Nat.add_sub_cancel' hlt.le]

theorem lt_directiveArgs (hlt : l.pos < s.size) : l.pos < (l.directiveArgs s).pos := by
  have hle : l.pos ≤ s.skipHorizontalSpace l.pos := s.le_skipWhile _ _
  simp only [directiveArgs, goTo_pos, emitUntil_pos, lt_max_iff]
  right
  cases hclosed : (s.balancedParens (l.emitUntil .whitespace (s.skipHorizontalSpace l.pos)).memo .php 0
      (s.skipHorizontalSpace l.pos)).1.2 with
  | true => exact hle.trans_lt (s.lt_balancedParens hclosed)
  | false => rwa [s.stop_balancedParens hclosed]

end Lexer
end BladeTree
