import BladeTree.Proofs.Token.Lexer.Quiet
import BladeTree.Proofs.Token.Lexer.Reachable

namespace BladeTree

/-- What is read in this mode may begin in the zone. -/
def Mode.Suits : Mode → Zone → Prop
  | .data, _ => True
  | .beforeAttributeName, zone | .attributeName, zone => zone = .startTag
  | .rawText _, zone => zone = .content
  | _, _ => False

theorem Mode.Suits.held {mode : Mode} {zone : Zone} (h : mode.Suits zone) :
    mode.Suits zone.held := by
  cases mode with
  | data => trivial
  | beforeAttributeName | attributeName =>
      obtain rfl : zone = .startTag := h
      rfl
  | rawText =>
      obtain rfl : zone = .content := h
      rfl
  | _ => cases h

namespace Lexer

variable {o : ParseOptions} {s : Source} {l : Lexer} {p : Phase} {zone : Zone} {kind : TokenType}
  {b : UInt8}

/-- The phases in which the lexer can be in its mode while nothing lacks its end. -/
def Fits (s : Source) (l : Lexer) (p : Phase) : Prop :=
  match l.mode with
  | .afterAttributeName => p = .attributeNamed
  | .beforeAttributeValue => p = .equals
  | .attributeValueQuoted _ => p = .quoted
  | .attributeValueUnquoted => p = .equals ∨ p = .equalsSpaced
  | .closingTag => p = .between .closingTag
  | .echoContent flavor => ∃ zone, p = .opened (.echo flavor) zone ∧ l.returnMode.Suits zone ∧
      l.echoClose.isSome
  | .directiveArgs => ∃ zone, p = .directive zone ∧ l.returnMode.Suits zone ∧
      s.byte? (s.skipHorizontalSpace l.pos) = some Byte.openParen
  | .verbatim => p = .opened .verbatim .content
  | .phpBlock => p = .opened .phpBlock .content
  | .phpTag => p = .opened .phpTag .content
  | mode => ∃ zone, p.zone? = some zone ∧ mode.Suits zone

/-- The text so far leads to a phase that fits the mode, and nothing was reported unless it is an
echo that has no end, or it is all of the source. -/
inductive Phased (s : Source) (l : Lexer) : Prop
  | reading {p : Phase} (quiet : l.Quiet s p) (fits : l.Fits s p)
  | unclosedEcho {flavor : EchoFlavor} {zone : Zone} (mode : l.mode = .echoContent flavor)
      (close : l.echoClose = none) (reaches : l.Reaches (.opened (.echo flavor) zone))
      (reports : l.reports = [.unterminatedEcho])
  | ended {p : Phase} (ended : l.Ended s p)

theorem fits_of_suits (hp : p.zone? = some zone) (hm : l.mode.Suits zone) : l.Fits s p := by
  unfold Fits
  cases hmode : l.mode with rw [hmode] at hm
  | data | beforeAttributeName | attributeName | rawText => exact ⟨zone, hp, hm⟩
  | _ => cases hm

theorem phased_of_suits (h : l.Quiet s p) (hp : p.zone? = some zone) (hm : l.mode.Suits zone) :
    Phased s l := .reading h (fits_of_suits hp hm)

namespace Quiet

theorem phased_goTo (h : l.Quiet s p) (hp : p.zone? = some zone) {mode : Mode}
    (hm : mode.Suits zone) : Phased s (l.goTo mode) :=
  phased_of_suits (h.goTo mode) hp (by rwa [goTo_mode])

theorem phased_readText (h : l.Quiet s p) (hp : p.zone? = some zone)
    (hm : l.mode.Suits zone) (n : Nat) : Phased s (l.readText n) := by
  rcases h.readText hp n with h' | h'
  · exact phased_of_suits h' hp hm
  · exact phased_of_suits h' rfl hm

theorem enter (h : l.Quiet s p) {mode : Mode} (hf : (l.goTo mode).Fits s p) :
    Phased s (l.goTo mode) := .reading (h.goTo mode) hf

theorem phased_unclosed {e : Enclosure} (h : l.Quiet s (.opened e zone)) {report : LexerErrorKind}
    (hk : e.unclosed? = some report) (hend : e.looksAhead ∨ l.pos < s.size) (offset : Nat) :
    Phased s ((l.report report offset).emitUntil e.content s.size) := by
  have hreports : (l.report report offset).reports = e.unclosed?.toList := by
    rw [h.report, hk]
    rfl
  rcases hend with hahead | hlt
  · obtain ⟨q, hended⟩ := (h.reaches.report _ _).unclosed_ahead hahead hreports
    exact .ended hended
  · exact .ended ((h.reaches.report _ _).unclosed hlt hreports)

theorem genericArgs (h : l.Quiet s .named) : ∃ q,
    (l.genericArgs s).Quiet s q ∧ q.zone? = some .startTag := by
  have hnext : Phase.named.next? .genericArgs = some (.between .startTag) := rfl
  unfold Lexer.genericArgs
  split
  · simp only
    have hlearned : Quiet s { l with generics := l.generics.covering s l.pos } .named :=
      ⟨h.reaches, h.errors, h.closed, h.memo⟩
    split
    · rename_i stop _
      rcases hlearned.emitUntil hnext stop rfl with h' | h'
      · exact ⟨_, h', rfl⟩
      · exact ⟨_, h', rfl⟩
    · exact ⟨_, hlearned, rfl⟩
  · exact ⟨_, h, rfl⟩

section Between

variable (h : l.Quiet s p) (hp : p.zone? = some zone)
include h hp

theorem comment (hdata : l.mode = .data) : Phased s (l.comment s) := by
  have hstart : (l.emit .commentStart 4).Quiet s (.opened .comment .content) :=
    h.opens hp .comment 4
  unfold Lexer.comment
  simp only
  split
  · refine phased_of_suits (hstart.closes _ 3) rfl ?_
    rw [emit_mode, emitUntil_mode, emit_mode, hdata]
    trivial
  · exact hstart.phased_unclosed rfl (.inl rfl) l.pos

theorem declaration (hdata : l.mode = .data) (hlt : l.pos < s.size) {terminator : String}
    (hk : kind.terminator? = some terminator) :
    Phased s (l.declaration s kind (ascii terminator)) := by
  have hnext : p.next? kind = some (.between .content) := TokenType.next?_of_terminator? hk hp
  have htoken (stop : Nat) := Token.unclosed?_declaration s l.pos stop hk
  unfold Lexer.declaration
  split
  · rename_i stop hstop
    have hm : (l.emitUntil kind (stop + (ascii terminator).length)).mode = .data := by
      rw [emitUntil_mode, hdata]
    rcases h.emitUntil hnext _ ((htoken _).trans (by rw [hstop]; rfl)) with h' | h'
    · exact phased_of_suits h' hp (by rw [hm]; trivial)
    · exact phased_of_suits h' rfl (by rw [hm]; trivial)
  · rename_i hnone
    refine .ended ((h.reaches.report _ l.pos).ended hnext hlt rfl ?_)
    rw [h.report, Token.unclosed?_declaration s _ _ hk, report_pos, hnone]
    rfl

theorem bladeComment (hm : l.mode.Suits zone) : Phased s (l.bladeComment s) := by
  have hstart : (l.emit .bladeCommentStart 4).Quiet s (.opened .bladeComment zone.held) :=
    h.opens hp .bladeComment 4
  unfold Lexer.bladeComment
  simp only
  split
  · refine phased_of_suits (hstart.closes _ 4) rfl ?_
    rw [emit_mode, emitUntil_mode, emit_mode]
    exact hm.held
  · exact hstart.phased_unclosed rfl (.inl rfl) l.pos

theorem beginEcho (hm : l.mode.Suits zone) (flavor : EchoFlavor) {close : Option Nat}
    (hclose : close.isSome) : Phased s (l.beginEcho flavor close) := by
  have hstart := h.opens hp (.echo flavor) flavor.width
  have hnoted (returnMode : Mode) :
      Quiet s { l.emit flavor.startType flavor.width with echoClose := close, returnMode }
        (.opened (.echo flavor) zone.held) :=
    ⟨hstart.reaches, hstart.errors, hstart.closed, hstart.memo⟩
  unfold Lexer.beginEcho
  refine (hnoted _).enter ⟨zone.held, rfl, ?_, ?_⟩
  · rw [goTo_eq, emit_mode]
    exact hm.held
  · rwa [goTo_echoClose]

theorem unclosedEcho (flavor : EchoFlavor) (offset : Nat) :
    Phased s ((l.report .unterminatedEcho offset).beginEcho flavor none) := by
  have hstart : ((l.report .unterminatedEcho offset).emit flavor.startType flavor.width).Reaches
      (.opened (.echo flavor) zone.held) :=
    Reaches.emit (l := l.report .unterminatedEcho offset) h.reaches
      (Phase.next?_opening hp (.echo flavor)) flavor.width
  have hnoted (returnMode : Mode) :
      Reaches { (l.report .unterminatedEcho offset).emit flavor.startType flavor.width with
        echoClose := none, returnMode } (.opened (.echo flavor) zone.held) := hstart
  unfold Lexer.beginEcho
  refine .unclosedEcho (goTo_mode _ _) (goTo_echoClose _ _) ((hnoted _).goTo _) ?_
  rw [reports_goTo, ← h.report .unterminatedEcho offset]
  unfold reports
  rw [emit_errors]

theorem brace (hm : l.mode.Suits zone) : Phased s (l.brace s) := by
  unfold Lexer.brace
  split
  · exact h.phased_readText hp hm 1
  · exact h.bladeComment hp hm
  · rename_i flavor _
    split
    · exact h.phased_readText hp hm _
    · exact h.beginEcho hp hm flavor rfl
    · exact h.unclosedEcho hp flavor _

theorem atSign (hm : l.mode.Suits zone) : Phased s (l.atSign o s) := by
  unfold Lexer.atSign
  split
  · exact h.phased_readText hp hm _
  split
  · exact h.phased_readText hp hm _
  split
  · exact h.phased_readText hp hm _
  rename_i m hmatch
  have hlt : l.pos < m.nameEnd := s.lt_directiveAt hmatch
  split
  · exact (h.emitUntil_of_lt (Phase.next?_opening hp .verbatim) hlt rfl).enter rfl
  split
  · exact (h.emitUntil_of_lt (Phase.next?_opening hp .phpBlock) hlt rfl).enter rfl
  have hnext : p.next? .directive = some (.directive zone.held) := by
    rw [Phase.next?_of_continues hp rfl]
    cases zone <;> rfl
  have hnamed := h.emitUntil_of_lt hnext hlt rfl
  simp only
  split
  · rename_i hargs
    have hnoted (returnMode : Mode) :
        Quiet s { l.emitUntil .directive m.nameEnd with returnMode } (.directive zone.held) :=
      ⟨hnamed.reaches, hnamed.errors, hnamed.closed, hnamed.memo⟩
    refine (hnoted _).enter ⟨zone.held, rfl, ?_, ?_⟩
    · rw [goTo_eq, emitUntil_mode]
      exact hm.held
    · rw [goTo_pos, emitUntil_pos, Nat.max_eq_right hlt.le]
      exact s.byte?_skipHorizontalSpace hmatch hargs
  · exact phased_of_suits hnamed rfl (by rw [emitUntil_mode]; exact hm.held)

/-! Tags -/

theorem bracket : (l.emit .lessThan 1).Quiet s .bracket := by
  refine h.emit ?_ 1 rfl
  rw [Phase.next?_of_continues hp rfl]
  cases zone <;> rfl

theorem openStartTag (halpha : s.has Byte.isAlpha (l.pos + 1)) : Phased s (l.openStartTag s) := by
  have hlt : (l.emit .lessThan 1).pos < s.tagNameEnd (l.emit .lessThan 1).pos := by
    rw [emit_pos]
    exact s.lt_tagNameEnd halpha
  have hname : Phase.bracket.next? .tagName = some .named := rfl
  have hnoted (pendingRawText : Option RawText) :
      Quiet s { l.emit .lessThan 1 with pendingRawText } .bracket :=
    have hbracket := h.bracket hp
    ⟨hbracket.reaches, hbracket.errors, hbracket.closed, hbracket.memo⟩
  have hnamed (pendingRawText : Option RawText) :=
    (hnoted pendingRawText).emitUntil_of_lt hname hlt rfl
  unfold Lexer.openStartTag
  simp only
  split
  · obtain ⟨q, hq, hzone⟩ := (hnamed _).genericArgs
    exact hq.phased_goTo hzone rfl
  · exact (hnamed _).phased_goTo rfl rfl

theorem openClosingTag (halpha : s.has Byte.isAlpha (l.pos + 2)) :
    Phased s (l.openClosingTag s) := by
  have hslash : Phase.bracket.next? .slash = some .slash := rfl
  have hname : Phase.slash.next? .tagName = some (.between .closingTag) := rfl
  have hlt : ((l.emit .lessThan 1).emit .slash 1).pos <
      s.tagNameEnd ((l.emit .lessThan 1).emit .slash 1).pos := by
    rw [emit_pos, emit_pos]
    exact s.lt_tagNameEnd halpha
  unfold Lexer.openClosingTag
  simp only
  exact (((h.bracket hp).emit hslash 1 rfl).emitUntil_of_lt hname hlt rfl).enter rfl

theorem markup (hb : s.byte? l.pos = some Byte.lessThan) (hdata : l.mode = .data) :
    Phased s (l.markup s) := by
  have hm : l.mode.Suits zone := by
    rw [hdata]
    trivial
  have hfits := s.fits_markupStart (s.isBoundary_of_ascii hb (by decide))
  unfold Lexer.markup
  cases hstart : s.markupStart l.pos with rw [hstart] at hfits
  | comment => exact h.comment hp hdata
  | declaration kind terminator =>
      exact h.declaration hp hdata (s.lt_size_of_byte? hb)
        (Source.terminator?_of_markupStart hstart)
  | php width => exact (h.opens hp .phpTag width).enter rfl
  | closingTag => exact h.openClosingTag hp hfits.2
  | startTag => exact h.openStartTag hp hfits
  | text => exact h.phased_readText hp hm 1

theorem data (hdata : l.mode = .data) (hb : s.byte? l.pos = some b) : Phased s (l.data o s b) := by
  have hm : l.mode.Suits zone := by
    rw [hdata]
    trivial
  unfold Lexer.data
  split
  · rename_i hlt
    subst hlt
    exact h.markup hp hb hdata
  split
  · exact h.brace hp hm
  split
  · exact h.atSign hp hm
  · exact h.phased_readText hp hm _

end Between

section StartTag

variable (h : l.Quiet s p) (hp : p.zone? = some .startTag)
include h hp

theorem whitespace (stop : Nat) : ∃ q,
    (l.emitUntil .whitespace stop).Quiet s q ∧ q.zone? = some .startTag := by
  obtain ⟨q, hnext, hq⟩ := Phase.next?_whitespace hp
  rcases h.emitUntil hnext stop rfl with h' | h'
  · exact ⟨p, h', hp⟩
  · exact ⟨q, h', hq⟩

theorem beforeAttributeName (hm : l.mode = .beforeAttributeName) :
    Phased s (l.beforeAttributeName o s b) := by
  have hsuits : l.mode.Suits .startTag := by
    rw [hm]
    rfl
  have hend {kind : TokenType} (hk : kind = .greaterThan ∨ kind = .selfClose) (n : Nat) :
      (l.emit kind n).Quiet s (.between .content) := by
    rcases hk with rfl | rfl
    all_goals
      refine h.emit ?_ n rfl
      rw [Phase.next?_of_continues hp rfl]
      rfl
  have hforgotten {l' : Lexer} {q : Phase} (h' : l'.Quiet s q) :
      Quiet s { l' with pendingRawText := none } q := ⟨h'.reaches, h'.errors, h'.closed, h'.memo⟩
  unfold Lexer.beforeAttributeName
  split
  · obtain ⟨q, hq, hzone⟩ := h.whitespace hp (s.skipSpaces l.pos)
    exact phased_of_suits hq hzone (by rwa [emitUntil_mode])
  split
  · have hclosed := hend (.inl rfl) 1
    unfold enterContent
    split
    · exact (hforgotten hclosed).phased_goTo rfl rfl
    · exact hclosed.phased_goTo rfl trivial
  split
  · exact (hforgotten (hend (.inr rfl) 2)).phased_goTo rfl trivial
  split
  · exact (hforgotten h).phased_goTo hp trivial
  split
  · exact h.brace hp hsuits
  split
  · exact h.atSign hp hsuits
  split
  · exact h.phased_readText hp hsuits 1
  · exact h.phased_goTo hp rfl

theorem attributeName (hlt : l.pos < s.size) : Phased s (l.attributeName s) := by
  have hnext : p.next? .attributeName = some .attributeNamed := by
    rw [Phase.next?_of_continues hp rfl]
    rfl
  have hstop : l.pos < s.attributeNameEnd (l.pos + 1) := (s.attributeNameEnd_bounds hlt).1
  unfold Lexer.attributeName
  exact (h.emitUntil_of_lt hnext hstop rfl).enter rfl

end StartTag

theorem afterAttributeName (h : l.Quiet s .attributeNamed) :
    Phased s (l.afterAttributeName s) := by
  have hspaced : Phase.attributeNamed.next? .whitespace = some .attributeSpaced := rfl
  have hnamed : Phase.attributeNamed.next? .equals = some .equals := rfl
  have hequals : Phase.attributeSpaced.next? .equals = some .equals := rfl
  unfold Lexer.afterAttributeName
  simp only
  split
  · rcases h.emitUntil hspaced (s.skipSpaces l.pos) rfl with h' | h'
    · exact (h'.emit hnamed 1 rfl).enter rfl
    · exact (h'.emit hequals 1 rfl).enter rfl
  · exact h.phased_goTo rfl rfl

theorem beforeAttributeValue (h : l.Quiet s .equals) : Phased s (l.beforeAttributeValue s) := by
  have hspaced : Phase.equals.next? .whitespace = some .equalsSpaced := rfl
  have hspace := h.emitUntil hspaced (s.skipSpaces l.pos) rfl
  unfold Lexer.beforeAttributeValue
  simp only
  split
  · exact h.phased_goTo rfl rfl
  split
  · rename_i b _ _
    have hquoted : ((l.emitUntil .whitespace (s.skipSpaces l.pos)).emit .quote 1).Quiet s .quoted :=
      hspace.elim (fun h' => h'.emit rfl 1 rfl) fun h' => h'.emit rfl 1 rfl
    exact hquoted.enter rfl
  split
  · exact h.phased_goTo rfl rfl
  · rcases hspace with h' | h'
    · exact h'.enter (.inl rfl)
    · exact h'.enter (.inr rfl)

theorem unquotedValue (h : l.Quiet s .equals ∨ l.Quiet s .equalsSpaced) :
    Phased s (l.attributeValue o s none) := by
  have hnamed : Phase.equals.next? .attributeValue = some (.between .startTag) := rfl
  have hspaced : Phase.equalsSpaced.next? .attributeValue = some (.between .startTag) := rfl
  have hread {l' : Lexer} (h' : l'.Quiet s .equals ∨ l'.Quiet s .equalsSpaced) (stop : Nat) : ∃ q,
      (l'.emitUntil .attributeValue stop).Quiet s q ∧ q.zone? = some .startTag := by
    rcases h' with h' | h'
    · exact (h'.emitUntil hnamed stop rfl).elim (fun h'' => ⟨_, h'', rfl⟩) fun h'' => ⟨_, h'', rfl⟩
    · exact (h'.emitUntil hspaced stop rfl).elim (fun h'' => ⟨_, h'', rfl⟩) fun h'' => ⟨_, h'', rfl⟩
  have hnoted (valueArgsUnclosed : Bool) {memo : ScanMemo} (hmemo : memo.Sound s) :
      Quiet s { l with valueArgsUnclosed, memo } .equals ∨
        Quiet s { l with valueArgsUnclosed, memo } .equalsSpaced :=
    h.imp (fun h => ⟨h.reaches, h.errors, h.closed, hmemo⟩)
      fun h => ⟨h.reaches, h.errors, h.closed, hmemo⟩
  have hmemo : l.memo.Sound s := h.elim memo memo
  unfold Lexer.attributeValue
  simp only [Option.isNone_none, if_true]
  obtain ⟨q, hq, hzone⟩ := hread (hnoted _ (s.valueEnd_of_sound o.directives none hmemo _ l.pos)) _
  exact hq.phased_goTo hzone rfl

theorem quotedValue (h : l.Quiet s .quoted) (q : UInt8) (hlt : l.pos < s.size) :
    Phased s (l.attributeValue o s (some q)) := by
  have hvalue : Phase.quoted.next? .attributeValue = some .quotedValue := rfl
  unfold Lexer.attributeValue
  simp only [Option.isNone_some, if_false, Bool.false_eq_true]
  generalize hfound : s.valueEnd o.directives (some q) l.valueArgsUnclosed l.memo l.pos = found
  have hnoted : Quiet s { l with
      valueArgsUnclosed := found.argsUnclosed, memo := found.memo } .quoted := by
    refine ⟨h.reaches, h.errors, h.closed, ?_⟩
    rw [← hfound]
    exact s.valueEnd_of_sound o.directives (some q) h.memo _ _
  split
  · rcases hnoted.emitUntil hvalue found.stop rfl with h' | h'
    · have hquote : Phase.quoted.next? .quote = some (.between .startTag) := rfl
      exact (h'.emit hquote 1 rfl).phased_goTo rfl rfl
    · have hquote : Phase.quotedValue.next? .quote = some (.between .startTag) := rfl
      exact (h'.emit hquote 1 rfl).phased_goTo rfl rfl
  · rename_i hopen
    have hstop : found.stop = s.size := by
      subst hfound
      exact s.stop_valueEnd _ _ _ _ (by simpa using hopen)
    have hread := hnoted.emitUntil_of_lt hvalue (hlt.trans_eq hstop.symm) rfl
    refine .ended (Ended.goTo ⟨hread.reaches.report _ _, rfl, ?_, hread.report _ _⟩ _)
    rw [report_pos, emitUntil_pos, hstop]
    exact Nat.le_max_right _ _

/-! The other modes -/

theorem closingTag (h : l.Quiet s (.between .closingTag)) (hm : l.mode = .closingTag) :
    Phased s (l.closingTag s b) := by
  have hstay {l' : Lexer} (h' : l'.Quiet s (.between .closingTag)) (hm' : l'.mode = .closingTag) :
      Phased s l' := by
    refine .reading h' ?_
    unfold Fits
    rw [hm']
  have hspace : (Phase.between .closingTag).next? .whitespace = some (.between .closingTag) := rfl
  have hend : (Phase.between .closingTag).next? .greaterThan = some (.between .content) := rfl
  unfold Lexer.closingTag
  split
  · have hread := h.emitUntil hspace (s.skipSpaces l.pos) rfl
    exact hstay (hread.elim id id) (by rw [emitUntil_mode, hm])
  split
  · exact (h.emit hend 1 rfl).phased_goTo rfl trivial
  split
  · have hforgotten : Quiet s { l with pendingRawText := none } (.between .closingTag) :=
      ⟨h.reaches, h.errors, h.closed, h.memo⟩
    exact hforgotten.phased_goTo rfl trivial
  · exact hstay ((h.readText rfl _).elim id id) hm

theorem rawText (h : l.Quiet s p) (hp : p.zone? = some .content) {raw : RawText}
    (hm : l.mode = .rawText raw) : Phased s (l.rawText o s raw b) := by
  have hsuits : l.mode.Suits .content := by
    rw [hm]
    rfl
  have hslash : Phase.bracket.next? .slash = some .slash := rfl
  have hname : Phase.slash.next? .tagName = some (.between .closingTag) := rfl
  unfold Lexer.rawText
  split
  · exact (((h.bracket hp).emit hslash 1 rfl).emit hname _ rfl).enter rfl
  split
  · exact h.brace hp hsuits
  split
  · exact h.atSign hp hsuits
  · exact h.phased_readText hp hsuits _

theorem echoContent {flavor : EchoFlavor} (h : l.Quiet s (.opened (.echo flavor) zone))
    (hm : l.returnMode.Suits zone) (hclose : l.echoClose.isSome) :
    Phased s (l.echoContent s flavor) := by
  have htaken : Quiet s { l with echoClose := none } (.opened (.echo flavor) zone) :=
    ⟨h.reaches, h.errors, h.closed, h.memo⟩
  obtain ⟨stop, hstop⟩ := Option.isSome_iff_exists.1 hclose
  unfold Lexer.echoContent
  simp only [hstop]
  rw [emit_returnMode, emitUntil_returnMode]
  exact (htaken.closes stop flavor.width).phased_goTo rfl hm

theorem directiveArgs (h : l.Quiet s (.directive zone)) (hm : l.returnMode.Suits zone)
    (hparen : s.byte? (s.skipHorizontalSpace l.pos) = some Byte.openParen) :
    Phased s (l.directiveArgs s) := by
  have hspace : (Phase.directive zone).next? .whitespace = some (.directiveSpaced zone) := rfl
  have hmode : (l.emitUntil .whitespace (s.skipHorizontalSpace l.pos)).returnMode =
      l.returnMode := by
    rw [emitUntil_returnMode]
  have hle : l.pos ≤ s.skipHorizontalSpace l.pos := s.le_skipWhile _ _
  have hpos : (l.emitUntil .whitespace (s.skipHorizontalSpace l.pos)).pos =
      s.skipHorizontalSpace l.pos := by
    rw [emitUntil_pos, Nat.max_eq_right hle]
  have hread : ∃ q, (l.emitUntil .whitespace (s.skipHorizontalSpace l.pos)).Quiet s q ∧
      q.next? .directiveArgs = some (.between zone) :=
    (h.emitUntil hspace _ rfl).elim (fun h' => ⟨_, h', rfl⟩) fun h' => ⟨_, h', rfl⟩
  unfold Lexer.directiveArgs
  simp only
  generalize l.emitUntil .whitespace (s.skipHorizontalSpace l.pos) = l' at hmode hpos hread ⊢
  obtain ⟨q, hq, hnext⟩ := hread
  rw [← hpos] at hparen ⊢
  have hlt : l'.pos < s.size := s.lt_size_of_byte? hparen
  obtain ⟨hfresh, hmemo⟩ : (s.balancedParens l'.memo .php 0 l'.pos).1 =
      (s.balancedParens .empty .php 0 l'.pos).1 ∧
        (s.balancedParens l'.memo .php 0 l'.pos).2.Sound s :=
    s.balancedParens_of_sound hq.memo (ScanMemo.sound_empty s) 0 l'.pos
  have htoken (stop : Nat) : (⟨.directiveArgs, l'.pos, stop⟩ : Token).unclosed? s =
      if (s.balancedParens l'.memo .php 0 l'.pos).1.2 then none
      else some .unterminatedArguments := by
    rw [hfresh]
    rfl
  have hlearned : Quiet s { l' with memo := (s.balancedParens l'.memo .php 0 l'.pos).2 } q :=
    ⟨hq.reaches, hq.errors, hq.closed, hmemo⟩
  split
  · rename_i hclosed
    have hargs := hlearned.emitUntil_of_lt hnext (s.lt_balancedParens hclosed)
      ((htoken _).trans (if_pos hclosed))
    rw [emitUntil_returnMode]
    exact hargs.phased_goTo rfl (hmode ▸ hm)
  · rename_i hopen
    rw [s.stop_balancedParens (by simpa using hopen)]
    refine .ended (Ended.goTo ((hlearned.reaches.report _ _).ended hnext hlt rfl ?_) _)
    rw [hlearned.report, report_pos, htoken, if_neg hopen]
    rfl

theorem verbatim (h : l.Quiet s (.opened .verbatim .content)) (hlt : l.pos < s.size) :
    Phased s (l.verbatim s) := by
  unfold Lexer.verbatim
  split
  · exact (h.closes _ 12).phased_goTo rfl trivial
  · exact h.phased_unclosed rfl (.inr hlt) l.pos

theorem phpBlock (h : l.Quiet s (.opened .phpBlock .content)) (hlt : l.pos < s.size) :
    Phased s (l.phpBlock s) := by
  have hmemo : (s.findOutsideCode l.memo .php (ascii "@endphp") l.pos).2.Sound s :=
    (s.findOutsideCode_of_sound h.memo h.memo _ _).2
  unfold Lexer.phpBlock
  split
  all_goals
    rename_i memo heq
    rw [heq] at hmemo
    have hnoted : Quiet s { l with memo } (.opened .phpBlock .content) :=
      ⟨h.reaches, h.errors, h.closed, hmemo⟩
  · exact (hnoted.closes _ 7).phased_goTo rfl trivial
  · exact hnoted.phased_unclosed rfl (.inr hlt) l.pos

theorem phpTag (h : l.Quiet s (.opened .phpTag .content)) (hlt : l.pos < s.size) :
    Phased s (l.phpTag s) := by
  have hmemo : (s.findOutsideCode l.memo .php (ascii "?>") l.pos).2.Sound s :=
    (s.findOutsideCode_of_sound h.memo h.memo _ _).2
  unfold Lexer.phpTag
  split
  all_goals
    rename_i memo heq
    rw [heq] at hmemo
    have hnoted : Quiet s { l with memo } (.opened .phpTag .content) :=
      ⟨h.reaches, h.errors, h.closed, hmemo⟩
  · exact (hnoted.closes _ 2).phased_goTo rfl trivial
  · exact .ended (hnoted.reaches.unclosed hlt hnoted.reports_eq_nil)

end Quiet

theorem Reaches.unclosedEcho {flavor : EchoFlavor} (h : l.Reaches (.opened (.echo flavor) zone))
    (hclose : l.echoClose = none) (hr : l.reports = [.unterminatedEcho]) :
    Phased s (l.echoContent s flavor) := by
  have htaken : Reaches { l with echoClose := none } (.opened (.echo flavor) zone) := h
  obtain ⟨q, hended⟩ := htaken.unclosed_ahead (s := s) rfl hr
  unfold Lexer.echoContent
  simp only [hclose]
  exact .ended (hended.goTo _)

theorem Phased.read (h : Phased s l) (hb : s.byte? l.pos = some b) : Phased s (l.read o s b) := by
  have hlt : l.pos < s.size := s.lt_size_of_byte? hb
  cases h with
  | @reading p h hfits =>
      unfold Fits at hfits
      unfold Lexer.read
      cases hm : l.mode with rw [hm] at hfits
      | data =>
          obtain ⟨zone, hp, -⟩ := hfits
          exact h.data hp hm hb
      | beforeAttributeName =>
          obtain ⟨zone, hp, rfl⟩ := hfits
          exact h.beforeAttributeName hp hm
      | attributeName =>
          obtain ⟨zone, hp, rfl⟩ := hfits
          exact h.attributeName hp hlt
      | afterAttributeName =>
          subst hfits
          exact h.afterAttributeName
      | beforeAttributeValue =>
          subst hfits
          exact h.beforeAttributeValue
      | attributeValueQuoted quote =>
          subst hfits
          exact h.quotedValue quote hlt
      | attributeValueUnquoted =>
          refine Quiet.unquotedValue ?_
          rcases hfits with rfl | rfl
          · exact .inl h
          · exact .inr h
      | closingTag =>
          subst hfits
          exact h.closingTag hm
      | echoContent flavor =>
          obtain ⟨zone, rfl, hsuits, hclose⟩ := hfits
          exact h.echoContent hsuits hclose
      | directiveArgs =>
          obtain ⟨zone, rfl, hsuits, hparen⟩ := hfits
          exact h.directiveArgs hsuits hparen
      | rawText raw =>
          obtain ⟨zone, hp, rfl⟩ := hfits
          exact h.rawText hp hm
      | verbatim =>
          subst hfits
          exact h.verbatim hlt
      | phpBlock =>
          subst hfits
          exact h.phpBlock hlt
      | phpTag =>
          subst hfits
          exact h.phpTag hlt
  | unclosedEcho hm hclose hreaches hr =>
      unfold Lexer.read
      rw [hm]
      exact hreaches.unclosedEcho hclose hr
  | ended hended => exact absurd hlt (Nat.not_lt_of_le hended.stop)

theorem Phased.step {l' : Lexer} (h : Phased s l) (ho : o.lexerExtensions = [])
    (hb : s.byte? l.pos = some b) (hstep : l.step o s b = .ok l') : Phased s l' :=
  eq_read_of_step ho hstep ▸ h.read hb

theorem Fits.isFinal (h : l.Fits s p) : p.isFinal := by
  unfold Fits at h
  cases hm : l.mode with rw [hm] at h
  | data | beforeAttributeName | attributeName | rawText =>
      obtain ⟨zone, hp, -⟩ := h
      exact Phase.isFinal_of_zone? hp
  | attributeValueUnquoted => rcases h with rfl | rfl <;> rfl
  | echoContent | directiveArgs =>
      obtain ⟨zone, rfl, -⟩ := h
      rfl
  | _ =>
      subst h
      rfl

theorem Fits.unclosed?_eq_none (h : l.Fits s p) (hecho : l.echoClose = none) :
    p.unclosed? = none := by
  unfold Fits at h
  cases hm : l.mode with rw [hm] at h
  | data | beforeAttributeName | attributeName | rawText =>
      obtain ⟨zone, hp, -⟩ := h
      exact Phase.unclosed?_of_zone? hp
  | attributeValueUnquoted => rcases h with rfl | rfl <;> rfl
  | echoContent =>
      obtain ⟨zone, -, -, hsome⟩ := h
      rw [hecho] at hsome
      cases hsome
  | directiveArgs =>
      obtain ⟨zone, rfl, -⟩ := h
      rfl
  | _ =>
      subst h
      rfl

/-- Wherever a run ends, the source may end there, and what is left open has been reported. -/
theorem Phased.exists_ended (h : Phased s l) (hr : Ready s l) (hpos : l.pos = s.size) :
    ∃ p, l.Ended s p := by
  cases h with
  | @reading p h hfits =>
      have hecho : l.echoClose = none := by
        rw [Option.eq_none_iff_forall_ne_some]
        intro c hc
        obtain ⟨flavor, -, hle, hstarts⟩ := hr.echo c hc
        rw [s.startsWith_eq_false (by cases flavor <;> decide) (hpos ▸ hle)] at hstarts
        cases hstarts
      refine ⟨p, h.reaches, hfits.isFinal, hpos.ge, ?_⟩
      rw [h.unclosed?_eq_none (hfits.unclosed?_eq_none hecho)]
      exact h.reports_eq_nil
  | unclosedEcho hm hclose hreaches hreports => exact ⟨_, hreaches, rfl, hpos.ge, hreports⟩
  | ended hended => exact ⟨_, hended⟩

theorem phased_initial (s : Source) : Phased s initial :=
  .reading ⟨rfl, rfl, nofun, ScanMemo.sound_empty s⟩ ⟨.content, rfl, trivial⟩

theorem Reachable.phased (ho : o.lexerExtensions = []) (h : Reachable o s l) : Phased s l := by
  induction h with
  | initial => exact phased_initial s
  | step l l' _ hstep ih =>
      obtain ⟨b, hb, hstep⟩ := hstep
      exact ih.step ho hb hstep

theorem Reachable.byte?_of_directiveArgs (ho : o.lexerExtensions = []) (h : Reachable o s l)
    (hm : l.mode = .directiveArgs) (hlt : l.pos < s.size) :
    s.byte? (s.skipHorizontalSpace l.pos) = some Byte.openParen := by
  cases h.phased ho with
  | reading _ hfits =>
      unfold Fits at hfits
      rw [hm] at hfits
      obtain ⟨_, -, -, hparen⟩ := hfits
      exact hparen
  | unclosedEcho hecho => cases hecho.symm.trans hm
  | ended hended => exact absurd hlt (Nat.not_lt_of_le hended.stop)

end Lexer

variable {o : ParseOptions} {s : Source} {lexed : Lexed}

/-- Without extensions the phases lead to the end of the source, where nothing is reported but what
is left open there: a construct without its end, or a last token that lacks its own. -/
theorem exists_phase_of_lex (ho : o.lexerExtensions = []) (h : lex o s = .ok lexed) : ∃ p : Phase,
    (Phase.between .content).after? (lexed.tokens.toList.map (·.kind)) = some p ∧ p.isFinal ∧
      lexed.errors.toList.map (·.kind) =
        (p.unclosed?.or (lexed.tokens.back?.bind (·.unclosed? s))).toList := by
  obtain ⟨l, hr, hl, hpos, rfl⟩ := exists_lexer_of_lex (Lexer.phased_initial s)
    (fun _ _ _ _ h hb hstep => h.step ho hb hstep) h
  obtain ⟨p, hended⟩ := hl.exists_ended hr hpos
  have htokens : l.flushText.tokens.toList = l.tokens.toList ++ l.pendingText := by
    rw [Lexer.flushText_eq]
    exact Array.toList_appendList
  have herrors : l.flushText.errors = l.errors := by rw [Lexer.flushText_eq]
  refine ⟨p, ?_, hended.final, ?_⟩
  · rw [htokens]
    exact hended.reaches
  · rw [herrors, ← Array.getLast?_toList, htokens]
    exact hended.reports

theorem accepts_of_lex (ho : o.lexerExtensions = []) (h : lex o s = .ok lexed) :
    (Phase.between .content).Accepts (lexed.tokens.toList.map (·.kind)) := by
  obtain ⟨p, hp, hfinal, -⟩ := exists_phase_of_lex ho h
  exact ⟨p, hp, hfinal⟩

/-- At most one construct is reported. -/
theorem size_errors_le_one (ho : o.lexerExtensions = []) (h : lex o s = .ok lexed) :
    lexed.errors.size ≤ 1 := by
  obtain ⟨p, -, -, herrors⟩ := exists_phase_of_lex ho h
  have hlength := congrArg List.length herrors
  rw [List.length_map, Array.length_toList] at hlength
  rw [hlength]
  exact Option.length_toList_le

end BladeTree
