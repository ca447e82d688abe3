import BladeTree.Proofs.Token.EchoEnd
import BladeTree.Proofs.Token.Lexer.Apart
import BladeTree.Proofs.Token.Lexer.Reachable

namespace BladeTree

/-- The `i`th token, which is content, follows the start of an echo of the flavor. No delimiter
begins in it, and the end of the flavor comes next unless the source is over. -/
structure EchoContent (s : Source) (ts : List Token) (i : Nat) (t : Token) (f : EchoFlavor) :
    Prop where
  opened : ∃ j u, i = j + 1 ∧ ts[j]? = some u ∧ u.kind = f.startType
  bare : s.BareEcho f t.start t.stop
  closed : t.stop < s.size → ∃ u, ts[i + 1]? = some u ∧ u.kind = f.endType

/-- All content of echoes is enclosed by the delimiters of its flavor. -/
def EchoesRead (s : Source) (ts : List Token) : Prop :=
  ∀ i t, ts[i]? = some t → t.kind = .echoContent → ∃ f, EchoContent s ts i t f

variable {o : ParseOptions} {s : Source} {f : EchoFlavor} {ts us : List Token} {t u : Token}
  {i : Nat}

theorem EchoContent.append (h : EchoContent s ts i t f) (us : List Token) :
    EchoContent s (ts ++ us) i t f := by
  have hmore {j : Nat} {v : Token} (hv : ts[j]? = some v) : (ts ++ us)[j]? = some v := by
    rw [List.getElem?_append_left (List.getElem?_eq_some_iff.1 hv).1, hv]
  refine ⟨?_, h.bare, fun hlt => ?_⟩
  · obtain ⟨j, v, hj, hv, hk⟩ := h.opened
    exact ⟨j, v, hj, hmore hv, hk⟩
  · obtain ⟨v, hv, hk⟩ := h.closed hlt
    exact ⟨v, hmore hv, hk⟩

namespace EchoesRead

theorem append (h : EchoesRead s ts) (hus : ∀ t ∈ us, t.kind ≠ .echoContent) :
    EchoesRead s (ts ++ us) := by
  intro i t ht hk
  by_cases hi : i < ts.length
  · rw [List.getElem?_append_left hi] at ht
    obtain ⟨f, hf⟩ := h i t ht hk
    exact ⟨f, hf.append us⟩
  · rw [List.getElem?_append_right (Nat.le_of_not_lt hi)] at ht
    exact absurd hk (hus t (List.mem_of_getElem? ht))

theorem content (h : EchoesRead s (ts ++ [u])) (hu : u.kind = f.startType)
    (hbare : s.BareEcho f t.start t.stop)
    (hus : ∀ v ∈ us, v.kind ≠ .echoContent)
    (hend : t.stop < s.size → ∃ v, us[0]? = some v ∧ v.kind = f.endType) :
    EchoesRead s (ts ++ [u] ++ t :: us) := by
  intro i v hv hk
  rcases lt_trichotomy i (ts ++ [u]).length with hi | rfl | hi
  · rw [List.getElem?_append_left hi] at hv
    obtain ⟨g, hg⟩ := h i v hv hk
    exact ⟨g, hg.append _⟩
  · rw [List.getElem?_append_right le_rfl, Nat.sub_self] at hv
    cases hv
    refine ⟨f, ⟨ts.length, u, by simp, by simp, hu⟩, hbare, fun hlt => ?_⟩
    obtain ⟨v, hv, hkind⟩ := hend hlt
    refine ⟨v, ?_, hkind⟩
    rw [List.getElem?_append_right (Nat.le_succ _)]
    simpa using hv
  · rw [List.getElem?_append_right hi.le] at hv
    obtain ⟨k, hk'⟩ : ∃ k, i - (ts ++ [u]).length = k + 1 :=
      ⟨i - (ts ++ [u]).length - 1, by omega⟩
    rw [hk', List.getElem?_cons_succ] at hv
    exact absurd hk (hus v (List.mem_of_getElem? hv))

end EchoesRead

def Token.between (kind : TokenType) (start stop : Nat) : List Token :=
  if start < stop then [⟨kind, start, stop⟩] else []

/-- The tokens from the end of an opener on. -/
def EchoEnd.tokens (s : Source) (f : EchoFlavor) (start : Nat) : EchoEnd → List Token
  | .closed stop => Token.between .echoContent start stop ++ [⟨f.endType, stop, stop + f.width⟩]
  | _ => Token.between .echoContent start s.size

def EchoEnd.next (s : Source) (f : EchoFlavor) : EchoEnd → Nat
  | .closed stop => stop + f.width
  | _ => s.size

def EchoEnd.errors (start : Nat) : EchoEnd → List LexerError
  | .unterminated => [⟨.unterminatedEcho, start⟩]
  | _ => []

theorem EchoesRead.ends (h : EchoesRead s (ts ++ [u])) (hu : u.kind = f.startType) {start : Nat}
    (hend : s.findEchoEnd f start ≠ .degraded) :
    EchoesRead s (ts ++ [u] ++ (s.findEchoEnd f start).tokens s f start) := by
  have hfits : (s.findEchoEnd f start).Fits s f start := s.fits_findEchoEnd f start
  have hother : f.endType ≠ .echoContent := by cases f <;> nofun
  cases hfound : s.findEchoEnd f start with rw [hfound] at hfits
  | closed stop =>
      obtain ⟨-, -, hbare⟩ := hfits
      have hends : ∀ v ∈ [(⟨f.endType, stop, stop + f.width⟩ : Token)], v.kind ≠ .echoContent :=
        List.forall_mem_singleton.2 hother
      simp only [EchoEnd.tokens, Token.between]
      split
      · exact h.content hu hbare hends fun _ => ⟨_, rfl, rfl⟩
      · exact h.append hends
  | degraded => exact absurd hfound hend
  | unterminated =>
      simp only [EchoEnd.tokens, Token.between]
      split
      · exact h.content hu (fun i hi _ => hfits i hi) (List.forall_mem_nil _)
          fun hlt => absurd hlt (lt_irrefl _)
      · exact h.append (List.forall_mem_nil _)

theorem Mode.Resumes.ne_echoContent {mode : Mode} (h : mode.Resumes) : mode ≠ .echoContent f := by
  rintro rfl
  exact h

namespace Lexer

variable {l l' l₁ l₂ : Lexer} {b : UInt8}

/-- From `l` on the opener of an echo has been read, and `l'` knows where the echo ends. -/
structure Begins (s : Source) (l : Lexer) (f : EchoFlavor) (l' : Lexer) : Prop where
  mode : l'.mode = .echoContent f
  returnMode : l'.returnMode = l.mode
  pendingRawText : l'.pendingRawText = l.pendingRawText
  textStart : l'.textStart = none
  pos : l'.pos = l.pos + f.width
  tokens : l'.tokens = l.tokens ++ (l.pendingText ++ [⟨f.startType, l.pos, l.pos + f.width⟩])
  errors : l'.errors = l.errors ++ (s.findEchoEnd f (l.pos + f.width)).errors l.pos
  close : s.findEchoEnd f (l.pos + f.width) = l'.echoClose.elim .unterminated .closed

theorem begins_beginEcho {close : Option Nat} {errors : Array LexerError}
    (h : s.findEchoEnd f (l.pos + f.width) = close.elim .unterminated .closed)
    (herrors : errors = l.errors ++ (s.findEchoEnd f (l.pos + f.width)).errors l.pos) :
    Begins s l f ({ l with errors }.beginEcho f close) where
  mode := by simp [beginEcho]
  returnMode := by simp [beginEcho, goTo_eq]
  pendingRawText := by simp [beginEcho, goTo_eq, emit_eq]
  textStart := by simp [beginEcho, goTo_eq]
  pos := by simp [beginEcho]
  tokens := by simp [beginEcho, goTo_eq, emit_eq, pendingText]
  errors := by simpa [beginEcho, goTo_eq, emit_eq] using herrors
  close := by simpa [beginEcho] using h

section Opener

variable (hopener : s.braceOpener? l.pos = some (.echo f))
include hopener

theorem brace_of_not_holdsEcho (h : ¬ s.HoldsEcho f (l.pos + f.width)) :
    l.brace s = l.readText f.width := by
  have hend : s.findEchoEnd f (l.pos + f.width) = .degraded := by
    rwa [s.holdsEcho_iff, not_not] at h
  simp only [brace, hopener, hend]

theorem begins_brace (h : s.HoldsEcho f (l.pos + f.width)) : Begins s l f (l.brace s) := by
  have hne : s.findEchoEnd f (l.pos + f.width) ≠ .degraded := (s.holdsEcho_iff f).1 h
  cases hend : s.findEchoEnd f (l.pos + f.width) with
  | closed stop =>
      simp only [brace, hopener, hend]
      apply begins_beginEcho hend
      rw [hend]
      simp [EchoEnd.errors]
  | degraded => exact absurd hend hne
  | unterminated =>
      simp only [brace, hopener, hend]
      apply begins_beginEcho hend
      rw [hend]
      rfl

theorem byte?_of_opener : s.byte? l.pos = some Byte.openBrace :=
  s.byte?_of_braceOpener? (by rw [hopener]; rfl)

theorem read_of_opener (hm : l.mode.Resumes) : l.read o s Byte.openBrace = l.brace s := by
  have hbyte : s.byte? l.pos = some Byte.openBrace := byte?_of_opener hopener
  have hsome : (s.braceOpener? l.pos).isSome := by rw [hopener]; rfl
  cases hmode : l.mode with rw [hmode] at hm
  | data =>
      simp only [read, hmode]
      rfl
  | beforeAttributeName =>
      have hself : s.selfCloses l.pos = false := s.startsWith_cons_eq_false hbyte (by decide)
      simp only [read, hmode, beforeAttributeName, hself, hsome]
      rfl
  | rawText kind =>
      have hcloses : s.closesRawText kind l.pos = false := by
        have hstarts : s.startsWith l.pos (ascii "</") = false :=
          s.startsWith_cons_eq_false hbyte (by decide)
        simp [Source.closesRawText, hstarts]
      simp only [read, hmode, rawText, hcloses, hsome]
      rfl
  | _ => cases hm

theorem steps_brace (ho : o.lexerExtensions = []) (hm : l.mode.Resumes) :
    Steps o s l (l.brace s) := by
  refine ⟨Byte.openBrace, byte?_of_opener hopener, ?_⟩
  rw [step_eq_read ho, read_of_opener hopener hm]

end Opener

/-- From `l₁` on, where an echo that interrupted `l` has begun, the rest of it has been read. -/
structure Ends (s : Source) (l : Lexer) (f : EchoFlavor) (l₁ l' : Lexer) : Prop where
  mode : l'.mode = l.mode
  pendingRawText : l'.pendingRawText = l.pendingRawText
  textStart : l'.textStart = none
  tokens : l'.tokens = l₁.tokens ++ (s.findEchoEnd f l₁.pos).tokens s f l₁.pos
  errors : l'.errors = l₁.errors
  pos : l'.pos = (s.findEchoEnd f l₁.pos).next s f

theorem emitUntil_eq (kind : TokenType) {stop : Nat} (htext : l.textStart = none)
    (hle : l.pos ≤ stop) : l.emitUntil kind stop =
      { l with
        tokens := l.tokens ++ Token.between kind l.pos stop
        pos := stop } := by
  rcases Nat.eq_or_lt_of_le hle with rfl | hlt
  · rw [emitUntil_of_le kind le_rfl, Token.between, if_neg (lt_irrefl _)]
    simp
  · rw [emitUntil_of_lt kind hlt, Token.between, if_pos hlt, emit_eq, Nat.add_sub_cancel' hle]
    simp only [pendingText, htext, List.nil_append]

theorem ends_echoContent (h : Begins s l f l₁) (hle : l₁.pos ≤ s.size) :
    Ends s l f l₁ (l₁.echoContent s f) := by
  have hfound : s.findEchoEnd f l₁.pos = l₁.echoClose.elim .unterminated .closed := by
    rw [h.pos, h.close]
  have htext : l₁.textStart = none := h.textStart
  cases hclose : l₁.echoClose with
  | some stop =>
      rw [hclose, Option.elim_some] at hfound
      have hread := emitUntil_eq (l := { l₁ with echoClose := none }) .echoContent htext
        (s.le_findEchoEnd hfound)
      simp only [echoContent, hclose]
      rw [hread]
      simp only [emit_eq, goTo_eq, pendingText, htext]
      refine ⟨h.returnMode, h.pendingRawText, rfl, ?_, rfl, ?_⟩
      · rw [hfound]
        apply Array.toList_inj.1
        simp [EchoEnd.tokens]
      · rw [hfound]
        rfl
  | none =>
      rw [hclose, Option.elim_none] at hfound
      have hread := emitUntil_eq (l := { l₁ with echoClose := none }) .echoContent htext hle
      simp only [echoContent, hclose]
      rw [hread]
      simp only [goTo_eq, pendingText, htext]
      refine ⟨h.returnMode, h.pendingRawText, rfl, ?_, rfl, ?_⟩
      · rw [hfound]
        apply Array.toList_inj.1
        simp [EchoEnd.tokens]
      · rw [hfound]
        rfl

/-! A whole run -/

/-- The echoes before the position have been read, all but one whose content comes next. -/
structure ReadsEchoes (s : Source) (l : Lexer) : Prop where
  begun : ∀ f, l.mode = .echoContent f → ∃ l₀, l₀.mode.Resumes ∧ Begins s l₀ f l
  contents : EchoesRead s l.tokens.toList

theorem readsEchoes_initial : ReadsEchoes s initial := ⟨nofun, nofun⟩

namespace ReadsEchoes

theorem of_apart (h : ReadsEchoes s l) (ha : Apart l l') : ReadsEchoes s l' := by
  obtain ⟨added, htokens, hadded⟩ := ha.tokens
  refine ⟨fun f hf => absurd hf (ha.mode f), ?_⟩
  rw [htokens, Array.toList_appendList]
  exact h.contents.append hadded

theorem of_begins (h : ReadsEchoes s l) (hm : l.mode.Resumes) (hb : Begins s l f l') :
    ReadsEchoes s l' := by
  constructor
  · intro g hg
    obtain rfl : f = g := Mode.echoContent.inj (hb.mode.symm.trans hg)
    exact ⟨l, hm, hb⟩
  · rw [hb.tokens, Array.toList_appendList]
    refine h.contents.append fun t ht => ?_
    rcases List.mem_append.1 ht with ht | ht
    · exact pendingText_ne_echoContent t ht
    · cases List.mem_singleton.1 ht
      cases f <;> nofun

theorem of_ends (h : ReadsEchoes s l₁) (hm : l.mode.Resumes) (hb : Begins s l f l₁)
    (he : Ends s l f l₁ l₂) : ReadsEchoes s l₂ := by
  constructor
  · intro g hg
    rw [he.mode] at hg
    exact absurd hg hm.ne_echoContent
  · have hend : s.findEchoEnd f l₁.pos ≠ .degraded := by
      rw [hb.pos, hb.close]
      cases l₁.echoClose <;> nofun
    have hstarted : l₁.tokens.toList = l.tokens.toList ++ l.pendingText ++
        [⟨f.startType, l.pos, l.pos + f.width⟩] := by
      rw [hb.tokens, Array.toList_appendList, List.append_assoc]
    have hcontents := h.contents
    rw [hstarted] at hcontents
    rw [he.tokens, Array.toList_appendList, hstarted]
    exact hcontents.ends rfl hend

theorem read (h : ReadsEchoes s l) (hr : Ready s l) (hb : s.byte? l.pos = some b) :
    ReadsEchoes s (l.read o s b) := by
  by_cases hecho : ∃ f, l.mode = .echoContent f
  · obtain ⟨f, hf⟩ := hecho
    obtain ⟨l₀, hm, hbegins⟩ := h.begun f hf
    have hread : l.read o s b = l.echoContent s f := by simp only [Lexer.read, hf]
    rw [hread]
    exact h.of_ends hm hbegins (ends_echoContent hbegins hr.inside)
  by_cases hopens : l.mode.Resumes ∧ ∃ f, s.braceOpener? l.pos = some (.echo f)
  · obtain ⟨hm, f, hopener⟩ := hopens
    obtain rfl : b = Byte.openBrace := Option.some.inj (hb.symm.trans (byte?_of_opener hopener))
    rw [read_of_opener hopener hm]
    by_cases hholds : s.HoldsEcho f (l.pos + f.width)
    · exact h.of_begins hm (begins_brace hopener hholds)
    · rw [brace_of_not_holdsEcho hopener hholds]
      exact h.of_apart ((Apart.refl fun g => hm.ne_echoContent).readText _)
  · exact h.of_apart (apart_read hr (fun f hf => hecho ⟨f, hf⟩)
      fun hm f hf => hopens ⟨hm, f, hf⟩)

end ReadsEchoes
end Lexer

/-- The echoes among the tokens of a source are what its delimiters say. -/
structure Lexed.ReadsEchoes (o : ParseOptions) (s : Source) (lexed : Lexed) : Prop where
  /-- The start of an echo is emitted where its end comes before any other opener. -/
  starts : ∀ l f, Lexer.Reachable o s l → l.mode.Resumes → s.braceOpener? l.pos = some (.echo f) →
    ((⟨f.startType, l.pos, l.pos + f.width⟩ ∈ lexed.tokens ↔ s.HoldsEcho f (l.pos + f.width)) ∧
      (¬ s.HoldsEcho f (l.pos + f.width) →
        ∀ t ∈ lexed.tokens, t.start = l.pos → t.kind = .text))
  contents : EchoesRead s lexed.tokens.toList
  /-- The mode that an echo interrupts goes on behind the echo. -/
  resumes : ∀ l l₁ l₂ f, Lexer.Reachable o s l → l.mode.Resumes →
    s.braceOpener? l.pos = some (.echo f) → s.HoldsEcho f (l.pos + f.width) →
    Lexer.Steps o s l l₁ → Lexer.Steps o s l₁ l₂ →
      Lexer.Begins s l f l₁ ∧ Lexer.Ends s l f l₁ l₂

/-- Without extensions an opener begins an echo just when its end comes before any other opener, the
content of an echo holds no delimiter, and what the echo interrupted goes on behind it. -/
theorem exists_readsEchoes (ho : o.lexerExtensions = []) (s : Source) :
    ∃ lexed, lex o s = .ok lexed ∧ lexed.ReadsEchoes o s := by
  obtain ⟨lexed, hlex, -⟩ := exists_lex_of_nil ho s
  refine ⟨lexed, hlex, ⟨?_, ?_, ?_⟩⟩
  · intro l f hl hm hopener
    have hnext : Lexer.Reachable o s (l.brace s) :=
      hl.step _ _ (Lexer.steps_brace hopener ho hm)
    have htext (hnot : ¬ s.HoldsEcho f (l.pos + f.width)) :
        ∀ t ∈ lexed.tokens, t.start = l.pos → t.kind = .text := by
      have hread : Lexer.ReadAsText l.pos (l.brace s) := by
        rw [Lexer.brace_of_not_holdsEcho hopener hnot]
        exact hl.covered.readAsText ho (i := 0) f.width_pos
      exact hread.forall_tokens hnext hlex
    refine ⟨⟨fun hmem => ?_, fun hholds => ?_⟩, htext⟩
    · by_contra hnot
      have hkind : f.startType = .text := htext hnot _ hmem rfl
      cases f <;> cases hkind
    · have hbegins : Lexer.Begins s l f (l.brace s) := Lexer.begins_brace hopener hholds
      refine hnext.mem_tokens ?_ hlex
      rw [hbegins.tokens, ← Array.mem_toList_iff, Array.toList_appendList]
      exact List.mem_append_right _ (List.mem_append_right _ List.mem_cons_self)
  · have hstep (l l' : Lexer) (b : UInt8) (hr : Lexer.Ready s l) (h : Lexer.ReadsEchoes s l)
        (hb : s.byte? l.pos = some b) (hstep : l.step o s b = .ok l') :
        Lexer.ReadsEchoes s l' :=
      Lexer.eq_read_of_step ho hstep ▸ h.read hr hb
    obtain ⟨l, -, hreads, -, rfl⟩ := exists_lexer_of_lex Lexer.readsEchoes_initial hstep hlex
    rw [Lexer.flushText_eq, Array.toList_appendList]
    exact hreads.contents.append Lexer.pendingText_ne_echoContent
  · intro l l₁ l₂ f hl hm hopener hholds hfirst hsecond
    have hread : Lexer.Steps o s l (l.brace s) := Lexer.steps_brace hopener ho hm
    obtain rfl : l.brace s = l₁ := hread.unique hfirst
    have hbegins : Lexer.Begins s l f (l.brace s) := Lexer.begins_brace hopener hholds
    obtain ⟨b, hb, hstep⟩ := hsecond
    have hend : (l.brace s).read o s b = (l.brace s).echoContent s f := by
      simp only [Lexer.read, hbegins.mode]
    obtain rfl := (Lexer.eq_read_of_step ho hstep).trans hend
    have hle : (l.brace s).pos ≤ s.size := (s.lt_size_of_byte? hb).le
    exact ⟨hbegins, Lexer.ends_echoContent hbegins hle⟩

/-- One echo between attributes, one that another cuts off and one without an end. -/
theorem exists_readsEchoes_mixed :
    let s := Source.ofString
      "<a \x7b!! $x !!\x7d>\x7b\x7b a \x7b\x7b\x7b b \x7d\x7d\x7d\x7b\x7b c"
    ParseOptions.standard.lexerExtensions = [] ∧
      ∃ lexed, lex .standard s = .ok lexed ∧ lexed.ReadsEchoes .standard s :=
  ⟨rfl, exists_readsEchoes rfl _⟩

end BladeTree
