import BladeTree.Proofs.Token.Stop
import BladeTree.Proofs.Token.Tiling
import Mathlib.Logic.Relation

namespace BladeTree

def Mode.Resumes : Mode → Prop
  | .data | .beforeAttributeName | .rawText _ => True
  | _ => False

theorem Mode.Resumes.ne_quoted {mode : Mode} (h : mode.Resumes) (q : UInt8) :
    mode ≠ .attributeValueQuoted q := by
  rintro rfl
  exact h

def TokenType.OpensTag : TokenType → Prop
  | .lessThan | .slash => True
  | _ => False

theorem findSomeM?_eq_iff {ε α β : Type} {f : α → Except ε (Option β)} {xs : List α}
    {r : Except ε (Option β)} (hr : r ≠ .ok none) :
    xs.findSomeM? f = r ↔
      ∃ before x after, xs = before ++ x :: after ∧ (∀ y ∈ before, f y = .ok none) ∧ f x = r := by
  induction xs with
  | nil => exact iff_of_false (fun h => hr h.symm) fun ⟨_, _, _, h, _⟩ => by simp at h
  | cons x xs ih =>
      constructor
      · intro h
        by_cases hx : f x = .ok none
        · rw [List.findSomeM?_cons, hx] at h
          obtain ⟨before, y, after, rfl, hbefore, hy⟩ := ih.1 h
          exact ⟨x :: before, y, after, rfl, List.forall_mem_cons.2 ⟨hx, hbefore⟩, hy⟩
        · refine ⟨[], x, xs, rfl, List.forall_mem_nil _, ?_⟩
          rw [List.findSomeM?_cons] at h
          cases hfound : f x with rw [hfound] at h hx
          | error e => exact h
          | ok found =>
              cases found with
              | none => exact absurd rfl hx
              | some b => exact h
      · rintro ⟨before, y, after, hxs, hbefore, hy⟩
        cases before with
        | nil =>
            obtain ⟨rfl, rfl⟩ := List.cons.inj hxs
            rw [List.findSomeM?_cons, hy]
            cases r with
            | error e => rfl
            | ok found =>
                cases found with
                | none => exact absurd rfl hr
                | some b => rfl
        | cons x' before =>
            obtain ⟨rfl, rfl⟩ := List.cons.inj hxs
            obtain ⟨hx, hbefore⟩ := List.forall_mem_cons.1 hbefore
            rw [List.findSomeM?_cons, hx]
            exact ih.2 ⟨before, y, after, rfl, hbefore, hy⟩

namespace Lexer

variable (o : ParseOptions) (s : Source)

def pendingText (l : Lexer) : List Token :=
  match l.textStart with
  | some start => if start < l.pos then [⟨.text, start, l.pos⟩] else []
  | none => []

theorem flushText_eq (l : Lexer) :
    l.flushText = { l with textStart := none, tokens := l.tokens ++ l.pendingText } := by
  unfold flushText pendingText
  cases hs : l.textStart with
  | none =>
      cases l
      simp_all
  | some start =>
      simp only
      split <;> simp

theorem accept_eq (l : Lexer) (tokens : List Token) (stop : Nat) :
    l.accept tokens stop = { l with
      textStart := none
      tokens := l.tokens ++ (l.pendingText ++ tokens)
      pos := stop } := by
  simp only [accept, flushText_eq, mk.injEq, and_true, true_and]
  apply Array.toList_inj.1
  simp

theorem emit_eq (l : Lexer) (kind : TokenType) (length : Nat) :
    l.emit kind length = { l with
      textStart := none
      tokens := l.tokens ++ (l.pendingText ++ [⟨kind, l.pos, l.pos + length⟩])
      pos := l.pos + length } := by
  simp only [emit, flushText_eq, mk.injEq, and_true, true_and]
  apply Array.toList_inj.1
  simp

theorem goTo_eq (l : Lexer) (mode : Mode) :
    l.goTo mode =
      { l with textStart := none, tokens := l.tokens ++ l.pendingText, mode := mode } := by
  simp [goTo, flushText_eq]

theorem emitUntil_of_le {l : Lexer} {stop : Nat} (kind : TokenType) (h : stop ≤ l.pos) :
    l.emitUntil kind stop = l :=
  if_neg (by omega)

theorem emitUntil_of_lt {l : Lexer} {stop : Nat} (kind : TokenType) (h : l.pos < stop) :
    l.emitUntil kind stop = l.emit kind (stop - l.pos) :=
  if_pos h

section Fields

variable (l : Lexer) (kind : TokenType) (n : Nat) (mode : Mode) (e : LexerErrorKind)

@[simp] theorem emit_pos : (l.emit kind n).pos = l.pos + n := by rw [emit_eq]
@[simp] theorem emit_mode : (l.emit kind n).mode = l.mode := by rw [emit_eq]
@[simp] theorem emit_echoClose : (l.emit kind n).echoClose = l.echoClose := by rw [emit_eq]
@[simp] theorem emit_returnMode : (l.emit kind n).returnMode = l.returnMode := by rw [emit_eq]
@[simp] theorem emit_generics : (l.emit kind n).generics = l.generics := by rw [emit_eq]

@[simp] theorem goTo_pos : (l.goTo mode).pos = l.pos := by rw [goTo_eq]
@[simp] theorem goTo_mode : (l.goTo mode).mode = mode := by rw [goTo_eq]
@[simp] theorem goTo_echoClose : (l.goTo mode).echoClose = l.echoClose := by rw [goTo_eq]

@[simp] theorem readText_pos : (l.readText n).pos = l.pos + n := rfl
@[simp] theorem report_pos : (l.report e n).pos = l.pos := rfl
@[simp] theorem report_returnMode : (l.report e n).returnMode = l.returnMode := rfl

@[simp] theorem emitUntil_pos : (l.emitUntil kind n).pos = max l.pos n := by
  unfold emitUntil
  split
  · rw [emit_pos]; omega
  · omega

@[simp] theorem emitUntil_mode : (l.emitUntil kind n).mode = l.mode := by
  unfold emitUntil
  split
  · rw [emit_mode]
  · rfl

@[simp] theorem emitUntil_returnMode : (l.emitUntil kind n).returnMode = l.returnMode := by
  unfold emitUntil
  split
  · rw [emit_returnMode]
  · rfl

@[simp] theorem readTextUntil_pos : (l.readTextUntil n).pos = max l.pos n := by
  rw [readTextUntil, readText_pos]
  omega

end Fields

/-- The single changes that steps are made of. Tokens of the language begin and end between
characters, tags begin with the bytes that they are known by, and a name follows every slash. -/
inductive Move (l : Lexer) : Lexer → Prop
  | emit (kind : TokenType) (length : Nat) : l.echoClose = none → s.isBoundary l.pos →
      0 < length → s.isBoundary (l.pos + length) → ¬ kind.OpensTag → Move l (l.emit kind length)
  | opens : l.echoClose = none → s.byte? l.pos = some Byte.lessThan → Move l (l.emit .lessThan 1)
  | slash (length : Nat) : l.echoClose = none → s.byte? l.pos = some Byte.slash →
      0 < length → s.isBoundary (l.pos + 1 + length) →
      Move l ((l.emit .slash 1).emit .tagName length)
  | read (length : Nat) : l.echoClose = none → l.pos + length ≤ s.size →
      l.mode = .data ∨ s.isBoundary (l.pos + length) → Move l (l.readText length)
  | goTo (mode : Mode) : l.echoClose = none → s.isBoundary l.pos →
      (∀ q, mode = .attributeValueQuoted q → Byte.isAscii q) → Move l (l.goTo mode)
  | claim (b : UInt8) (tokens : List Token) (stop : Nat) : l.echoClose = none →
      s.byte? l.pos = some b → l.claim? o s b = .ok (some (tokens, stop)) →
      Move l (l.accept tokens stop)
  | beginEcho (flavor : EchoFlavor) (close : Option Nat) : s.isBoundary l.pos → l.mode.Resumes →
      (∀ c, close = some c → l.pos ≤ c ∧ s.startsWith c (ascii flavor.closing)) →
      Move l ({ l with echoClose := close, returnMode := l.mode }.goTo (.echoContent flavor))
  | takeEcho : Move l { l with echoClose := none }
  | saveMode : l.echoClose = none → l.mode.Resumes → Move l { l with returnMode := l.mode }
  | learn (g : GenericScan) : GenericScan.EndsOnBoundaries s g.closes → Move l { l with generics := g }
  | note (pendingRawText : Option RawText) (valueArgsUnclosed : Bool) (memo : ScanMemo)
      (errors : Array LexerError) : Move l { l with pendingRawText, valueArgsUnclosed, memo, errors }

variable {o s}

/-- What the lexer knows at any moment: it is between two characters unless it passes over text,
the end of an echo that it has looked up lies ahead, and what it goes back to is a mode that
echoes and directives may interrupt. -/
structure Ready (s : Source) (l : Lexer) : Prop where
  inside : l.pos ≤ s.size
  cut : l.mode = .data ∨ s.isBoundary l.pos
  echo : ∀ c, l.echoClose = some c → ∃ flavor, l.mode = .echoContent flavor ∧ l.pos ≤ c ∧
    s.startsWith c (ascii flavor.closing)
  quote : ∀ q, l.mode = .attributeValueQuoted q → Byte.isAscii q
  resume : l.returnMode.Resumes
  generics : GenericScan.EndsOnBoundaries s l.generics.closes

theorem ready_initial : Ready s initial where
  inside := Nat.zero_le _
  cut := .inl rfl
  echo := nofun
  quote := nofun
  resume := trivial
  generics := nofun

/-- Extensions that are asked before it do not claim what `x` is offered at `b`. -/
structure Asks (o : ParseOptions) (s : Source) (l : Lexer) (b : UInt8) (x : LexerExtension) :
    Prop where
  mode : l.mode.asksExtensions
  trigger : b ∈ x.triggers
  first : ∃ before after, o.lexerExtensions = before ++ x :: after ∧
    ∀ y ∈ before, b ∈ y.triggers → y.claim? (l.offer o s) = .ok none

theorem Asks.mem {l : Lexer} {b : UInt8} {x : LexerExtension} (h : l.Asks o s b x) :
    x ∈ o.lexerExtensions := by
  obtain ⟨before, after, ho, -⟩ := h.first
  rw [ho]
  exact List.mem_append_right _ List.mem_cons_self

/-- What comes of asking is the answer of the first extension that does not decline. -/
theorem claim?_eq_iff {l : Lexer} {b : UInt8} {r : Except Fault (Option (List Token × Nat))}
    (hr : r ≠ .ok none) :
    l.claim? o s b = r ↔ ∃ x, l.Asks o s b x ∧ x.claim? (l.offer o s) = r := by
  unfold claim?
  split
  · rename_i hmode
    rw [findSomeM?_eq_iff hr]
    constructor
    · rintro ⟨before, x, after, ho, hbefore, hx⟩
      split at hx
      · rename_i htrigger
        refine ⟨x, ⟨hmode, List.contains_iff_mem.1 htrigger, before, after, ho, ?_⟩, hx⟩
        intro y hy hb
        have hnone := hbefore y hy
        rwa [if_pos (List.contains_iff_mem.2 hb)] at hnone
      · exact absurd hx.symm hr
    · rintro ⟨x, ⟨-, htrigger, before, after, ho, hbefore⟩, hx⟩
      refine ⟨before, x, after, ho, fun y hy => ?_, ?_⟩
      · split
        · rename_i hb
          exact hbefore y hy (List.contains_iff_mem.1 hb)
        · rfl
      · rwa [if_pos (List.contains_iff_mem.2 htrigger)]
  · rename_i hmode
    exact iff_of_false (fun h => hr h.symm) fun ⟨_, h, _⟩ => hmode h.mode

theorem claim?_bounds {l : Lexer} {b : UInt8} {tokens : List Token} {stop : Nat}
    (h : l.claim? o s b = .ok (some (tokens, stop))) (hp : l.pos ≤ s.size) :
    Tiles l.pos tokens stop ∧ l.pos < stop ∧ s.isBoundary stop := by
  obtain ⟨x, -, hx⟩ := (claim?_eq_iff (by nofun)).1 h
  exact x.tiles_claim hx hp

theorem Ready.move {l l' : Lexer} (h : Ready s l) (hm : Move o s l l') : Ready s l' := by
  have silent (hc : l.echoClose = none) {c : Nat} {P : Prop} : l.echoClose = some c → P := by
    rw [hc]; exact nofun
  cases hm with
  | emit kind length hc _ _ hstop =>
      rw [emit_eq]
      exact ⟨s.le_size_of_isBoundary hstop, .inr hstop, fun _ => silent hc, h.quote, h.resume,
        h.generics⟩
  | opens hc hb =>
      have hstop := s.isBoundary_succ_of_ascii hb (by decide)
      rw [emit_eq]
      exact ⟨s.le_size_of_isBoundary hstop, .inr hstop, fun _ => silent hc, h.quote, h.resume,
        h.generics⟩
  | slash length hc _ _ hstop =>
      rw [emit_eq, emit_eq]
      exact ⟨s.le_size_of_isBoundary hstop, .inr hstop, fun _ => silent hc, h.quote, h.resume,
        h.generics⟩
  | read length hc hle hcut =>
      exact ⟨hle, hcut, fun _ => silent hc, h.quote, h.resume, h.generics⟩
  | goTo mode hc hpos hq =>
      rw [goTo_eq]
      exact ⟨h.inside, .inr hpos, fun _ => silent hc, hq, h.resume, h.generics⟩
  | claim b tokens stop hc _ hclaim =>
      obtain ⟨-, -, hstop⟩ := claim?_bounds hclaim h.inside
      rw [accept_eq]
      exact ⟨s.le_size_of_isBoundary hstop, .inr hstop, fun _ => silent hc, h.quote, h.resume,
        h.generics⟩
  | beginEcho flavor close hpos hmode hclose =>
      rw [goTo_eq]
      exact ⟨h.inside, .inr hpos, fun c hc => ⟨flavor, rfl, hclose c hc⟩, nofun, hmode,
        h.generics⟩
  | takeEcho => exact ⟨h.inside, h.cut, nofun, h.quote, h.resume, h.generics⟩
  | saveMode hc hmode => exact ⟨h.inside, h.cut, fun _ => silent hc, h.quote, hmode, h.generics⟩
  | learn g hg => exact ⟨h.inside, h.cut, h.echo, h.quote, h.resume, hg⟩
  | note _ _ _ _ => exact ⟨h.inside, h.cut, h.echo, h.quote, h.resume, h.generics⟩

end Lexer
end BladeTree
