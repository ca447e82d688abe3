import BladeTree.Proofs.Options
import BladeTree.Proofs.Token.Lexer.Termination

namespace BladeTree

/-- The extension does not claim what it is offered: it is not active there or says no, or what it
emits, of lengths that do not overflow, does not go forward or ends within a character. -/
def LexerExtension.Declines (x : LexerExtension) (offer : LexerOffer) : Prop :=
  x.activates offer = false ∨ ∃ tokens stop,
    Emission.place offer.source.size offer.position (x.tokenize offer).1 = .ok (tokens, stop) ∧
      ((x.tokenize offer).2 = false ∨ stop ≤ offer.position ∨
        offer.source.isBoundary stop = false)

theorem LexerExtension.claim?_eq_none_iff {x : LexerExtension} {offer : LexerOffer} :
    x.claim? offer = .ok none ↔ x.Declines offer := by
  by_cases hactive : x.activates offer
  · rw [claim?_of_activates hactive, Declines, or_iff_right (by simpa using hactive)]
    cases Emission.place offer.source.size offer.position (x.tokenize offer).1 with
    | error f => exact iff_of_false nofun fun ⟨_, _, h, _⟩ => nomatch h
    | ok claim =>
        simp only [Except.map, Except.ok.injEq, ite_eq_right_iff, reduceCtorEq, imp_false,
          Bool.and_eq_true, decide_eq_true_eq, not_and_or, Bool.not_eq_true, not_lt, gt_iff_lt,
          or_assoc]
        constructor
        · exact fun h => ⟨claim.1, claim.2, rfl, h⟩
        · rintro ⟨_, _, rfl, h⟩
          exact h
  · exact iff_of_true (claim?_of_not_activates hactive) (.inl (eq_false_of_ne_true hactive))

theorem findSomeM?_append_cons {ε α β : Type} {f : α → Except ε (Option β)} {x : α}
    {before after : List α} (h : (∀ y ∈ before, f y = .ok none) → f x = .ok none) :
    (before ++ x :: after).findSomeM? f = (before ++ after).findSomeM? f := by
  induction before with
  | nil =>
      rw [List.nil_append, List.findSomeM?_cons, h (List.forall_mem_nil _)]
      rfl
  | cons y before ih =>
      rw [List.cons_append, List.cons_append, List.findSomeM?_cons, List.findSomeM?_cons]
      cases hy : f y with
      | error e => rfl
      | ok found =>
          cases found with
          | none => exact ih fun hbefore => h (List.forall_mem_cons.2 ⟨hy, hbefore⟩)
          | some b => rfl

theorem Source.skipWhile_skipWhile {s : Source} {p q : UInt8 → Bool} (h : ∀ b, p b → q b)
    (i : Nat) : s.skipWhile q (s.skipWhile p i) = s.skipWhile q i := by
  fun_induction skipWhile s p i with
  | case1 i hp _ ih =>
      obtain ⟨b, hb, hpb⟩ := s.exists_of_has hp
      have hq : s.has q i := by
        rw [has, hb]
        exact h b hpb
      rw [ih]
      conv_rhs => rw [skipWhile, dif_pos hq]
  | case2 => rfl

namespace ParseOptions

/-- What `x` is offered when `s` is read. -/
def Offers (o : ParseOptions) (s : Source) (x : LexerExtension) (offer : LexerOffer) : Prop :=
  ∃ l b, Lexer.Reachable o s l ∧ s.byte? l.pos = some b ∧ l.Asks o s b x ∧ offer = l.offer o s

end ParseOptions

namespace Lexer

variable {x : LexerExtension} {o o' : ParseOptions} {s : Source} {l l' : Lexer} {b : UInt8}

theorem claim?_eq (h : ParseOptions.AlsoAsks x o o')
    (hdeclines : ∀ offer, o'.Offers s x offer → x.Declines offer) (hl : Reachable o' s l)
    (hb : s.byte? l.pos = some b) : l.claim? o' s b = l.claim? o s b := by
  obtain ⟨before, after, ho, ho'⟩ := h.extensions
  have hoffer : l.offer o' s = l.offer o s := by rw [offer, offer, h.tokenTypes]
  unfold claim?
  rw [ho, ho', hoffer]
  split
  · rename_i hmode
    refine findSomeM?_append_cons fun hbefore => ?_
    split
    · rename_i htrigger
      refine LexerExtension.claim?_eq_none_iff.2 (hdeclines _ ⟨l, b, hl, hb, ?_, hoffer.symm⟩)
      refine ⟨hmode, List.contains_iff_mem.1 htrigger, before, after, ho', fun y hy hyb => ?_⟩
      have hnone := hbefore y hy
      rwa [if_pos (List.contains_iff_mem.2 hyb), ← hoffer] at hnone
    · rfl
  · rfl

theorem claim?_eq_none_of_not_isTrigger (h : o.isTrigger b = false) :
    l.claim? o s b = .ok none := by
  by_contra hne
  obtain ⟨x, hasks, -⟩ := (claim?_eq_iff hne).1 rfl
  exact List.any_eq_false.1 h x hasks.mem (List.contains_iff_mem.2 hasks.trigger)

theorem atSign_congr (h : o'.directives = o.directives) : l.atSign o' s = l.atSign o s := by
  unfold atSign
  rw [h]

theorem rawText_congr (h : o'.directives = o.directives) (kind : RawText) :
    l.rawText o' s kind b = l.rawText o s kind b := by
  unfold rawText
  rw [h, atSign_congr h]

theorem beforeAttributeName_congr (h : o'.directives = o.directives) :
    l.beforeAttributeName o' s b = l.beforeAttributeName o s b := by
  unfold beforeAttributeName
  rw [h, atSign_congr h]

theorem attributeValue_congr (h : o'.directives = o.directives) (quote : Option UInt8) :
    l.attributeValue o' s quote = l.attributeValue o s quote := by
  unfold attributeValue
  rw [h]

theorem readTextUntil_readTextUntil {i j : Nat} (hi : l.pos ≤ i) (hj : i ≤ j) :
    (l.readTextUntil i).readTextUntil j = l.readTextUntil j := by
  simp only [readTextUntil, readText, Option.getD_some, mk.injEq, and_true]
  omega

theorem stopsText_of_alsoAsks (h : ParseOptions.AlsoAsks x o o') {b : UInt8}
    (hb : stopsText o b) : stopsText o' b := by
  obtain ⟨before, after, ho, ho'⟩ := h.extensions
  have htrigger : o.isTrigger b → o'.isTrigger b := by
    simp only [ParseOptions.isTrigger, ho, ho', List.any_append, List.any_cons, Bool.or_eq_true]
    tauto
  simp only [stopsText, Bool.or_eq_true] at hb ⊢
  exact hb.imp_right htrigger

theorem read_data (hm : l.mode = .data) : l.read o s b = l.data o s b := by
  rw [read, hm]

section Simulation

variable (h : ParseOptions.AlsoAsks x o o')
  (hdeclines : ∀ offer, o'.Offers s x offer → x.Declines offer)
include h hdeclines

/-- Text that is read at once is read in parts where bytes stop it that only `x` asks for. -/
theorem steps_text (hl : Reachable o' s l) (hm : l.mode = .data) (hb : s.byte? l.pos = some b)
    (hplain : b ≠ Byte.lessThan ∧ b ≠ Byte.openBrace ∧ b ≠ Byte.atSign)
    (hclaim : l.claim? o s b = .ok none) :
    Relation.ReflTransGen (Steps o' s) l
      (l.readTextUntil (s.skipWhile (fun b => !stopsText o b) (l.pos + 1))) := by
  induction hn : s.size - l.pos using Nat.strong_induction_on generalizing l b with
  | _ n ih =>
      have hlt : l.pos < s.size := s.lt_size_of_byte? hb
      generalize hstop : s.skipWhile (fun b => !stopsText o' b) (l.pos + 1) = stop
      have hle : l.pos + 1 ≤ stop := hstop ▸ s.le_skipWhile _ _
      have hstep : Steps o' s l (l.readTextUntil stop) := by
        refine ⟨b, hb, ?_⟩
        have hclaim' : l.claim? o' s b = .ok none := (claim?_eq h hdeclines hl hb).trans hclaim
        rw [step_of_decline hclaim', read_data hm, data, if_neg hplain.1, if_neg hplain.2.1,
          if_neg hplain.2.2, hstop]
      have hrest : s.skipWhile (fun b => !stopsText o b) stop =
          s.skipWhile (fun b => !stopsText o b) (l.pos + 1) := by
        rw [← hstop]
        refine Source.skipWhile_skipWhile (fun b hb => ?_) _
        rw [Bool.not_eq_true', Bool.eq_false_iff] at hb ⊢
        exact fun hstops => hb (stopsText_of_alsoAsks h hstops)
      rw [← hrest]
      by_cases hgo : s.has (fun b => !stopsText o b) stop
      · obtain ⟨c, hc, hnot⟩ := s.exists_of_has hgo
        simp only [stopsText, Bool.not_eq_true', Bool.or_eq_false_iff, beq_eq_false_iff_ne] at hnot
        obtain ⟨⟨⟨hlessThan, hopenBrace⟩, hatSign⟩, htrigger⟩ := hnot
        have hpos : (l.readTextUntil stop).pos = stop := by
          rw [readTextUntil_pos]
          omega
        have hrun := ih (s.size - (l.readTextUntil stop).pos) (by omega)
          (hl.steps (.single hstep)) hm (hpos.symm ▸ hc) ⟨hlessThan, hopenBrace, hatSign⟩
          (claim?_eq_none_of_not_isTrigger htrigger) rfl
        have hnext : s.skipWhile (fun b => !stopsText o b) stop =
            s.skipWhile (fun b => !stopsText o b) (stop + 1) := by
          conv_lhs => rw [Source.skipWhile, dif_pos hgo]
        rw [hpos, ← hnext, readTextUntil_readTextUntil (by omega) (s.le_skipWhile _ _)] at hrun
        exact .head hstep hrun
      · have hend : s.skipWhile (fun b => !stopsText o b) stop = stop := by
          rw [Source.skipWhile, dif_neg hgo]
        rw [hend]
        exact .single hstep

theorem Steps.simulated (hl : Reachable o' s l) (hstep : Steps o s l l') :
    Relation.ReflTransGen (Steps o' s) l l' := by
  obtain ⟨b, hb, hstep⟩ := hstep
  have hclaim' := claim?_eq h hdeclines hl hb
  rcases step_cases hstep with ⟨tokens, stop, hclaim, rfl⟩ | ⟨hclaim, rfl⟩
  · exact .single ⟨b, hb, step_of_claim (hclaim'.trans hclaim)⟩
  have same (heq : l.read o' s b = l.read o s b) :
      Relation.ReflTransGen (Steps o' s) l (l.read o s b) := by
    refine .single ⟨b, hb, ?_⟩
    rw [step_of_decline (hclaim'.trans hclaim), heq]
  cases hm : l.mode with
  | data =>
      by_cases hplain : b ≠ Byte.lessThan ∧ b ≠ Byte.openBrace ∧ b ≠ Byte.atSign
      · have hrun := steps_text h hdeclines hl hm hb hplain hclaim
        rwa [read_data hm, data, if_neg hplain.1, if_neg hplain.2.1, if_neg hplain.2.2]
      · refine same ?_
        rw [read_data hm, read_data hm, data, data]
        split
        · rfl
        split
        · rfl
        split
        · exact atSign_congr h.directives
        · exact absurd ⟨‹_›, ‹_›, ‹_›⟩ hplain
  | beforeAttributeName =>
      exact same (by simp only [read, hm, beforeAttributeName_congr h.directives])
  | attributeValueQuoted | attributeValueUnquoted =>
      exact same (by simp only [read, hm, attributeValue_congr h.directives])
  | rawText => exact same (by simp only [read, hm, rawText_congr h.directives])
  | _ => exact same (by simp only [read, hm])

theorem Reachable.simulated (hl : Reachable o s l) : Reachable o' s l := by
  induction hl with
  | initial => exact .initial
  | step l l' _ hstep ih => exact ih.steps (hstep.simulated h hdeclines ih)

/-- An extension that declines whatever it is offered does not show in what is read. -/
theorem lex_of_declines : lex o' s = lex o s := by
  obtain ⟨n, l, hsteps, hend⟩ := (Reachable.initial (o := o) (s := s)).exists_end
  have hl : Reachable o s l := (Reachable.initial.stepsIn hsteps).1
  have hl' : Reachable o' s l := hl.simulated h hdeclines
  rcases hend with hpos | ⟨b, f, hb, hf⟩
  · rw [hl.lex_eq hpos, hl'.lex_eq hpos]
  · have hf' : l.step o' s b = .error f :=
      step_eq_error_iff.2 ((claim?_eq h hdeclines hl' hb).trans (step_eq_error_iff.1 hf))
    rw [hl.lex_eq_error hb hf, hl'.lex_eq_error hb hf']

end Simulation
end Lexer

/-- An extension that needs no token types and declines whatever it is offered does not show in what
is read, wherever it stands among the others and whatever its priority is. -/
theorem lex_build_of_declines {x : LexerExtension} (hx : x.types = []) (d : DirectiveSet)
    (limits : DepthLimits) (xs ys : List LexerExtension) (ts : List TreeExtension) (s : Source)
    (hdeclines : ∀ o, ParseOptions.build d limits (xs ++ x :: ys) ts = .ok o →
      ∀ offer, o.Offers s x offer → x.Declines offer) :
    (ParseOptions.build d limits (xs ++ x :: ys) ts).map (lex · s) =
      (ParseOptions.build d limits (xs ++ ys) ts).map (lex · s) := by
  rcases ParseOptions.build_insert hx d limits xs ys ts with ⟨e, hwith, hwithout⟩ |
    ⟨o, o', hwith, hwithout, hasks⟩
  · rw [hwith, hwithout]
  · rw [hwith, hwithout, Except.map, Except.map, Lexer.lex_of_declines hasks (hdeclines o' hwith)]

def LexerExtension.reluctant : LexerExtension where
  name := "reluctant"
  priority := 7
  triggers := [Byte.lessThan, Byte.openBrace, Byte.atSign, Byte.space]
  types := []
  activates := fun _ => true
  tokenize := fun offer => ([⟨.commentText, offer.source.size⟩], false)

/-- It is asked between two that claim what has their triggers. -/
theorem lex_build_of_declines_reluctant :
    let mark : LexerExtension := ⟨"mark", 9, [Byte.atSign], [⟨"mark", "at", none⟩], fun _ => true,
      fun _ => ([⟨.text, 1⟩], true)⟩
    let gap : LexerExtension := ⟨"gap", 0, [Byte.space], [], fun offer => !offer.inTag,
      fun _ => ([⟨.text, 1⟩], true)⟩
    let s := Source.ofString "<a @if(1) b> \x7b\x7b c \x7d\x7d"
    LexerExtension.reluctant.types = [] ∧
      (∀ o, ParseOptions.build .standard .standard [mark, .reluctant, gap] [] = .ok o →
        ∀ offer, o.Offers s .reluctant offer → LexerExtension.reluctant.Declines offer) ∧
      (ParseOptions.build .standard .standard [mark, .reluctant, gap] []).map (lex · s) =
        (ParseOptions.build .standard .standard [mark, gap] []).map (lex · s) := by
  intro mark gap s
  have hdeclines (o : ParseOptions) (offer : LexerOffer) (h : o.Offers s .reluctant offer) :
      LexerExtension.reluctant.Declines offer := by
    obtain ⟨l, b, hl, -, -, rfl⟩ := h
    have hfits : ∃ claim, Emission.place s.size l.pos [⟨.commentText, s.size⟩] = .ok claim :=
      Emission.exists_place hl.covered.ready.inside (List.forall_mem_singleton.2 (by decide +kernel))
    obtain ⟨⟨tokens, stop⟩, hplace⟩ := hfits
    exact .inr ⟨tokens, stop, hplace, .inl rfl⟩
  exact ⟨rfl, fun o _ => hdeclines o,
    lex_build_of_declines rfl .standard .standard [mark] [gap] [] s fun o _ => hdeclines o⟩

end BladeTree
