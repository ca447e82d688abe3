import BladeTree.Proofs.Token.Lexer.Move

namespace BladeTree

def Token.OnBoundaries (s : Source) (t : Token) : Prop :=
  s.isBoundary t.start ∧ s.isBoundary t.stop

/-- An extension that claims tokens of whole characters only, wherever the source holds one of
its trigger bytes. -/
def LexerExtension.OnBoundaries (s : Source) (x : LexerExtension) : Prop :=
  ∀ offer tokens stop, offer.source = s → s.has x.triggers.contains offer.position →
    x.claim? offer = .ok (some (tokens, stop)) → ∀ t ∈ tokens, t.OnBoundaries s

theorem LexerExtension.onBoundaries_of_single (s : Source) {x : LexerExtension}
    (ht : Byte.AllAscii x.triggers)
    (hx : ∀ offer, ∃ emission, (x.tokenize offer).1 = [emission]) : x.OnBoundaries s := by
  rintro offer tokens stop rfl htrigger h t hmem
  obtain ⟨emission, hemission⟩ := hx offer
  obtain ⟨b, hb, hcontains⟩ := offer.source.exists_of_has htrigger
  have hstart : offer.source.isBoundary offer.position :=
    offer.source.isBoundary_of_ascii hb (ht b (List.contains_iff_mem.1 hcontains))
  obtain ⟨-, -, hplace, -, hstop⟩ := claim?_eq_some_iff.1 h
  rw [hemission] at hplace
  obtain ⟨u, us, hu, hnil, rfl⟩ := Emission.place_cons_eq_ok hplace
  obtain ⟨-, rfl⟩ := Emission.token_eq_ok_iff.1 hu
  cases hnil
  cases List.mem_singleton.1 hmem
  exact ⟨hstart, hstop⟩

/-- A token that a tag begins with is the byte that it is known by. -/
def Token.Spelled (s : Source) (t : Token) : Prop :=
  match t.kind with
  | .lessThan => s.byte? t.start = some Byte.lessThan ∧ t.stop = t.start + 1
  | .slash => s.byte? t.start = some Byte.slash ∧ t.stop = t.start + 1
  | _ => True

theorem Token.spelled_of_not_opensTag (s : Source) {t : Token} (h : ¬ t.kind.OpensTag) :
    t.Spelled s := by
  obtain ⟨kind, start, stop⟩ := t
  cases kind with
  | lessThan => exact absurd trivial h
  | slash => exact absurd trivial h
  | _ => trivial

def SlashesNamed (ts : List Token) : Prop :=
  ∀ i t, ts[i]? = some t → t.kind = .slash → ∃ u, ts[i + 1]? = some u ∧ u.kind = .tagName

theorem SlashesNamed.append {ts us : List Token} (h : SlashesNamed ts) (h' : SlashesNamed us) :
    SlashesNamed (ts ++ us) := by
  intro i t ht hk
  by_cases hi : i < ts.length
  · rw [List.getElem?_append_left hi] at ht
    obtain ⟨u, hu, huk⟩ := h i t ht hk
    have hlt : i + 1 < ts.length := (List.getElem?_eq_some_iff.1 hu).1
    exact ⟨u, by rw [List.getElem?_append_left hlt, hu], huk⟩
  · rw [List.getElem?_append_right (by omega)] at ht
    obtain ⟨u, hu, huk⟩ := h' _ t ht hk
    refine ⟨u, ?_, huk⟩
    rw [List.getElem?_append_right (by omega), ← hu]
    congr 1
    omega

theorem SlashesNamed.of_forall_ne {ts : List Token} (h : ∀ t ∈ ts, t.kind ≠ .slash) :
    SlashesNamed ts :=
  fun _ _ ht hk => absurd hk (h _ (List.mem_of_getElem? ht))

theorem slashesNamed_pair {t u : Token} (hk : u.kind = .tagName) : SlashesNamed [t, u] := by
  intro i v hv hvk
  match i with
  | 0 => exact ⟨u, rfl, hk⟩
  | 1 => cases hv; rw [hk] at hvk; cases hvk
  | i + 2 => cases hv

namespace Lexer

variable {o : ParseOptions} {s : Source} {l l' : Lexer}

/-- Where the tokens emitted so far end. -/
def front (l : Lexer) : Nat := l.textStart.getD l.pos

theorem tiles_pendingText (h : l.front ≤ l.pos) : Tiles l.front l.pendingText l.pos := by
  unfold pendingText front at *
  cases hs : l.textStart with
  | none => rfl
  | some start =>
      simp only [hs, Option.getD_some] at h ⊢
      split
      · exact ⟨rfl, h, rfl⟩
      · exact Nat.le_antisymm h (by omega)

theorem mem_pendingText {t : Token} (h : t ∈ l.pendingText) :
    t = ⟨.text, l.front, l.pos⟩ ∧ l.front < l.pos := by
  unfold pendingText front at *
  cases hs : l.textStart with
  | none => simp [hs] at h
  | some start =>
      simp only [hs, Option.getD_some] at h ⊢
      split at h
      · exact ⟨List.mem_singleton.1 h, ‹_›⟩
      · cases h

/-- The tokens that a change of the lexer adds. -/
structure Adds (o : ParseOptions) (s : Source) (l l' : Lexer) (added : List Token) : Prop where
  tokens : l'.tokens = l.tokens ++ added
  tiles : Tiles l.front added l'.front
  behind : l'.front ≤ l'.pos
  solid : o.lexerExtensions = [] → ∀ t ∈ added, t.start < t.stop
  spelled : o.lexerExtensions = [] → ∀ t ∈ added, t.Spelled s
  named : o.lexerExtensions = [] → SlashesNamed added
  whole : (∀ x ∈ o.lexerExtensions, x.OnBoundaries s) → s.isBoundary l.front →
    s.isBoundary l'.front ∧ ∀ t ∈ added, t.OnBoundaries s

theorem adds_tokens (us : List Token) (h : l.front ≤ l.pos)
    (ht : l'.tokens = l.tokens ++ (l.pendingText ++ us)) (hf : l'.front = l'.pos)
    (tiles : Tiles l.pos us l'.pos) (solid : o.lexerExtensions = [] → ∀ t ∈ us, t.start < t.stop)
    (spelled : o.lexerExtensions = [] → ∀ t ∈ us, t.Spelled s)
    (named : o.lexerExtensions = [] → SlashesNamed us)
    (whole : (∀ x ∈ o.lexerExtensions, x.OnBoundaries s) →
      s.isBoundary l.pos ∧ s.isBoundary l'.pos ∧ ∀ t ∈ us, t.OnBoundaries s) :
    Adds o s l l' (l.pendingText ++ us) where
  tokens := ht
  tiles := hf ▸ (tiles_pendingText h).append tiles
  behind := hf.le
  solid ho t ht := by
    rcases List.mem_append.1 ht with ht | ht
    · obtain ⟨rfl, hlt⟩ := mem_pendingText ht
      exact hlt
    · exact solid ho t ht
  spelled ho t ht := by
    rcases List.mem_append.1 ht with ht | ht
    · obtain ⟨rfl, -⟩ := mem_pendingText ht
      trivial
    · exact spelled ho t ht
  named ho := by
    refine .append (.of_forall_ne fun t ht => ?_) (named ho)
    obtain ⟨rfl, -⟩ := mem_pendingText ht
    nofun
  whole ho hfront := by
    obtain ⟨hpos, hpos', hus⟩ := whole ho
    refine ⟨hf ▸ hpos', fun t ht => ?_⟩
    rcases List.mem_append.1 ht with ht | ht
    · obtain ⟨rfl, -⟩ := mem_pendingText ht
      exact ⟨hfront, hpos⟩
    · exact hus t ht

theorem adds_nothing (h : l.front ≤ l'.pos) (ht : l'.tokens = l.tokens)
    (hf : l'.front = l.front) : Adds o s l l' [] where
  tokens := by rw [ht]; simp
  tiles := hf.symm
  behind := hf ▸ h
  solid _ := nofun
  spelled _ := nofun
  named _ := nofun
  whole _ hfront := ⟨hf ▸ hfront, nofun⟩

theorem Adds.trans {m : Lexer} {added more : List Token} (h : Adds o s l m added)
    (h' : Adds o s m l' more) : Adds o s l l' (added ++ more) where
  tokens := by rw [h'.tokens, h.tokens]; apply Array.toList_inj.1; simp
  tiles := h.tiles.append h'.tiles
  behind := h'.behind
  solid ho t ht := (List.mem_append.1 ht).elim (h.solid ho t) (h'.solid ho t)
  spelled ho t ht := (List.mem_append.1 ht).elim (h.spelled ho t) (h'.spelled ho t)
  named ho := (h.named ho).append (h'.named ho)
  whole ho hfront := by
    obtain ⟨hm, hadded⟩ := h.whole ho hfront
    obtain ⟨hl', hmore⟩ := h'.whole ho hm
    exact ⟨hl', fun t ht => (List.mem_append.1 ht).elim (hadded t) (hmore t)⟩

theorem claim?_onBoundaries {b : UInt8} {tokens : List Token} {stop : Nat}
    (hb : s.byte? l.pos = some b) (h : l.claim? o s b = .ok (some (tokens, stop)))
    (ho : ∀ x ∈ o.lexerExtensions, x.OnBoundaries s) : ∀ t ∈ tokens, t.OnBoundaries s := by
  obtain ⟨x, hasks, hx⟩ := (claim?_eq_iff (by nofun)).1 h
  refine ho x hasks.mem _ tokens stop rfl ?_ hx
  change s.has x.triggers.contains l.pos
  rw [Source.has, hb]
  exact List.contains_iff_mem.2 hasks.trigger

theorem claim?_eq_none {b : UInt8} (ho : o.lexerExtensions = []) :
    l.claim? o s b = .ok none := by
  unfold claim?
  rw [ho]
  split <;> rfl

theorem adds_emit {kind : TokenType} {length : Nat} (h : l.front ≤ l.pos) (hlen : 0 < length)
    (hpos : s.isBoundary l.pos) (hstop : s.isBoundary (l.pos + length)) (hkind : kind ≠ .slash)
    (hspelled : Token.Spelled s ⟨kind, l.pos, l.pos + length⟩) :
    Adds o s l (l.emit kind length) (l.pendingText ++ [⟨kind, l.pos, l.pos + length⟩]) := by
  refine adds_tokens _ h (by rw [emit_eq]) (by rw [emit_eq]; rfl) ?_ (fun _ => ?_) (fun _ => ?_)
    (fun _ => ?_) fun _ => ?_
  · rw [emit_pos]
    exact ⟨rfl, Nat.le_add_right _ _, rfl⟩
  · exact List.forall_mem_singleton.2 (Nat.lt_add_of_pos_right hlen)
  · exact List.forall_mem_singleton.2 hspelled
  · exact .of_forall_ne (List.forall_mem_singleton.2 hkind)
  · rw [emit_pos]
    exact ⟨hpos, hstop, List.forall_mem_singleton.2 ⟨hpos, hstop⟩⟩

/-- What one change emits: the text before it, then the tokens that it reads. -/
theorem Move.adds (hr : Ready s l) (h : l.front ≤ l.pos) (hm : Move o s l l') :
    ∃ added, Adds o s l l' added := by
  cases hm with
  | emit kind length hc hpos hlen hstop hkind =>
      refine ⟨_, adds_emit h hlen hpos hstop ?_ (Token.spelled_of_not_opensTag s hkind)⟩
      rintro rfl
      exact hkind trivial
  | opens hc hb =>
      exact ⟨_, adds_emit h Nat.one_pos (s.isBoundary_of_ascii hb (by decide))
        (s.isBoundary_succ_of_ascii hb (by decide)) nofun ⟨hb, rfl⟩⟩
  | slash length hc hb hlen hstop =>
      have hpos := s.isBoundary_of_ascii hb (by decide)
      have hmid := s.isBoundary_succ_of_ascii hb (by decide)
      refine ⟨_, adds_tokens [⟨.slash, l.pos, l.pos + 1⟩,
        ⟨.tagName, l.pos + 1, l.pos + 1 + length⟩] h ?_ ?_ ?_ ?_ ?_ ?_ ?_⟩
      · rw [emit_eq, emit_eq]
        apply Array.toList_inj.1
        simp [pendingText]
      · rw [emit_eq, emit_eq]
        rfl
      · rw [emit_pos, emit_pos]
        exact ⟨rfl, Nat.le_succ _, rfl, Nat.le_add_right _ _, rfl⟩
      · rintro - t (_ | ⟨_, _ | ⟨_, ⟨⟩⟩⟩)
        · exact Nat.lt_succ_self _
        · exact Nat.lt_add_of_pos_right hlen
      · rintro - t (_ | ⟨_, _ | ⟨_, ⟨⟩⟩⟩)
        · exact ⟨hb, rfl⟩
        · trivial
      · exact fun _ => slashesNamed_pair rfl
      · rw [emit_pos, emit_pos]
        refine fun _ => ⟨hpos, hstop, ?_⟩
        rintro t (_ | ⟨_, _ | ⟨_, ⟨⟩⟩⟩)
        · exact ⟨hpos, hmid⟩
        · exact ⟨hmid, hstop⟩
  | read length _ _ _ =>
      refine ⟨[], adds_nothing (h.trans (Nat.le_add_right _ _)) rfl ?_⟩
      rw [front, readText, Option.getD_some]
      rfl
  | goTo mode _ hpos _ =>
      refine ⟨_, adds_tokens [] h (by rw [goTo_eq]; simp) (by rw [goTo_eq]; rfl)
        (goTo_pos l mode).symm (fun _ => nofun) (fun _ => nofun) (fun _ => nofun) fun _ => ?_⟩
      rw [goTo_pos]
      exact ⟨hpos, hpos, nofun⟩
  | claim b tokens stop _ hb hclaim =>
      obtain ⟨htiles, hlt, hstop⟩ := claim?_bounds hclaim hr.inside
      have hno {P : Prop} (ho : o.lexerExtensions = []) : P := by
        rw [claim?_eq_none ho] at hclaim
        cases hclaim
      refine ⟨_, adds_tokens tokens h (by rw [accept_eq]) (by rw [accept_eq]; rfl) htiles hno hno
        hno fun ho => ?_⟩
      have hwhole := claim?_onBoundaries hb hclaim ho
      refine ⟨?_, by rwa [accept_eq], hwhole⟩
      cases tokens with
      | nil => exact absurd htiles hlt.ne
      | cons t ts => exact htiles.1 ▸ (hwhole t List.mem_cons_self).1
  | beginEcho flavor close hpos _ _ =>
      refine ⟨_, adds_tokens [] h (by rw [goTo_eq]; simp [pendingText])
        (by rw [goTo_eq]; rfl) (by rw [goTo_pos]; rfl) (fun _ => nofun) (fun _ => nofun)
        (fun _ => nofun) fun _ => ?_⟩
      rw [goTo_pos]
      exact ⟨hpos, hpos, nofun⟩
  | takeEcho => exact ⟨[], adds_nothing h rfl rfl⟩
  | saveMode _ _ => exact ⟨[], adds_nothing h rfl rfl⟩
  | learn g _ => exact ⟨[], adds_nothing h rfl rfl⟩
  | note _ _ _ _ => exact ⟨[], adds_nothing h rfl rfl⟩

/-- The tokens of a lexer that has read everything before its position. -/
structure Covered (o : ParseOptions) (s : Source) (l : Lexer) : Prop where
  ready : Ready s l
  adds : Adds o s initial l l.tokens.toList

theorem covered_initial : Covered o s initial where
  ready := ready_initial
  adds := adds_nothing le_rfl rfl rfl

theorem Covered.of_adds {added : List Token} (h : Covered o s l) (hr : Ready s l')
    (ha : Adds o s l l' added) : Covered o s l' where
  ready := hr
  adds := by
    have happend : l'.tokens.toList = l.tokens.toList ++ added := by rw [ha.tokens]; simp
    exact happend ▸ h.adds.trans ha

theorem Covered.move (h : Covered o s l) (hm : Move o s l l') : Covered o s l' := by
  obtain ⟨added, ha⟩ := hm.adds h.ready h.adds.behind
  exact h.of_adds (h.ready.move hm) ha

theorem Covered.moves (h : Covered o s l) (hm : Relation.ReflTransGen (Move o s) l l') :
    Covered o s l' := by
  induction hm with
  | refl => exact h
  | tail _ hm ih => exact ih.move hm

end Lexer
end BladeTree
