import BladeTree.Proofs.Token.Phase
import BladeTree.Proofs.Tree.Taken

namespace BladeTree

namespace Zone

variable {kind : TokenType} {q : Phase}

/-- Of what begins constructs the builder takes everything but text for something else. -/
theorem eq_of_next?_content (h : content.next? kind = some q) (hk : kind.startsConstruct = false) :
    kind = .text ∧ q = .between .content := by
  cases kind with
  | text => exact ⟨rfl, (Option.some.inj h).symm⟩
  | _ => first | (cases h; done) | cases hk

theorem next?_closingTag (htext : kind ≠ .text) (hspace : kind ≠ .whitespace)
    (hend : kind ≠ .greaterThan) : closingTag.next? kind = content.next? kind := by
  cases kind with
  | text => exact absurd rfl htext
  | whitespace => exact absurd rfl hspace
  | greaterThan => exact absurd rfl hend
  | _ => rfl

end Zone

namespace Tokenized

def kindsFrom (t : Tokenized) (i : Nat) : List TokenType := (t.tokens.toList.drop i).map (·.kind)

/-- The tokens from `i` on may follow in this phase. -/
def Follows (t : Tokenized) (p : Phase) (i : Nat) : Prop := p.Accepts (t.kindsFrom i)

variable {t : Tokenized} {i : Nat} {kind : TokenType} {p q : Phase} {zone : Zone}

theorem kindsFrom_of_some (h : t.kind? i = some kind) :
    t.kindsFrom i = kind :: t.kindsFrom (i + 1) := by
  obtain ⟨u, hu, rfl⟩ := Option.map_eq_some_iff.1 h
  obtain ⟨hlt, hget⟩ := Array.getElem?_eq_some_iff.1 hu
  have hlen : i < t.tokens.toList.length := hlt
  unfold kindsFrom
  rw [List.drop_eq_getElem_cons hlen, List.map_cons, Array.getElem_toList, hget]

theorem kindsFrom_of_none (h : t.kind? i = none) : t.kindsFrom i = [] := by
  have hge : t.tokens.size ≤ i := Array.getElem?_eq_none_iff.1 (Option.map_eq_none_iff.1 h)
  unfold kindsFrom
  rw [List.drop_eq_nil_of_le hge, List.map_nil]

theorem follows_of_next? (hk : t.kind? i = some kind) (hq : p.next? kind = some q)
    (h : t.Follows q (i + 1)) : t.Follows p i := by
  unfold Follows
  rw [kindsFrom_of_some hk]
  exact Phase.accepts_cons.2 ⟨q, hq, h⟩

theorem follows_of_end (hk : t.kind? i = none) (hp : p.isFinal) : t.Follows p i := by
  unfold Follows
  rw [kindsFrom_of_none hk]
  exact ⟨p, rfl, hp⟩

namespace Follows

theorem next (h : t.Follows p i) (hk : t.kind? i = some kind) :
    ∃ q, p.next? kind = some q ∧ t.Follows q (i + 1) := by
  unfold Follows at h
  rw [kindsFrom_of_some hk] at h
  exact Phase.accepts_cons.1 h

theorem step (h : t.Follows p i) (hk : t.kind? i = some kind) (hq : p.next? kind = some q) :
    t.Follows q (i + 1) := by
  obtain ⟨q', hq', h'⟩ := h.next hk
  cases hq.symm.trans hq'
  exact h'

theorem isFinal (h : t.Follows p i) (hk : t.kind? i = none) : p.isFinal := by
  unfold Follows at h
  rw [kindsFrom_of_none hk] at h
  obtain ⟨q, hq, hfinal⟩ := h
  cases hq
  exact hfinal

theorem congr (h : t.Follows p i) (hq : q.isFinal)
    (hnext : ∀ kind, t.kind? i = some kind → q.next? kind = p.next? kind) : t.Follows q i := by
  cases hk : t.kind? i with
  | none => exact follows_of_end hk hq
  | some kind =>
      obtain ⟨q', hq', h'⟩ := h.next hk
      exact follows_of_next? hk ((hnext kind hk).trans hq') h'

theorem settle (h : t.Follows p i) (hp : p.zone? = some zone)
    (hover : ∀ kind, t.kind? i = some kind → p.continue? kind = none) :
    t.Follows (.between zone) i := by
  refine h.congr rfl fun kind hk => ?_
  rw [Phase.next?_of_zone? (hover kind hk) hp]
  exact Phase.next?_of_zone? rfl rfl

theorem settleSpace (h : t.Follows p i) (hk : t.kind? i = some .whitespace)
    (hq : p.next? .whitespace = some q) (hzone : q.zone? = some .startTag)
    (hover : ∀ kind, t.kind? (i + 1) = some kind → q.continue? kind = none) :
    t.Follows (.between .startTag) i :=
  follows_of_next? hk rfl ((h.step hk hq).settle hzone hover)

theorem textEnd (h : t.Follows (.between .content) i) :
    t.Follows (.between .content) (Builder.textEnd t i) ∧
      ∀ j, i ≤ j → j < Builder.textEnd t i → t.kind? j = some .text := by
  fun_induction Builder.textEnd t i with
  | case1 i hlt kind hstop => exact ⟨h, fun j hj hj' => absurd hj' (Nat.not_lt_of_le hj)⟩
  | case2 i hlt kind hstop ih =>
      have hk : t.kind? i = some kind := by
        rw [kind?, Array.getElem?_eq_getElem hlt]
        rfl
      obtain ⟨q, hq, h'⟩ := h.next hk
      rw [Phase.next?_of_zone? rfl rfl] at hq
      simp only [Bool.or_eq_true, not_or, Bool.not_eq_true] at hstop
      obtain ⟨htext, rfl⟩ := Zone.eq_of_next?_content hq hstop.1
      obtain ⟨hend, hrun⟩ := ih h'
      refine ⟨hend, fun j hj hj' => ?_⟩
      rcases hj.eq_or_lt with rfl | hlt'
      · rw [hk, htext]
      · exact hrun j hlt' hj'
  | case3 i hge => exact ⟨h, fun j hj hj' => absurd hj' (Nat.not_lt_of_le hj)⟩

theorem closingTagEnd (h : t.Follows (.between .closingTag) i) :
    t.Follows (.between .content) (Builder.closingTagEnd t i) := by
  have hkind {i : Nat} (hlt : i < t.size) : t.kind? i = some (t.tokens[i]).kind := by
    rw [kind?, Array.getElem?_eq_getElem hlt]
    rfl
  fun_induction Builder.closingTagEnd t i with
  | case1 i hlt hk ih => exact ih (h.step ((hkind hlt).trans (congrArg some hk)) rfl)
  | case2 i hlt hk ih => exact ih (h.step ((hkind hlt).trans (congrArg some hk)) rfl)
  | case3 i hlt hk => exact h.step ((hkind hlt).trans (congrArg some hk)) rfl
  | case4 i hlt hspace htext hend =>
      refine h.congr rfl fun kind hk => ?_
      cases (hkind hlt).symm.trans hk
      rw [Phase.next?_of_zone? rfl rfl, Phase.next?_of_zone? rfl rfl]
      exact (Zone.next?_closingTag htext hspace hend).symm
  | case5 i hge =>
      have hnone : t.kind? i = none := by
        rw [kind?, getElem?_neg t.tokens i hge]
        rfl
      exact follows_of_end hnone rfl

theorem closingTag (h : t.Follows (.between zone) i) (hopens : t.kind? i = some .lessThan)
    (hslash : t.kind? (i + 1) = some .slash) :
    t.Follows (.between .content) (Builder.closingTagEnd t (i + 3)) ∧
      t.kind? (i + 2) = some .tagName := by
  have hnext : (Phase.between zone).next? .lessThan = some .bracket := by
    cases zone <;> rfl
  have hslashed : t.Follows .slash (i + 2) := (h.step hopens hnext).step hslash rfl
  cases hname : t.kind? (i + 2) with
  | none => cases hslashed.isFinal hname
  | some kind =>
      obtain ⟨q, hq, h'⟩ := hslashed.next hname
      cases kind with
      | tagName =>
          cases hq
          exact ⟨h'.closingTagEnd, rfl⟩
      | _ => cases hq

theorem directive (h : t.Follows (.between zone) i) (hk : t.kind? i = some .directive) :
    t.Follows (.between zone.held) (i + t.directiveLength i) := by
  have hnext : (Phase.between zone).next? .directive = some (.directive zone.held) := by
    cases zone <;> rfl
  have hnamed : t.Follows (.directive zone.held) (i + 1) := h.step hk hnext
  unfold directiveLength argsIndex?
  split
  · rename_i hargs
    have hlen : i + (i + 1 + 1 - i) = i + 1 + 1 := by omega
    rw [Option.elim_some, hlen]
    exact hnamed.step hargs rfl
  · rename_i hspace
    have hspaced : t.Follows (.directiveSpaced zone.held) (i + 2) := hnamed.step hspace rfl
    split
    · rename_i hargs
      have hlen : i + (i + 2 + 1 - i) = i + 2 + 1 := by omega
      rw [Option.elim_some, hlen]
      exact hspaced.step hargs rfl
    · rename_i hargs
      rw [Option.elim_none]
      have hover (kind : TokenType) (hk : t.kind? (i + 2) = some kind) :
          (Phase.directiveSpaced zone.held).continue? kind = none := by
        cases kind with
        | directiveArgs => exact absurd hk hargs
        | _ => rfl
      cases zone with
      | startTag => exact hnamed.settleSpace hspace rfl rfl hover
      | content | closingTag =>
          cases hk : t.kind? (i + 2) with
          | none => cases hspaced.isFinal hk
          | some kind =>
              obtain ⟨q, hq, -⟩ := hspaced.next hk
              unfold Phase.next? at hq
              rw [hover kind hk] at hq
              cases hq
  · rename_i hargs hspace
    rw [Option.elim_none]
    refine hnamed.settle rfl fun kind hk => ?_
    cases kind with
    | directiveArgs => exact absurd hk hargs
    | whitespace => exact absurd hk hspace
    | _ => rfl

end Follows

theorem of?_closingTagEnd {j : Nat} (hj : i ≤ j) (hlt : j < Builder.closingTagEnd t i) :
    ∃ kind, t.kind? j = some kind ∧ Enclosure.of? kind = none := by
  have hkind {i : Nat} (hlt : i < t.size) : t.kind? i = some (t.tokens[i]).kind := by
    rw [kind?, Array.getElem?_eq_getElem hlt]
    rfl
  have hfirst {i : Nat} {kind : TokenType} (hlt : i < t.size) (hk : (t.tokens[i]).kind = kind)
      (hnone : Enclosure.of? kind = none) (hij : i = j) :
      ∃ kind, t.kind? j = some kind ∧ Enclosure.of? kind = none :=
    ⟨kind, hij ▸ (hkind hlt).trans (congrArg some hk), hnone⟩
  fun_induction Builder.closingTagEnd t i with
  | case1 i hlt' hk ih =>
      rcases hj.eq_or_lt with heq | hj'
      · exact hfirst hlt' hk rfl heq
      · exact ih hj' hlt
  | case2 i hlt' hk ih =>
      rcases hj.eq_or_lt with heq | hj'
      · exact hfirst hlt' hk rfl heq
      · exact ih hj' hlt
  | case3 i hlt' hk => exact hfirst hlt' hk rfl (by omega)
  | case4 => exact absurd hlt (Nat.not_lt_of_le hj)
  | case5 => exact absurd hlt (Nat.not_lt_of_le hj)

theorem of?_closingTag {j : Nat} (hopens : t.kind? i = some .lessThan)
    (hslash : t.kind? (i + 1) = some .slash) (hname : t.kind? (i + 2) = some .tagName)
    (hj : i ≤ j) (hlt : j < Builder.closingTagEnd t (i + 3)) :
    ∃ kind, t.kind? j = some kind ∧ Enclosure.of? kind = none := by
  rcases Nat.lt_or_ge j (i + 3) with hbefore | hafter
  · rcases (show j = i ∨ j = i + 1 ∨ j = i + 2 by omega) with rfl | rfl | rfl
    · exact ⟨_, hopens, rfl⟩
    · exact ⟨_, hslash, rfl⟩
    · exact ⟨_, hname, rfl⟩
  · exact of?_closingTagEnd hafter hlt

end Tokenized

namespace Builder

variable {t : Tokenized} {b b' : Builder} {p q : Phase} {zone : Zone} {kind : TokenType}

/-! What the builder takes where it looks for it -/

theorem follows_eat (h : t.Follows p b.pos) (hq : p.next? kind = some q) :
    Build.Returns (b.eat t kind) fun (ate, b') =>
      if ate then t.Follows q b'.pos else t.Follows p b'.pos ∧ t.kind? b'.pos ≠ some kind := by
  refine (returns_eat b kind).mono fun (ate, b') ⟨hate, _, hpos⟩ => ?_
  cases ate with
  | true =>
      have hpos : b'.pos = b.pos + 1 := hpos
      simp only [if_true, hpos]
      exact h.step (hate.1 rfl) hq
  | false =>
      have hpos : b'.pos = b.pos := hpos
      simp only [if_false, hpos, Bool.false_eq_true]
      exact ⟨h, mt hate.2 nofun⟩

theorem follows_closing {e : Enclosure} (h : t.Follows (.filled e zone) b.pos ∨
      t.Follows (.opened e zone) b.pos ∧ t.kind? b.pos ≠ some e.content) :
    Build.Returns (b.eat t e.closing) fun (_, b') => t.Follows (.between zone) b'.pos := by
  obtain ⟨hopened, hfilled⟩ := Phase.continue?_closing e zone
  refine (returns_eat b e.closing).mono fun (ate, b') ⟨hate, _, hpos⟩ => ?_
  cases ate with
  | true =>
      have hpos : b'.pos = b.pos + 1 := hpos
      have hk := hate.1 rfl
      simp only [hpos]
      exact h.elim (fun h => h.step hk (Phase.next?_of_continue? hfilled))
        fun h => h.1.step hk (Phase.next?_of_continue? hopened)
  | false =>
      have hpos : b'.pos = b.pos := hpos
      have hne : t.kind? b.pos ≠ some e.closing := mt hate.2 nofun
      simp only [hpos]
      cases hk : t.kind? b.pos with
      | none => exact Tokenized.follows_of_end hk rfl
      | some kind =>
          rw [hk] at hne
          rcases h with h | ⟨h, hcontent⟩
          · obtain ⟨q, hq, -⟩ := h.next hk
            exact absurd (congrArg some (Phase.eq_of_next?.2 hq)) hne
          · rw [hk] at hcontent
            obtain ⟨q, hq, -⟩ := h.next hk
            exact ((Phase.eq_of_next?.1 hq).elim (fun heq => hcontent (congrArg some heq))
              fun heq => hne (congrArg some heq)).elim

theorem follows_eatSpaceBefore (h : t.Follows p b.pos) (hq : p.next? .whitespace = some q)
    (accepts : TokenType → Bool) : Build.Returns (b.eatSpaceBefore t accepts) fun b' =>
      t.Follows q b'.pos ∧ (∃ kind, t.kind? b'.pos = some kind ∧ accepts kind) ∨
      t.Follows p b'.pos ∧ (t.kind? b'.pos = some .whitespace →
        ∀ kind, t.kind? (b'.pos + 1) = some kind → accepts kind = false) := by
  unfold eatSpaceBefore
  refine .ite (fun hat => ?_) fun hat => .ok (.inr ⟨h, fun hspace kind hk => ?_⟩)
  · obtain ⟨hspace, haccepts⟩ := (Bool.and_eq_true _ _).mp hat
    refine (returns_bump b).mono fun b' ⟨_, hb'⟩ => .inl ?_
    subst hb'
    exact ⟨h.step (beq_iff_eq.1 hspace) hq, (Option.any_eq_true _ _).1 haccepts⟩
  · have hspace' : b.isAt t .whitespace := beq_iff_eq.2 hspace
    rw [hspace', hk, Bool.true_and] at hat
    exact Bool.not_eq_true _ ▸ hat

/-! Attributes -/

def BeforeValue (t : Tokenized) (b : Builder) : Prop :=
  t.Follows .equalsSpaced b.pos ∧
    (∃ kind, t.kind? b.pos = some kind ∧ (kind = .quote ∨ kind = .attributeValue)) ∨
  t.Follows .equals b.pos ∧ (t.kind? b.pos = some .whitespace →
    ∀ kind, t.kind? (b.pos + 1) = some kind → kind ≠ .quote ∧ kind ≠ .attributeValue)

theorem BeforeValue.settle (h : BeforeValue t b) (hquote : t.kind? b.pos ≠ some .quote)
    (hvalue : t.kind? b.pos ≠ some .attributeValue) : t.Follows (.between .startTag) b.pos := by
  rcases h with ⟨_, kind, hk, rfl | rfl⟩ | ⟨h, hspace⟩
  · exact absurd hk hquote
  · exact absurd hk hvalue
  · by_cases hk : t.kind? b.pos = some .whitespace
    · refine h.settleSpace hk rfl rfl fun kind hk' => ?_
      obtain ⟨hne, hne'⟩ := hspace hk kind hk'
      cases kind with
      | quote => exact absurd rfl hne
      | attributeValue => exact absurd rfl hne'
      | _ => rfl
    · refine h.settle rfl fun kind hk' => ?_
      cases kind with
      | whitespace => exact absurd hk' hk
      | quote => exact absurd hk' hquote
      | attributeValue => exact absurd hk' hvalue
      | _ => rfl

theorem BeforeValue.step (h : BeforeValue t b) (hk : t.kind? b.pos = some kind)
    (hequals : Phase.equals.next? kind = some q)
    (hspaced : Phase.equalsSpaced.next? kind = some q) :
    t.Follows q (b.pos + 1) := by
  rcases h with ⟨h, -⟩ | ⟨h, -⟩
  · exact h.step hk hspaced
  · exact h.step hk hequals

theorem follows_quote (h : t.Follows .quotedValue b.pos ∨
      t.Follows .quoted b.pos ∧ t.kind? b.pos ≠ some .attributeValue) :
    Build.Returns (b.eat t .quote) fun (_, b') => t.Follows (.between .startTag) b'.pos := by
  refine (returns_eat b .quote).mono fun (ate, b') ⟨hate, _, hpos⟩ => ?_
  cases ate with
  | true =>
      have hpos : b'.pos = b.pos + 1 := hpos
      have hk := hate.1 rfl
      simp only [hpos]
      exact h.elim (fun h => h.step hk rfl) fun h => h.1.step hk rfl
  | false =>
      have hpos : b'.pos = b.pos := hpos
      have hquote : t.kind? b.pos ≠ some .quote := mt hate.2 nofun
      simp only [hpos]
      cases hk : t.kind? b.pos with
      | none => exact Tokenized.follows_of_end hk rfl
      | some kind =>
          rw [hk] at hquote
          rcases h with h | ⟨h, hvalue⟩
          · obtain ⟨q, hq, -⟩ := h.next hk
            cases kind with
            | quote => exact absurd rfl hquote
            | _ => cases hq
          · rw [hk] at hvalue
            obtain ⟨q, hq, -⟩ := h.next hk
            cases kind with
            | quote => exact absurd rfl hquote
            | attributeValue => exact absurd rfl hvalue
            | _ => cases hq

theorem pos_startIn (b : Builder) (q : Nat) (kind : NodeKind) :
    Build.Returns (b.startIn q kind) (·.2.pos = b.pos) :=
  (startIn_starts b q kind).returns.mono fun (_, b') hs => by rw [hs.rest]

theorem pos_finish (b : Builder) (id : Nat) : Build.Returns (b.finish id) (·.pos = b.pos) :=
  (returns_finishAt b id b.pos).mono fun b' ⟨_, hb'⟩ => by rw [hb']

theorem follows_attributeValue (h : BeforeValue t b) (id first : Nat) :
    Build.Returns (b.attributeValue t id first) fun b' =>
      t.Follows (.between .startTag) b'.pos := by
  have hreport {b₁ : Builder} (h₁ : t.Follows (.between .startTag) b₁.pos) (kind : DiagnosticKind)
      (i j : Nat) (detail : String) : Build.Returns (b₁.reportTokens t kind i j detail none)
        fun b' => t.Follows (.between .startTag) b'.pos := by
    refine (returns_report b₁ kind i j detail none).mono fun b' ⟨_, _, hb'⟩ => ?_
    subst hb'
    exact h₁
  unfold attributeValue
  refine .ite (fun hquote => ?_) fun hquote => .ite (fun hvalue => ?_) fun hvalue => ?_
  · have hopened : t.Follows .quoted (b.pos + 1) := h.step (beq_iff_eq.1 hquote) rfl rfl
    have hread : Phase.quoted.next? .attributeValue = some .quotedValue := rfl
    refine Build.Returns.any.bind fun quote _ => ?_
    split
    · refine (returns_bump b).bind fun b₁ ⟨_, hb₁⟩ => ?_
      refine (pos_startIn b₁ id .attributeValue).bind fun ⟨value, b₂⟩ hpos₂ => ?_
      refine (returns_modify b₂ value _).bind fun b₃ ⟨_, hb₃⟩ => ?_
      have hpos₃ : b₃.pos = b.pos + 1 := by rw [hb₃, hpos₂, hb₁]
      rw [← hpos₃] at hopened
      refine (follows_eat hopened hread).bind fun ⟨ate, b₄⟩ h₄ => ?_
      refine (pos_finish b₄ value).bind fun b₅ hpos₅ => ?_
      have h₅ : t.Follows .quotedValue b₅.pos ∨
          t.Follows .quoted b₅.pos ∧ t.kind? b₅.pos ≠ some .attributeValue := by
        rw [hpos₅]
        cases ate with
        | true => exact .inl h₄
        | false => exact .inr h₄
      refine (follows_quote h₅).bind fun ⟨closed, b₆⟩ h₆ => ?_
      exact .ite (fun _ => .ok h₆) fun _ => hreport h₆ _ _ _ _
    · exact .fault
  · refine (leaf_rest b id .attributeValue 1).bind fun ⟨_, b₁⟩ ⟨_, hb₁⟩ => .ok ?_
    have hpos₁ : b₁.pos = b.pos + 1 := by rw [hb₁]
    rw [hpos₁]
    exact h.step (beq_iff_eq.1 hvalue) rfl rfl
  · refine hreport (h.settle (fun hk => ?_) fun hk => ?_) _ _ _ _
    · exact hquote (beq_iff_eq.2 hk)
    · exact hvalue (beq_iff_eq.2 hk)

theorem follows_attributePair (h : t.Follows (.between .startTag) b.pos)
    (hk : t.kind? b.pos = some .attributeName) (element : Nat) :
    Build.Returns (b.attributePair t element) fun b' => t.Follows (.between .startTag) b'.pos := by
  have hnamed : t.Follows .attributeNamed (b.pos + 1) := h.step hk rfl
  have hspaced : Phase.attributeNamed.next? .whitespace = some .attributeSpaced := rfl
  have hequals : Phase.equals.next? .whitespace = some .equalsSpaced := rfl
  unfold attributePair
  refine (pos_startIn b element .attr).bind fun ⟨id, b₁⟩ hpos₁ => ?_
  refine (leaf_rest b₁ id .attributeName 1).bind fun ⟨_, b₂⟩ ⟨_, hb₂⟩ => ?_
  have hpos₂ : b₂.pos = b.pos + 1 := by
    rw [hb₂]
    exact congrArg (· + 1) hpos₁
  rw [← hpos₂] at hnamed
  refine (follows_eatSpaceBefore hnamed hspaced _).bind fun b₃ h₃ => ?_
  refine .ite (fun hat => ?_) fun hat => ?_
  · have hnone : b₃.isAt t .equals = false := by simpa using hat
    have hne : t.kind? b₃.pos ≠ some .equals := ne_of_beq_false hnone
    refine (pos_finish b₃ id).mono fun b' hpos' => ?_
    rw [hpos']
    rcases h₃ with ⟨_, kind, hkind, haccepts⟩ | ⟨h₃, hspace⟩
    · exact absurd (hkind.trans (congrArg some (beq_iff_eq.1 haccepts))) hne
    · by_cases hwhite : t.kind? b₃.pos = some .whitespace
      · refine h₃.settleSpace hwhite rfl rfl fun kind hkind => ?_
        have hother := hspace hwhite kind hkind
        cases kind with
        | equals => cases hother
        | _ => rfl
      · refine h₃.settle rfl fun kind hkind => ?_
        cases kind with
        | whitespace => exact absurd hkind hwhite
        | equals => exact absurd hkind hne
        | _ => rfl
  · have hat' : b₃.isAt t .equals := by simpa using hat
    have hsign : t.kind? b₃.pos = some .equals := beq_iff_eq.1 hat'
    have hequal : t.Follows .equals (b₃.pos + 1) :=
      h₃.elim (fun h₃ => h₃.1.step hsign rfl) fun h₃ => h₃.1.step hsign rfl
    refine (returns_bump b₃).bind fun b₄ ⟨_, hb₄⟩ => ?_
    have hpos₄ : b₄.pos = b₃.pos + 1 := by rw [hb₄]
    rw [← hpos₄] at hequal
    refine (follows_eatSpaceBefore hequal hequals _).bind fun b₅ h₅ => ?_
    have hvalue : BeforeValue t b₅ := by
      rcases h₅ with ⟨h₅, kind, hkind, haccepts⟩ | ⟨h₅, hspace⟩
      · exact .inl ⟨h₅, kind, hkind, by simpa using haccepts⟩
      · exact .inr ⟨h₅, fun hwhite kind hkind => by simpa using hspace hwhite kind hkind⟩
    refine (follows_attributeValue hvalue id _).bind fun b₆ h₆ => ?_
    exact (pos_finish b₆ id).mono fun b' hpos' => hpos' ▸ h₆

end Builder
end BladeTree
