import BladeTree.Proofs.Tree.Markers

namespace BladeTree
namespace Builder

variable {t : Tokenized} {b : Builder} {rule : BlockRule} {m : Nat}

/-! The place of a directive -/

/-- What the frames around a directive say of it where it has this place. -/
def DirectivePlace.Suits (stack : List Frame) (name : String) (hasArgs : Bool) :
    DirectivePlace → Prop
  | .branch above => ∃ rule, Frame.nearestBlock? 0 stack = some (above, rule) ∧
      rule.acceptsBranch name hasArgs
  | .terminator above => Frame.terminatedBlock? name stack = some above
  | .opener rule => BlockRule.find? name = some rule
  | .strayTerminator => Frame.terminatedBlock? name stack = none
  | .strayBranch => ∀ above rule, Frame.nearestBlock? 0 stack = some (above, rule) →
      ¬ rule.acceptsBranch name hasArgs
  | .standalone => True

theorem suits_directivePlace (stack : List Frame) (name : String) (hasArgs : Bool) (arity : Nat) :
    (directivePlace stack name hasArgs arity).Suits stack name hasArgs := by
  have houtside (hbranch : ∀ above rule, Frame.nearestBlock? 0 stack = some (above, rule) →
      ¬ rule.acceptsBranch name hasArgs) :
      (directivePlace.outside stack name hasArgs arity).Suits stack name hasArgs := by
    unfold directivePlace.outside
    split
    · rename_i above habove
      exact habove
    · rename_i hnone
      split
      · rename_i rule hrule
        exact (Option.filter_eq_some_iff.1 hrule).1
      · split
        · exact hnone
        · split
          · exact hbranch
          · trivial
  unfold directivePlace
  split
  · rename_i above rule hnear
    split
    · exact ⟨rule, hnear, ‹_›⟩
    · rename_i hno
      refine houtside fun above' rule' hnear' => ?_
      obtain ⟨rfl, rfl⟩ := Prod.mk.inj (Option.some.inj (hnear.symm.trans hnear'))
      exact hno
  · rename_i hnone
    refine houtside fun above' rule' hnear' => ?_
    cases hnone.symm.trans hnear'

theorem exists_of_nearestBlock? {stack : List Frame} {k above : Nat}
    (h : Frame.nearestBlock? k stack = some (above, rule)) :
    ∃ f below, k ≤ above ∧ stack.drop (above - k) = f :: below ∧ f.blockRule? = some rule := by
  induction stack generalizing k with
  | nil => cases h
  | cons f below ih =>
      unfold Frame.nearestBlock? at h
      split at h
      · rename_i rule' hrule
        cases h
        exact ⟨f, below, le_rfl, by rw [Nat.sub_self, List.drop_zero], hrule⟩
      · obtain ⟨g, rest, hle, hdrop, hg⟩ := ih h
        refine ⟨g, rest, (Nat.le_succ k).trans hle, ?_, hg⟩
        rw [show above - k = above - (k + 1) + 1 by omega, List.drop_succ_cons]
        exact hdrop

theorem exists_of_terminatedBlock? {stack : List Frame} {name : String} {above : Nat}
    (h : Frame.terminatedBlock? name stack = some above) :
    ∃ f below rule, stack.drop above = f :: below ∧ f.blockRule? = some rule ∧
      rule.isTerminator name := by
  obtain ⟨hlt, hends, -⟩ := List.findIdx?_eq_some_iff_getElem.1 h
  obtain ⟨rule, hrule, hends⟩ := (Option.any_eq_true _ _).1 hends
  exact ⟨_, _, rule, List.drop_eq_getElem_cons hlt, hrule, hends⟩

namespace Marked

theorem closeAboveBlock (h : b.Marked t) (hs : b.Sound t) (ho : b.ledger.Balanced t m)
    (above : Nat) (name : String) :
    Build.Returns (b.closeAboveBlock t above name) fun b' => b'.Marked t ∧ b'.Seated ∧
      b'.ledger.Orderly m ∧ b'.pos = b.pos ∧ b'.stack = b.stack.drop above := by
  have hclosed := ((Changes.refl (t := t) b).forceCloseMany (closedByDirective name) b.pos above).and
    ((hs.forceCloseMany (closedByDirective name) rfl above).returns.and
      (balanced_forceCloseMany ho (closedByDirective name) b.pos above))
  refine hclosed.mono fun b' ⟨hc, ⟨hs', hpos, hstack⟩, ho', _⟩ => ?_
  exact ⟨h.steady (hs.seated ho.orderly) hc.steady hc.final, hs'.seated ho'.orderly, ho'.orderly,
    hpos, hstack⟩

theorem place (h : b.Marked t) (hs : b.Sound t) (ho : b.ledger.Balanced t m)
    (htoken : t.kind? b.pos = some .directive) {name : String}
    (hname : t.directiveName b.pos = .ok name) {place : DirectivePlace}
    (hplace : place.Suits b.stack name (t.argsIndex? b.pos).isSome) :
    Build.Returns (b.place t name b.pos (t.argsIndex? b.pos).isSome place) (·.Marked t) := by
  have hseat := hs.seated ho.orderly
  cases place with
  | branch above =>
      obtain ⟨rule, hnear, haccepts⟩ := hplace
      obtain ⟨f, below, -, hdrop, hblock⟩ := exists_of_nearestBlock? hnear
      refine (h.closeAboveBlock hs ho above name).bind
        fun b₁ ⟨h₁, hseat₁, _, hpos₁, hstack₁⟩ => ?_
      refine (returns_places b₁ .branch).mono fun b' ⟨hp, _⟩ => ?_
      refine h₁.places hseat₁ hp fun rule' hk hrule' => ?_
      obtain ⟨g, rest, hstack, -, hg⟩ := h₁.exists_top hseat₁ hk hrule'
      obtain ⟨rfl, -⟩ := List.cons.inj (hstack.symm.trans (hstack₁.trans hdrop))
      obtain rfl : rule' = rule := Option.some.inj (hg.symm.trans hblock)
      refine .branch (hp.isMarker (hpos₁ ▸ htoken)) ?_
      rw [hp.tokenStart_eq, hpos₁]
      exact ⟨name, hname, haccepts⟩
  | terminator above =>
      obtain ⟨f, below, rule, hdrop, hblock, hends⟩ := exists_of_terminatedBlock? hplace
      refine (h.closeAboveBlock hs ho above name).bind
        fun b₁ ⟨h₁, hseat₁, ho₁, hpos₁, hstack₁⟩ => ?_
      exact h₁.terminator hseat₁ (hstack₁.trans hdrop) ho₁ (hpos₁ ▸ htoken) hblock
        (hpos₁ ▸ ⟨name, hname, hends⟩)
  | opener rule => exact h.openBlock hseat htoken hname hplace
  | strayTerminator =>
      refine (returns_places b .closer).bind fun b₁ ⟨hp, hpos₁⟩ => ?_
      refine (returns_report b₁ _ _ _ _ _).mono fun b' ⟨span, hspan, hb'⟩ => ?_
      subst hb'
      have hp' := hp.report (.detailed .unexpectedClosingTag span ("@" ++ name) none)
      refine h.places hseat hp' fun rule hk hrule => ?_
      obtain ⟨f, below, hstack, -, hblock⟩ := h.exists_top hseat hk hrule
      refine .strayCloser (hp'.isMarker htoken) ?_ ?_
      · rw [hp'.tokenStart_eq]
        rintro ⟨name', hname', hends⟩
        obtain rfl : name = name' := Except.ok.inj (hname.symm.trans hname')
        have hnone := List.findIdx?_eq_none_iff.1 hplace f (hstack ▸ List.mem_cons_self)
        rw [hblock, Option.any_some, hends] at hnone
        cases hnone
      · rw [hp'.tokenStart_eq]
        exact .report (hpos₁ ▸ hspan) _ _
  | strayBranch =>
      refine (returns_places b .branch).bind fun b₁ ⟨hp, hpos₁⟩ => ?_
      refine (returns_report b₁ _ _ _ _ _).mono fun b' ⟨span, hspan, hb'⟩ => ?_
      subst hb'
      have hp' := hp.report (.detailed .invalidNesting span
        ("`@" ++ name ++ "` is outside of a block it belongs to") none)
      refine h.places hseat hp' fun rule hk hrule => ?_
      obtain ⟨f, below, hstack, -, hblock⟩ := h.exists_top hseat hk hrule
      refine .strayBranch (hp'.isMarker htoken) ?_ ?_
      · rw [hp'.tokenStart_eq]
        rintro ⟨name', hname', haccepts⟩
        obtain rfl : name = name' := Except.ok.inj (hname.symm.trans hname')
        refine hplace 0 rule ?_ haccepts
        rw [hstack, Frame.nearestBlock?, hblock]
      · rw [hp'.tokenStart_eq]
        exact .report (hpos₁ ▸ hspan) _ _
  | standalone =>
      have hplaced {b' : Builder} (hp : b.Places t .standalone b') : b'.Marked t :=
        h.places hseat hp fun _ _ _ => .standalone (hp.isMarker htoken)
      refine (returns_places b .standalone).bind fun b₁ ⟨hp, _⟩ => ?_
      refine .ite (fun _ => ?_) fun _ => .ok (hplaced hp)
      refine (returns_report b₁ _ _ _ _ _).mono fun b' ⟨_, _, hb'⟩ => ?_
      subst hb'
      exact hplaced (hp.report _)

theorem directive (h : b.Marked t) (hs : b.Sound t) (ho : b.ledger.Balanced t m)
    (htoken : t.kind? b.pos = some .directive) : Build.Returns (b.directive t) (·.Marked t) := by
  rw [directive_eq]
  refine Build.Returns.bind (P := (t.directiveName b.pos = .ok ·)) (fun _ => id) fun name hname => ?_
  refine Build.Returns.any.bind fun arity _ => ?_
  refine Build.Returns.bind
    (P := fun b' => b'.Marked t ∧ b'.Sound t ∧ b'.ledger.Balanced t m ∧ b'.pos = b.pos) ?_
    fun b₁ ⟨h₁, hs₁, ho₁, hpos₁⟩ => ?_
  · refine .ite (fun _ => ?_) fun _ => .ok ⟨h, hs, ho, rfl⟩
    have hsound := (hs.missingArguments name b.pos (lt_size_of_current? htoken)).returns
    have hinner : Inner t b.parent b b := .refl
    have hchange := (Changes.refl (t := t) b).reportTokens .missingContent b.pos (b.pos + 1)
      ("`@" ++ name ++ "` needs arguments") none
    refine (hsound.and ((hinner.missingArguments name b.pos (b.pos + 1)).and hchange)).mono
      fun b' ⟨⟨hs', hpos'⟩, hi, hc⟩ => ⟨?_, hs', ?_, hpos'⟩
    · exact h.steady (hs.seated ho.orderly) hc.steady hc.final
    · rw [hi.ledger_eq]
      exact ho
  · rw [← hpos₁] at hname htoken ⊢
    exact h₁.place hs₁ ho₁ htoken hname (suits_directivePlace _ _ _ _)

/-! The whole tree -/

theorem contentItem (h : b.Marked t) (hs : b.Sound t) (ho : b.ledger.Balanced t m)
    (hext : t.options.treeExtensions = []) : Build.Returns (b.contentItem t) (·.Marked t) := by
  unfold Builder.contentItem
  rw [extensionLeaf?_eq_none hext]
  simp only
  split
  · rename_i kind hk
    by_cases hkind : kind = .directive
    · subst hkind
      exact h.directive hs ho hk
    · exact ((Changes.refl b).construct hs hkind).mono fun b' hc =>
        h.steady (hs.seated ho.orderly) hc.steady hc.final
  · exact .ok h

theorem items (h : b.Marked t) (hs : b.Sound t) (ho : b.ledger.Balanced t b.pos)
    (hext : t.options.treeExtensions = []) : Build.Returns (b.items t) (·.Marked t) := by
  fun_induction Builder.items t b with
  | case1 b hlt ih =>
      refine ((hs.contentItem hlt).returns.and ((balanced_contentItem hext ho).and
        (h.contentItem hs ho hext))).bind fun b₁ hitem => ?_
      obtain ⟨⟨hs₁, hlt₁⟩, ho₁, h₁⟩ := hitem
      rw [dif_pos hlt₁]
      exact ih b₁ hlt₁ h₁ hs₁ (ho₁.mono hlt₁)
  | case2 b _ => exact .ok h

end Marked

theorem marked_initial (t : Tokenized) : initial.Marked t := by
  have hkind (i : Nat) : (slot initial.nodes i).kind = .document := by rw [slot_initial]; rfl
  refine ⟨fun p hk => ?_, nofun, fun c p rule hk => ?_, fun p rule hk => ?_⟩
  · cases (hkind p).symm.trans hk
  · cases (hkind c).symm.trans hk
  · cases (hkind p).symm.trans hk

theorem marked_build (hext : t.options.treeExtensions = []) :
    Build.Returns (build t) fun b => b.Marked t ∧ b.stack = [] := by
  have hitems := (sound_initial.items (t := t)).returns.and ((balanced_items hext
    (balanced_initial t)).and ((marked_initial t).items sound_initial (balanced_initial t) hext))
  unfold build
  refine hitems.bind fun b₁ ⟨⟨hs₁, hpos₁⟩, ho₁, h₁⟩ => ?_
  refine (((Changes.refl (t := t) b₁).forceCloseMany closedByEnd t.size b₁.stack.length).and
    (hs₁.forceCloseMany closedByEnd hpos₁.symm b₁.stack.length).returns).bind
    fun b₂ ⟨hc₂, _, _, hstack⟩ => ?_
  rw [List.drop_length] at hstack
  have hroot : root ∈ b₂.openPath := List.mem_append_right _ List.mem_cons_self
  refine ((hc₂.finishAt (.inl hroot) b₂.pos).and (returns_finishAt b₂ root b₂.pos)).mono
    fun b' ⟨hc, _, hb'⟩ => ⟨?_, ?_⟩
  · exact h₁.steady (hs₁.seated ho₁.orderly) hc.steady hc.final
  · subst hb'
    exact hstack

end Builder
end BladeTree
