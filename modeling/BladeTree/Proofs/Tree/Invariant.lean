import BladeTree.Proofs.Tree.Change

namespace BladeTree
namespace Builder

/-- A property that a tree keeps while it is built: constructs that open nothing keep it, start tags
do and openers of blocks do. -/
structure Invariant (t : Tokenized) (P : Builder → Prop) : Prop where
  quiet : ∀ b b', P b → Extends b.nodes.size b b' → Final b b' → P b'
  startTag : ∀ b, b.Sound t → P b → Build.Returns (b.startTag t) P
  openBlock : ∀ b rule name, b.Sound t → P b → Build.Returns (b.openBlock t rule name) P

namespace Invariant

variable {t : Tokenized} {P : Builder → Prop} {b : Builder} (hP : Invariant t P)
include hP

theorem returns (h : P b) {x : Build Builder} (hx : Build.Ensures x (Extends b.nodes.size b ·))
    (hf : Build.Returns x (Final b)) : Build.Returns x P :=
  (hx.returns.and hf).mono fun b' ⟨hextends, hfinal⟩ => hP.quiet b b' h hextends hfinal

theorem place (hs : b.Sound t) (h : P b) (name : String) (first : Nat) (hasArgs : Bool)
    (place : DirectivePlace) : Build.Returns (b.place t name first hasArgs place) P := by
  have hx : Extends b.nodes.size b b := .refl le_rfl
  by_cases hopener : ∃ rule, place = .opener rule
  · obtain ⟨rule, rfl⟩ := hopener
    exact hP.openBlock b rule name hs h
  · have hother : ∀ rule, place ≠ .opener rule := fun rule hrule => hopener ⟨rule, hrule⟩
    exact hP.returns h (hx.place name first hasArgs hother) ((Final.refl b).place _ _ _ _)

theorem directive (hs : b.Sound t) (h : P b) (hlt : b.pos < t.size) :
    Build.Returns (b.directive t) P := by
  have hx : Extends b.nodes.size b b := .refl le_rfl
  rw [directive_eq]
  refine Build.Returns.any.bind fun name _ => ?_
  refine Build.Returns.any.bind fun arity _ => ?_
  refine Build.Returns.bind (P := fun b' => b'.Sound t ∧ P b') ?_ fun b₁ ⟨hs₁, h₁⟩ =>
    hP.place hs₁ h₁ _ _ _ _
  refine .ite (fun _ => ?_) fun _ => .ok ⟨hs, h⟩
  have hsound : Build.Returns (b.missingArguments t name b.pos (b.pos + 1)) fun b' =>
      b'.Sound t ∧ b'.pos = b.pos := (hs.missingArguments name b.pos hlt).returns
  have hkept : Build.Returns (b.missingArguments t name b.pos (b.pos + 1)) P :=
    hP.returns h (hx.missingArguments name _ _) ((Final.refl b).reportTokens _ _ _ _ _)
  exact (hsound.and hkept).mono fun b' ⟨⟨hs', _⟩, h'⟩ => ⟨hs', h'⟩

theorem construct (hs : b.Sound t) (h : P b) {kind : TokenType} (hk : b.current? t = some kind) :
    Build.Returns (b.construct t kind) P := by
  have hx : Extends b.nodes.size b b := .refl le_rfl
  have hinner : Inner t b.parent b b := .refl
  have hquiet {x : Build Builder} (hinside : Build.Returns x (Inner t b.parent b)) :
      Build.Returns x P :=
    hinside.mono fun b' h' => hP.quiet b b' h h'.extends h'.final
  have hfinal {x : Build Builder} (hchanges : Build.Returns x (Changes t b)) :
      Build.Returns x (Final b) := hchanges.mono fun _ hc => hc.final
  unfold Builder.construct
  split
  · refine .ite (fun _ => hP.returns h hx.closingTag (hfinal ((Changes.refl b).closingTag hs)))
      fun _ => ?_
    exact .ite (fun _ => hP.startTag b hs h) fun _ => hquiet (hinner.text (.inl rfl))
  · exact hquiet (hinner.echo (.inl rfl) rfl _ _)
  · exact hquiet (hinner.echo (.inl rfl) rfl _ _)
  · exact hquiet (hinner.echo (.inl rfl) rfl _ _)
  · exact hquiet (hinner.delimited (.inl rfl) rfl _ _ _)
  · exact hquiet (hinner.delimited (.inl rfl) rfl _ _ _)
  · exact hquiet (hinner.single (.inl rfl) rfl 1)
  · exact hquiet (hinner.single (.inl rfl) rfl 1)
  · exact hquiet (hinner.single (.inl rfl) rfl 1)
  · exact hquiet (hinner.delimited (.inl rfl) rfl _ _ _)
  · exact hquiet (hinner.delimited (.inl rfl) rfl _ _ _)
  · exact hP.returns h (hx.verbatim _) (hfinal (Changes.refl b).verbatim)
  · exact hP.directive hs h (lt_size_of_current? hk)
  · exact hquiet (hinner.text (.inl rfl))

variable (hext : t.options.treeExtensions = [])
include hext

theorem contentItem (hs : b.Sound t) (h : P b) : Build.Returns (b.contentItem t) P := by
  unfold Builder.contentItem
  rw [extensionLeaf?_eq_none hext]
  simp only
  split
  · exact hP.construct hs h ‹_›
  · exact .ok h

theorem items (hs : b.Sound t) (h : P b) : Build.Returns (b.items t) P := by
  fun_induction Builder.items t b with
  | case1 b hlt ih =>
      have hitem := (hs.contentItem hlt).returns.and (hP.contentItem hext hs h)
      refine hitem.bind fun b₁ hitem₁ => ?_
      obtain ⟨⟨hs₁, hlt₁⟩, h₁⟩ := hitem₁
      rw [dif_pos hlt₁]
      exact ih b₁ hlt₁ hs₁ h₁
  | case2 b _ => exact .ok h

/-- What holds at first and is kept by every construct holds of the finished tree. -/
theorem build (h : P initial) : Build.Returns (Builder.build t) P := by
  unfold Builder.build
  refine (hP.items hext sound_initial h).bind fun b₁ h₁ => ?_
  have hx₁ : Extends b₁.nodes.size b₁ b₁ := .refl le_rfl
  refine (hP.returns h₁ (hx₁.forceCloseMany closedByEnd t.size b₁.stack.length)
    ((Final.refl b₁).forceCloseMany _ _ _)).bind fun b₂ h₂ => ?_
  have hx₂ : Extends b₂.nodes.size b₂ b₂ := .refl le_rfl
  refine hP.returns h₂ (hx₂.finish root) ((Final.refl b₂).finishAt (.inl ?_) b₂.pos)
  unfold openPath
  exact List.mem_append_right _ List.mem_cons_self

end Invariant
end Builder
end BladeTree
