import BladeTree.Proofs.Document.Parse
import Mathlib

namespace BladeTree

/-- Tokens of whole characters that tile their source. -/
structure Tokenized.Whole (t : Tokenized) : Prop where
  tiles : Tiles 0 t.tokens.toList t.source.size
  boundaries : ∀ token ∈ t.tokens, token.OnBoundaries t.source

def Tokenized.textBetween (t : Tokenized) (i j : Nat) : String :=
  t.source.slice (t.offset i) (t.offset j)

theorem Lexed.Sound.tokenized_whole {o : ParseOptions} {s : Source} {lexed : Lexed}
    (h : lexed.Sound o s) (hx : ∀ x ∈ o.lexerExtensions, x.OnBoundaries s) :
    (lexed.tokenized o s).Whole where
  tiles := h.tiles
  boundaries := h.whole hx

namespace Tokenized.Whole

variable {t : Tokenized} (h : t.Whole) {i j k : Nat}
include h

theorem isBoundary_offset (i : Nat) : t.source.isBoundary (t.offset i) := by
  unfold offset
  cases hi : t.tokens[i]? with
  | none => exact t.source.isBoundary_size
  | some token => exact (h.boundaries token (Array.mem_of_getElem? hi)).1

theorem stop_eq_offset {token : Token} (hi : t.tokens[i]? = some token) :
    token.stop = t.offset (i + 1) := by
  have := h.tiles.stop_eq (i := i) (by rwa [Array.getElem?_toList])
  rwa [Array.getElem?_toList] at this

theorem offset_le_offset (hij : i ≤ j) : t.offset i ≤ t.offset j := by
  induction hij with
  | refl => exact le_rfl
  | step _ ih =>
      rename_i j _
      refine ih.trans ?_
      cases hj : t.tokens[j]? with
      | none =>
          have hnext : t.tokens[j + 1]? = none := by
            rw [Array.getElem?_eq_none_iff] at hj ⊢
            omega
          rw [offset, offset, hj, hnext]
      | some token =>
          have hle := h.tiles.start_le_stop (Array.mem_of_getElem? hj).val
          rw [← h.stop_eq_offset hj, offset, hj]
          exact hle

omit h in
theorem offset_size : t.offset t.size = t.source.size := by
  have hnone : t.tokens[t.size]? = none := Array.getElem?_eq_none le_rfl
  rw [offset, hnone]
  rfl

theorem offset_zero : t.offset 0 = 0 := by
  have htiles := h.tiles
  unfold offset
  rw [← Array.getElem?_toList]
  cases hts : t.tokens.toList with
  | nil =>
      rw [hts] at htiles
      exact htiles.symm
  | cons token ts =>
      rw [hts] at htiles
      exact htiles.1

theorem textBetween_append (hij : i ≤ j) (hjk : j ≤ k) :
    t.textBetween i j ++ t.textBetween j k = t.textBetween i k :=
  t.source.slice_append_slice (h.isBoundary_offset i) (h.isBoundary_offset j)
    (h.isBoundary_offset k) (h.offset_le_offset hij) (h.offset_le_offset hjk)

theorem textBetween_all : t.textBetween 0 t.size = t.source.text := by
  rw [textBetween, h.offset_zero, offset_size, t.source.slice_all]

end Tokenized.Whole

namespace Document

variable {d : Document}

section Whole

variable (hw : d.toTokenized.Whole)

include hw in
theorem tokenSpan_eq {i j : Nat} (hij : i ≤ j) : d.tokenSpan i j = ⟨d.offset i, d.offset j⟩ := by
  unfold tokenSpan
  split
  · rename_i hlt
    have hstop : (d.tokens[j - 1]?).elim d.source.size (·.stop) = d.offset j := by
      cases hj : d.tokens[j - 1]? with
      | none =>
          have hnone : d.tokens[j]? = none := by
            rw [Array.getElem?_eq_none_iff] at hj ⊢
            omega
          rw [Tokenized.offset, hnone]
          rfl
      | some token =>
          have := hw.stop_eq_offset hj
          rwa [show j - 1 + 1 = j by omega] at this
    rw [hstop]
  · rw [show i = j by omega]

include hw in
theorem tokenText_eq {i j : Nat} (hij : i ≤ j) : d.tokenText i j = d.textBetween i j := by
  unfold tokenText
  rw [tokenSpan_eq hw hij]
  rfl

theorem id_tree (id : Nat) : (d.tree id).id = id := by
  unfold tree
  split
  · split <;> rfl
  · rfl

variable (hg : (BladeTree.outline d.nodes).Growing [] d.size)

include hw hg

theorem renderTree_eq (id : Nat) :
    d.renderTree (d.tree id) = d.textBetween (d.node id).tokenStart (d.node id).tokenEnd := by
  have hl := hg.linked
  have hinside {c p : Nat} (hp : (d.node c).parent = some p) :
      (d.node c).tokenEnd ≤ (d.node p).tokenEnd :=
    hg.inside c p hp List.not_mem_nil
  refine tree.induct d
    (fun id => d.renderTree (d.tree id) =
      d.textBetween (d.node id).tokenStart (d.node id).tokenEnd)
    (fun id => ∀ p pos, (d.node id).parent = some p → pos ≤ (d.node id).tokenStart →
      d.renderChildren pos (d.node p).tokenEnd (d.forest id) =
        d.textBetween pos (d.node p).tokenEnd)
    ?_ ?_ ?_ ?_ id
  · intro id child hchild hlt ih
    have hp : (d.node child).parent = some id := (hl.first id).of_eq_some hchild
    rw [tree, hchild]
    simp only
    rw [dif_pos hlt, renderTree]
    exact ih id _ hp (hg.starts child id hp)
  · intro id child hchild hlt
    have hp : (d.node child).parent = some id := (hl.first id).of_eq_some hchild
    exact absurd (hl.below child id hp) hlt
  · intro id hnone
    rw [tree, hnone]
    simp only
    rw [renderTree, renderChildren]
    exact tokenText_eq hw (hg.ordered id)
  · intro id ih ihnext p pos hp hpos
    have hstart : (d.node id).tokenStart ≤ (d.node id).tokenEnd := hg.ordered id
    have hend := hinside hp
    have hrest : d.renderChildren (d.node id).tokenEnd (d.node p).tokenEnd (d.forest id).tail =
        d.textBetween (d.node id).tokenEnd (d.node p).tokenEnd := by
      rw [forest, List.tail_cons]
      cases hs : (d.node id).nextSibling with
      | none => exact (renderChildren.eq_1 d _ _).trans (tokenText_eq hw hend)
      | some next =>
          obtain ⟨hlt, q, hq, hnext⟩ := (hl.next id).of_eq_some hs
          obtain rfl : p = q := Option.some.inj (hp.symm.trans hq)
          have hsize : next < d.nodes.size := (hl.below next p hnext).2
          simp only
          rw [dif_pos ⟨hlt, hsize⟩]
          exact ihnext next ⟨hlt, hsize⟩ p _ hnext (hg.apart id next hs)
    have hforest : d.forest id = d.tree id :: (d.forest id).tail := by
      rw [forest, List.tail_cons]
    rw [hforest, renderChildren, id_tree, ih, hrest, tokenText_eq hw hpos,
      hw.textBetween_append hpos hstart, hw.textBetween_append (hpos.trans hstart) hend]

end Whole

/-- The source of a template can be read off its tree. -/
theorem render_parse {o : ParseOptions} {text : String} (h : parse o text = .ok d)
    (hx : ∀ x ∈ o.lexerExtensions, x.OnBoundaries (.ofString text)) : d.render = text := by
  obtain ⟨lexed, b, hsound, hbuilt, rfl⟩ := exists_built_of_parse h
  have hw : (lexed.tokenized o (.ofString text)).Whole := hsound.tokenized_whole hx
  have hstart : (slot b.nodes 0).tokenStart = 0 := hbuilt.growing.origin
  have hstop : (slot b.nodes 0).tokenEnd = (lexed.tokenized o (.ofString text)).size :=
    hbuilt.covers
  refine (renderTree_eq hw hbuilt.growing Builder.root).trans ?_
  refine Eq.trans ?_ hw.textBetween_all
  exact congrArg₂ _ hstart hstop

def hashWord : LexerExtension where
  name := "hash-word"
  priority := 0
  triggers := [Byte.hash]
  types := []
  activates _ := true
  tokenize offer :=
    let stop := offer.source.skipWhile Byte.isWord (offer.position + 1)
    ([⟨.ofId 200, stop - offer.position⟩], true)

def hashPair : TreeExtension where
  name := "hash-pair"
  priority := 0
  kinds := []
  canHandle offer := (offer.tokens[offer.position]?).any (·.kind.isExtension)
  handle _ := ⟨.text, 0, 2⟩

def hashOptions : ParseOptions :=
  { ParseOptions.ofDirectives [] with lexerExtensions := [hashWord], treeExtensions := [hashPair] }

theorem onBoundaries_hashWord (s : Source) : hashWord.OnBoundaries s :=
  LexerExtension.onBoundaries_of_single s (by decide) fun _ => ⟨_, rfl⟩

theorem render_parse_hashOptions :
    ∃ d, parse hashOptions "<li>#a\x7b\x7b é \x7d\x7d<br #a x='</p" = .ok d ∧
      d.render = "<li>#a\x7b\x7b é \x7d\x7d<br #a x='</p" := by
  have hread : (parse hashOptions "<li>#a\x7b\x7b é \x7d\x7d<br #a x='</p").toBool := by cbv
  obtain ⟨d, hd⟩ := exists_eq_ok_of_toBool hread
  refine ⟨d, hd, render_parse hd fun x hx => ?_⟩
  cases List.mem_singleton.1 hx
  exact onBoundaries_hashWord _

end Document
end BladeTree
