import BladeTree.Edit.StartTag
import BladeTree.Proofs.Document.ElementEnd

namespace BladeTree

theorem Source.toByteArray_slice_succ {s : Source} {i : Nat} {b : UInt8} (hb : s.byte? i = some b)
    (hascii : Byte.isAscii b) : (s.slice i (i + 1)).toByteArray = ⟨#[b]⟩ := by
  obtain ⟨hlt, hget⟩ := getElem?_eq_some_iff.1 (show s.bytes[i]? = some b from hb)
  rw [s.toByteArray_slice (s.isBoundary_of_ascii hb hascii) (s.isBoundary_succ_of_ascii hb hascii)
    (Nat.le_succ i)]
  apply ByteArray.ext
  rw [ByteArray.data_extract, Array.extract_succ_right (Nat.lt_succ_self i) hlt,
    Array.extract_empty_of_stop_le_start le_rfl]
  exact congrArg (#[·]) hget

namespace Document

variable {o : ParseOptions} {text name : String} {d : Document} {id c i : Nat}

def SpellsTags (d : Document) : Prop := ∀ token ∈ d.tokens, token.Spelled d.source

theorem spellsTags_of_parse (hlexer : o.lexerExtensions = []) (h : parse o text = .ok d) :
    d.SpellsTags := by
  obtain ⟨lexed, b, hlex, -, rfl⟩ := exists_build_of_parse h
  exact (lexed_sound hlex).spelled hlexer

section Spelled

variable (hw : d.toTokenized.Whole) (hspelled : d.SpellsTags)
include hw hspelled

theorem tokenText_of_spelled {kind : TokenType} {b : UInt8} {char : String}
    (hk : d.kind? i = some kind)
    (hbyte : ∀ token : Token, token.kind = kind → token.Spelled d.source →
      d.source.byte? token.start = some b ∧ token.stop = token.start + 1)
    (hascii : Byte.isAscii b) (hchar : char.toByteArray = ⟨#[b]⟩) :
    d.tokenText i (i + 1) = char := by
  obtain ⟨token, htoken, hkind⟩ := Option.map_eq_some_iff.1 hk
  obtain ⟨hb, hstop⟩ := hbyte token hkind (hspelled token (Array.mem_of_getElem? htoken))
  have hstart : d.offset i = token.start := by
    unfold Tokenized.offset
    rw [htoken]
    rfl
  have hnext : d.offset (i + 1) = token.start + 1 := (hw.stop_eq_offset htoken).symm.trans hstop
  rw [tokenText_eq hw (Nat.le_succ i), Tokenized.textBetween, hstart, hnext]
  exact String.toByteArray_inj.1 ((Source.toByteArray_slice_succ hb hascii).trans hchar.symm)

theorem tokenText_lessThan (hk : d.kind? i = some .lessThan) : d.tokenText i (i + 1) = "<" := by
  refine tokenText_of_spelled hw hspelled hk (fun token hkind hbyte => ?_) (by decide) rfl
  unfold Token.Spelled at hbyte
  rwa [hkind] at hbyte

theorem tokenText_slash (hk : d.kind? i = some .slash) : d.tokenText i (i + 1) = "/" := by
  refine tokenText_of_spelled hw hspelled hk (fun token hkind hbyte => ?_) (by decide) rfl
  unfold Token.Spelled at hbyte
  rwa [hkind] at hbyte

theorem text_closing (htag : d.toTokenized.ClosingTagAt (d.node c).tokenStart name)
    (hn : 3 ≤ (d.node c).tokenCount) :
    d.text c = "</" ++ name ++ d.tokenText ((d.node c).tokenStart + 3) (d.node c).tokenEnd := by
  have hname : d.tokenText ((d.node c).tokenStart + 2) ((d.node c).tokenStart + 3) = name :=
    Except.ok.inj ((text_eq_tokenText htag.lt_size).symm.trans htag.named)
  have hstop : (d.node c).tokenStart + 3 ≤ (d.node c).tokenEnd := Nat.add_le_add_left hn _
  have hopens := tokenText_lessThan hw hspelled htag.opens
  have hslash := tokenText_slash hw hspelled htag.slash
  rw [tokenText_eq hw (by omega)] at hname hopens hslash
  unfold text
  rw [tokenText_eq hw (by omega), tokenText_eq hw hstop,
    ← hw.textBetween_append (j := (d.node c).tokenStart + 3) (by omega) hstop,
    ← hw.textBetween_append (j := (d.node c).tokenStart + 2) (by omega) (Nat.le_succ _), hname,
    ← hw.textBetween_append (j := (d.node c).tokenStart + 1) (by omega) (Nat.le_succ _), hopens,
    hslash]
  rfl

end Spelled

/-- Without extensions a closing tag and the same tag under another name differ in the name only. -/
theorem exists_text_closing_of_parse (hlexer : o.lexerExtensions = [])
    (htree : o.treeExtensions = []) (h : parse o text = .ok d) (hid : d.kind id = .element)
    (hp : (d.node c).parent = some id) (hc : d.kind c = .closingElementName) :
    ∃ old rest, d.textOfKind? c .tagName = some old ∧ d.text c = "</" ++ old ++ rest ∧
      ∀ new, d.renamedClosingTag c new = "</" ++ new ++ rest := by
  have hspelled := spellsTags_of_parse hlexer h
  obtain ⟨lexed, b, hlex, hb, hd⟩ := exists_build_of_parse h
  have hsound := lexed_sound hlex
  have hnodes : d.nodes = b.nodes := by rw [hd]
  have ht : d.toTokenized = lexed.tokenized o (.ofString text) := by rw [hd]
  have hw : d.toTokenized.Whole := by
    rw [ht]
    exact hsound.tokenized_whole fun x hx => absurd (hlexer ▸ hx) List.not_mem_nil
  have hnamed (i : Nat) (hi : d.kind? i = some .slash) : d.kind? (i + 1) = some .tagName := by
    rw [ht] at hi ⊢
    exact hsound.kind?_succ_of_slash hlexer hi
  have hfinished := Builder.finished_build htree b hb id (hnodes ▸ hid)
  have hbare : ¬ b.Bare id := fun hbare => hbare c (hnodes ▸ hp) (hnodes ▸ hc)
  cases hfinished with
  | paired c' _ _ hpairs =>
      obtain ⟨-, ⟨n, hn, hown⟩, ⟨_, name, -, htag, -⟩, -, honly⟩ := hpairs
      obtain rfl : c = c' := honly c (hnodes ▸ hp) (hnodes ▸ hc)
      rw [← hnodes] at hown htag
      rw [← ht] at htag
      have hcount : (d.node c).tokenCount = n := (congrArg FlatNode.tokenCount hown :)
      refine ⟨name, _, textOfKind?_closing hnamed htag hn hcount,
        text_closing hw hspelled htag (hcount ▸ hn), fun new => ?_⟩
      have hstop : (d.node c).tokenStart + 3 ≤ (d.node c).tokenEnd :=
        Nat.add_le_add_left (hcount ▸ hn) _
      unfold renamedClosingTag
      simp only [Nat.min_eq_left hstop]
  | synthetic _ _ _ _ hnone => exact absurd hnone hbare
  | broken _ _ hnone => exact absurd hnone hbare
  | empty _ _ _ hnone => exact absurd hnone hbare

end Document
end BladeTree
