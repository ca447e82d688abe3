import BladeTree.Document.Basic
import BladeTree.Proofs.Token.Lexer.Run
import BladeTree.Proofs.Tree.Items

namespace BladeTree

def Lexed.tokenized (o : ParseOptions) (s : Source) (lexed : Lexed) : Tokenized :=
  ⟨o, s, lexed.tokens⟩

namespace Lexed.Sound

variable {o : ParseOptions} {s : Source} {lexed : Lexed} (h : lexed.Sound o s)
  (ho : o.lexerExtensions = [])
include h ho

theorem kind?_succ_of_slash {i : Nat} (hi : (lexed.tokenized o s).kind? i = some .slash) :
    (lexed.tokenized o s).kind? (i + 1) = some .tagName := by
  obtain ⟨token, htoken, hkind⟩ := Option.map_eq_some_iff.1 hi
  have htoken : lexed.tokens[i]? = some token := htoken
  rw [← Array.getElem?_toList] at htoken
  obtain ⟨u, hu, hname⟩ := h.named ho i token htoken hkind
  rw [Array.getElem?_toList] at hu
  have hu : (lexed.tokenized o s).tokens[i + 1]? = some u := hu
  rw [Tokenized.kind?, hu, Option.map_some, hname]

/-- Without extensions the lexer gives what the tree builder relies on. -/
theorem grammatical : (lexed.tokenized o s).Grammatical where
  solid i token htoken := by
    have hmem : token ∈ lexed.tokens := Array.mem_of_getElem? htoken
    exact ⟨h.solid ho token hmem, h.tiles.stop_le hmem.val⟩
  named i hi := Tokenized.lt_size_of_kind? (h.kind?_succ_of_slash ho hi)

end Lexed.Sound

theorem exists_eq_ok_of_toBool {ε α : Type} {x : Except ε α} (h : x.toBool) : ∃ a, x = .ok a := by
  cases x with
  | ok a => exact ⟨a, rfl⟩
  | error e => cases h

theorem eq_ok_of_toOption {ε α : Type} {x : Except ε α} {a : α} (h : x.toOption = some a) :
    x = .ok a := by
  cases x with
  | ok b => exact congrArg Except.ok (Option.some.inj h)
  | error e => cases h

namespace Document

variable {o : ParseOptions} {text : String} {d : Document}

theorem parse_eq_of_lex {lexed : Lexed} (h : lex o (.ofString text) = .ok lexed) :
    parse o text = (fun b => ⟨lexed.tokenized o (.ofString text), lexed.errors, b.nodes, b.metadata,
      b.diagnostics⟩) <$> Builder.build (lexed.tokenized o (.ofString text)) := by
  unfold parse
  simp only [h]
  rfl

theorem exists_build_of_parse (h : parse o text = .ok d) :
    ∃ (lexed : Lexed) (b : Builder), lex o (.ofString text) = .ok lexed ∧
      Builder.build (lexed.tokenized o (.ofString text)) = .ok b ∧
      d = ⟨lexed.tokenized o (.ofString text), lexed.errors, b.nodes, b.metadata,
        b.diagnostics⟩ := by
  cases hlex : lex o (.ofString text) with
  | error f =>
      rw [parse, hlex] at h
      cases h
  | ok lexed =>
      rw [parse_eq_of_lex hlex] at h
      cases hb : Builder.build (lexed.tokenized o (.ofString text)) with rw [hb] at h
      | error e => cases h
      | ok b =>
          cases h
          exact ⟨lexed, b, rfl, hb, rfl⟩

theorem lex_of_parse (h : parse o text = .ok d) :
    lex o (.ofString text) = .ok ⟨d.tokens, d.lexerErrors⟩ := by
  obtain ⟨lexed, b, hlex, -, rfl⟩ := exists_build_of_parse h
  exact hlex

theorem exists_built_of_parse (h : parse o text = .ok d) :
    ∃ (lexed : Lexed) (b : Builder), lexed.Sound o (.ofString text) ∧
      Builder.Built (lexed.tokenized o (.ofString text)) b ∧
      d = ⟨lexed.tokenized o (.ofString text), lexed.errors, b.nodes, b.metadata,
        b.diagnostics⟩ := by
  obtain ⟨lexed, b, hlex, hb, hd⟩ := exists_build_of_parse h
  have hbuild := Builder.yields_build (t := lexed.tokenized o (.ofString text))
  rw [hb] at hbuild
  exact ⟨lexed, b, lexed_sound hlex, hbuild, hd⟩

end Document
end BladeTree
