import BladeTree.Edit.NewNode
import BladeTree.Proofs.Document.Enclosed
import BladeTree.Proofs.Edit.Alike
import BladeTree.Proofs.Text.Enclosed
import Mathlib

namespace BladeTree

variable {text pat : String} {c : Char}

namespace WhiteSpace

def Trimmed (text : String) : Prop :=
  ∀ c, text.toList.head? = some c ∨ text.toList.getLast? = some c → contains c = false

theorem toList_trim (text : String) :
    (trim text).toList = (text.toList.dropWhile contains).rdropWhile contains := by
  simp only [trim, trimEnd, trimStart, String.toList_ofList, List.rdropWhile]

theorem trimmed_trim (text : String) : Trimmed (trim text) := by
  intro c hc
  rw [toList_trim] at hc
  rcases hc with hc | hc
  · obtain ⟨after, hafter⟩ := List.rdropWhile_prefix contains (text.toList.dropWhile contains)
    have hhead := List.head?_dropWhile_not contains text.toList
    rw [← hafter, List.head?_append, hc] at hhead
    exact hhead
  · have hne : (text.toList.dropWhile contains).rdropWhile contains ≠ [] := by
      intro hnil
      rw [hnil] at hc
      cases hc
    have hlast := List.rdropWhile_last_not contains _ hne
    rw [List.getLast?_eq_getLast_of_ne_nil hne, Option.some.injEq] at hc
    rw [hc] at hlast
    exact Bool.eq_false_iff.2 hlast

theorem toList_surrounded (text : String) :
    (" " ++ text ++ " ").toList = ' ' :: (text.toList ++ [' ']) := by
  simp

theorem Trimmed.exists_head (h : Trimmed text) (hne : text ≠ "") :
    ∃ c cs, text.toList = c :: cs ∧ contains c = false := by
  cases hcs : text.toList with
  | nil => exact absurd (String.toList_eq_nil_iff.1 hcs) hne
  | cons c cs =>
      refine ⟨c, cs, rfl, h c (.inl ?_)⟩
      rw [hcs, List.head?_cons]

theorem trim_surrounded (h : Trimmed text) (hne : text ≠ "") :
    trim (" " ++ text ++ " ") = text := by
  obtain ⟨c, cs, hcs, hc⟩ := h.exists_head hne
  have hspace : contains ' ' = true := by decide
  have hfront : (' ' :: (text.toList ++ [' '])).dropWhile contains = text.toList ++ [' '] := by
    rw [List.dropWhile_cons_of_pos hspace, hcs, List.cons_append,
      List.dropWhile_cons_of_neg (by simp [hc])]
  have hback : text.toList.rdropWhile contains = text.toList := by
    rw [List.rdropWhile_eq_self_iff]
    intro hnil
    rw [h _ (.inr (List.getLast?_eq_getLast_of_ne_nil hnil))]
    exact Bool.false_ne_true
  apply String.toList_inj.1
  rw [toList_trim, toList_surrounded, hfront, List.rdropWhile_concat_pos _ _ _ hspace, hback]

theorem isBlank_surrounded (h : Trimmed text) (hne : text ≠ "") :
    isBlank (" " ++ text ++ " ") = false := by
  obtain ⟨c, cs, hcs, hc⟩ := h.exists_head hne
  rw [isBlank, toList_surrounded, hcs]
  simp [hc]

end WhiteSpace

namespace NewNode

/-! What stands between a delimiter and its content -/

def IsPad (c : Char) : Prop := c = ' ' ∨ c = '\t'

theorem padding_eq (neighbour : Option Char) :
    padding neighbour = "" ∧ (∃ c, neighbour = some c ∧ IsPad c) ∨ padding neighbour = " " := by
  simp only [padding]
  split
  · rename_i hpad
    rcases hpad with rfl | rfl
    · exact .inl ⟨rfl, ' ', rfl, .inl rfl⟩
    · exact .inl ⟨rfl, '\t', rfl, .inr rfl⟩
  · exact .inr rfl

theorem toList_pad (content : String) : (pad content).toList =
    (padding content.toList.head?).toList ++ content.toList ++
      (padding content.toList.getLast?).toList := by
  simp only [pad, String.toList_append]

theorem head?_pad (content : String) : ∃ c, (pad content).toList.head? = some c ∧ IsPad c := by
  rw [toList_pad]
  rcases padding_eq content.toList.head? with ⟨hpad, c, hc, hblank⟩ | hpad
  · refine ⟨c, ?_, hblank⟩
    rw [hpad]
    simp [hc]
  · refine ⟨' ', ?_, .inl rfl⟩
    rw [hpad]
    rfl

theorem getLast?_pad (content : String) :
    ∃ c, (pad content).toList.getLast? = some c ∧ IsPad c := by
  rw [toList_pad]
  rcases padding_eq content.toList.getLast? with ⟨hpad, c, hc, hblank⟩ | hpad
  · refine ⟨c, ?_, hblank⟩
    rw [hpad]
    simp [hc]
  · refine ⟨' ', ?_, .inl rfl⟩
    rw [hpad]
    simp

theorem pad_of_trimmed (h : WhiteSpace.Trimmed text) : pad text = " " ++ text ++ " " := by
  have hpadding {neighbour : Option Char}
      (hn : ∀ c, neighbour = some c → WhiteSpace.contains c = false) : padding neighbour = " " := by
    rcases padding_eq neighbour with ⟨-, c, hc, hpad⟩ | hpad
    · have hnot := hn c hc
      rcases hpad with rfl | rfl <;> cases hnot
    · exact hpad
  rw [pad, hpadding fun c hc => h c (.inl hc), hpadding fun c hc => h c (.inr hc)]

/-- A text that may delimit content: of ASCII characters that do not pad. -/
def Delimits (pat : String) : Prop := ∀ c ∈ pat.toList, c.toNat < 0x80 ∧ ¬ IsPad c

theorem isInfix_of_pad (hpat : Delimits pat) {content : String}
    (h : pat.toList <:+: (pad content).toList) : pat.toList <:+: content.toList := by
  have hspace : ' ' ∉ pat.toList := fun hmem => (hpat ' ' hmem).2 (.inl rfl)
  have hfront {neighbour : Option Char} {xs : List Char}
      (h : pat.toList <:+: (padding neighbour).toList ++ xs) : pat.toList <:+: xs := by
    rcases padding_eq neighbour with ⟨hpad, -⟩ | hpad <;> rw [hpad] at h
    · exact h
    · exact isInfix_of_cons hspace h
  have hback {neighbour : Option Char} {xs : List Char}
      (h : pat.toList <:+: xs ++ (padding neighbour).toList) : pat.toList <:+: xs := by
    rcases padding_eq neighbour with ⟨hpad, -⟩ | hpad <;> rw [hpad] at h
    · rwa [String.toList_empty, List.append_nil] at h
    · exact isInfix_of_concat hspace h
  rw [toList_pad] at h
  exact hfront (hback h)

section Padded

variable (opening content closing : String)

theorem not_startsWith_padded (hpat : Delimits pat) (hnot : ¬ pat.toList <:+: content.toList)
    {i : Nat} (hle : (ascii opening).length ≤ i)
    (hlt : i < (ascii opening).length + (ascii (pad content)).length) :
    ¬ (Source.enclosed opening (pad content) closing).startsWith i (ascii pat) := by
  obtain ⟨c, hlast, hpad⟩ := getLast?_pad content
  have hc : c.toNat < 0x80 := by
    rcases hpad with rfl | rfl <;> decide
  apply Source.not_startsWith_enclosed opening (pad content) closing hc hlast _ _ hle hlt
  · intro d hd
    obtain ⟨hd', hnotpad⟩ := hpat d hd
    refine ⟨hd', ?_⟩
    rintro rfl
    exact hnotpad hpad
  · exact fun h => hnot (isInfix_of_pad hpat h)

theorem find_closing (hpat : Delimits closing) (hnot : ¬ closing.toList <:+: content.toList)
    (hclosing : 0 < (ascii closing).length) :
    (Source.enclosed opening (pad content) closing).find (ascii closing) (ascii opening).length =
      some ((ascii opening).length + (ascii (pad content)).length) := by
  apply Source.find_eq_some
  · exact Nat.le_add_right _ _
  · exact Source.startsWith_closing opening (pad content) closing
  · rw [Source.size_enclosed]
    omega
  · intro i hle hlt
    exact not_startsWith_padded opening content closing hpat hnot hle hlt

theorem exists_ascii_pad :
    ∃ z bs, ascii (pad content) = z :: bs ∧ (z = Byte.space ∨ z = Byte.tab) := by
  obtain ⟨c, hhead, hpad⟩ := head?_pad content
  obtain ⟨cs, hcs⟩ := List.head?_eq_some_iff.1 hhead
  have hc : c.toNat < 0x80 := by
    rcases hpad with rfl | rfl <;> decide
  refine ⟨UInt8.ofNat c.toNat, encodedBytes cs, ?_, ?_⟩
  · rw [ascii_eq, hcs, encodedBytes, List.flatMap_cons, utf8EncodeChar_of_lt hc]
    rfl
  · rcases hpad with rfl | rfl
    · exact .inl rfl
    · exact .inr rfl

end Padded

/-! Echoes and comments -/

theorem braceOpener?_of_pad {s : Source} {i : Nat} {z : UInt8} {f : EchoFlavor}
    (h : s.startsWith i (ascii f.opening ++ [z])) (hz : z = Byte.space ∨ z = Byte.tab) :
    s.braceOpener? i = some (.echo f) := by
  have hopen : s.startsWith i (ascii f.opening) := s.startsWith_of_append h
  cases f with
  | escaped =>
      have hcomment : s.startsWith i (ascii "\x7b\x7b--") = false :=
        s.startsWith_eq_false_of_ne h (k := 2) rfl rfl (by rcases hz with rfl | rfl <;> decide)
      have htriple : s.startsWith i (ascii (EchoFlavor.opening .triple)) = false :=
        s.startsWith_eq_false_of_ne h (k := 2) rfl rfl (by rcases hz with rfl | rfl <;> decide)
      simp [Source.braceOpener?, hcomment, htriple, hopen]
  | raw =>
      have hother (bs : List UInt8) :
          s.startsWith i (Byte.openBrace :: Byte.openBrace :: bs) = false :=
        s.startsWith_eq_false_of_ne h (k := 1) rfl rfl (by decide)
      have hcomment : s.startsWith i (ascii "\x7b\x7b--") = false := hother _
      have htriple : s.startsWith i (ascii (EchoFlavor.opening .triple)) = false := hother _
      have hescaped : s.startsWith i (ascii (EchoFlavor.opening .escaped)) = false := hother _
      simp [Source.braceOpener?, hcomment, htriple, hescaped, hopen]
  | triple =>
      have hcomment : s.startsWith i (ascii "\x7b\x7b--") = false :=
        s.startsWith_eq_false_of_ne h (k := 2) rfl rfl (by decide)
      simp [Source.braceOpener?, hcomment, hopen]

theorem delimits_closing (f : EchoFlavor) : Delimits f.closing := by
  cases f <;> simp [Delimits, IsPad, EchoFlavor.closing]

section Encloses

variable (content : String)

theorem encloses_echo (f : EchoFlavor)
    (hnot : ∀ delimiter ∈ [f.closing, "\x7b\x7b", "\x7b!!"],
      ¬ delimiter.toList <:+: content.toList) :
    (Source.enclosed f.opening (pad content) f.closing).Encloses (ascii f.opening).length
      ((ascii f.opening).length + (ascii (pad content)).length) (.echo f) := by
  obtain ⟨z, bs, hfirst, hz⟩ := exists_ascii_pad content
  have hopening : ascii f.opening ++ [z] <+: ascii f.opening ++ ascii (pad content) := by
    rw [List.prefix_append_right_inj, hfirst]
    exact List.prefix_append [z] bs
  refine ⟨braceOpener?_of_pad (Source.startsWith_opening _ _ _ hopening) hz,
    f.length_ascii_opening, ?_, ?_⟩
  · apply Source.findEchoEnd_eq_closed
    · exact Nat.le_add_right _ _
    · exact Source.startsWith_closing _ _ _
    · intro i hle hlt
      have hbare {delimiter : String} (hd : Delimits delimiter)
          (hmem : delimiter ∈ [f.closing, "\x7b\x7b", "\x7b!!"]) :=
        not_startsWith_padded f.opening content f.closing hd (hnot delimiter hmem) hle hlt
      refine ⟨hbare (delimits_closing f) (by simp), fun hopens => ?_⟩
      rcases (Source.opensEcho_iff _).1 hopens with hopens | hopens
      · exact hbare (by simp [Delimits, IsPad]) (by simp) hopens
      · exact hbare (by simp [Delimits, IsPad]) (by simp) hopens
  · rw [Source.size_enclosed, f.length_ascii_closing]

theorem encloses_comment (hnot : ¬ "-->".toList <:+: content.toList) :
    (Source.enclosed "<!--" (pad content) "-->").Encloses (ascii "<!--").length
      ((ascii "<!--").length + (ascii (pad content)).length) .comment := by
  refine ⟨Source.startsWith_opening _ _ _ (List.prefix_append _ _), rfl, ?_, ?_⟩
  · exact find_closing _ _ _ (by simp [Delimits, IsPad]) hnot (by decide)
  · rw [Source.size_enclosed]
    rfl

theorem encloses_bladeComment (hnot : ¬ "--\x7d\x7d".toList <:+: content.toList) :
    (Source.enclosed "\x7b\x7b--" (pad content) "--\x7d\x7d").Encloses (ascii "\x7b\x7b--").length
      ((ascii "\x7b\x7b--").length + (ascii (pad content)).length) .bladeComment := by
  refine ⟨Source.startsWith_opening _ _ _ (List.prefix_append _ _), rfl, ?_, ?_⟩
  · exact find_closing _ _ _ (by simp [Delimits, IsPad]) hnot (by decide)
  · rw [Source.size_enclosed]
    rfl

end Encloses

/-- The node is written as a construct around some content, in which nothing ends it early. -/
inductive Writes : NewNode → Enclosure → String → Prop
  | echo (expression : String) (f : EchoFlavor) : WhiteSpace.trim expression ≠ "" →
      (∀ delimiter ∈ [f.closing, "\x7b\x7b", "\x7b!!"],
        ¬ delimiter.toList <:+: (WhiteSpace.trim expression).toList) →
      Writes (.echo expression f) (.echo f) (WhiteSpace.trim expression)
  | comment (content : String) : ¬ "-->".toList <:+: content.toList →
      Writes (.comment content) .comment content
  | bladeComment (content : String) : ¬ "--\x7d\x7d".toList <:+: content.toList →
      Writes (.bladeComment content) .bladeComment content

variable {n : NewNode} {e : Enclosure} {content : String}

theorem Writes.exists_enclosed (h : n.Writes e content) : ∃ opening closing,
    n.source = opening ++ pad content ++ closing ∧
      (Source.enclosed opening (pad content) closing).Encloses (ascii opening).length
        ((ascii opening).length + (ascii (pad content)).length) e := by
  cases h with
  | echo expression f hne hnot =>
      have hpad := pad_of_trimmed (WhiteSpace.trimmed_trim expression)
      refine ⟨f.opening, f.closing, ?_, encloses_echo _ f hnot⟩
      rw [hpad]
      refine (Piece.join_plain _).trans ?_
      simp only [echoText, String.append_assoc]
  | comment content hnot => exact ⟨_, _, Piece.join_plain _, encloses_comment _ hnot⟩
  | bladeComment content hnot => exact ⟨_, _, Piece.join_plain _, encloses_bladeComment _ hnot⟩

theorem Writes.trimmed {f : EchoFlavor} (h : n.Writes (.echo f) content) :
    WhiteSpace.Trimmed content ∧ content ≠ "" := by
  cases h with
  | echo expression f hne hnot => exact ⟨WhiteSpace.trimmed_trim expression, hne⟩

/-- What a node of one construct is written as is parsed as one closed node of its kind with the
padded content, whose expression, if it is an echo, is the trimmed one. -/
theorem exists_parse_source (h : n.Writes e content) :
    ∃ d id, Document.parse .standard n.source = .ok d ∧ d.children Builder.root = [id] ∧
      d.Closed id e (pad content) ∧
      (∀ f, e = .echo f →
        d.isClosedEcho id ∧ d.echoFlavor id = f ∧ d.echoExpression id = content) ∧
      d.diagnostics = #[] ∧ d.lexerErrors = #[] := by
  obtain ⟨opening, closing, hsource, hencloses⟩ := h.exists_enclosed
  obtain ⟨z, bs, hfirst, -⟩ := exists_ascii_pad content
  have hlength : 0 < (ascii (pad content)).length := by
    rw [hfirst]
    exact Nat.succ_pos _
  have hblank : ∀ f, e = .echo f → WhiteSpace.isBlank (pad content) = false := by
    rintro f rfl
    obtain ⟨htrimmed, hne⟩ := h.trimmed
    rw [pad_of_trimmed htrimmed]
    exact WhiteSpace.isBlank_surrounded htrimmed hne
  obtain ⟨d, id, hd, hchildren, hnode, hquiet⟩ := Document.exists_closed (o := .standard) rfl rfl
    (Nat.lt_add_of_pos_right hlength) hencloses
    (Source.slice_enclosed opening (pad content) closing) hblank
  rw [← hsource] at hd
  refine ⟨d, id, hd, hchildren, hnode, ?_, hquiet⟩
  rintro f rfl
  obtain ⟨htrimmed, hne⟩ := h.trimmed
  refine ⟨hnode.isClosedEcho, hnode.echoFlavor, ?_⟩
  rw [hnode.echoExpression, pad_of_trimmed htrimmed, WhiteSpace.trim_surrounded htrimmed hne]

/-- An expression that ends with the beginning of an opener. -/
theorem exists_parse_source_brace :
    (NewNode.echo " $a \x7d \x7b! " .raw).Writes (.echo .raw) "$a \x7d \x7b!" ∧
      ∃ d id, Document.parse .standard "\x7b!! $a \x7d \x7b! !!\x7d" = .ok d ∧
        d.children Builder.root = [id] ∧ d.isClosedEcho id ∧ d.echoFlavor id = .raw ∧
        d.echoExpression id = "$a \x7d \x7b!" ∧ d.diagnostics = #[] ∧ d.lexerErrors = #[] := by
  have htrim : WhiteSpace.trim " $a \x7d \x7b! " = "$a \x7d \x7b!" := by decide +kernel
  have hwrites : (NewNode.echo " $a \x7d \x7b! " .raw).Writes (.echo .raw) "$a \x7d \x7b!" := by
    rw [← htrim]
    exact .echo _ .raw (by decide +kernel) (by decide +kernel)
  have hsource : (NewNode.echo " $a \x7d \x7b! " .raw).source = "\x7b!! $a \x7d \x7b! !!\x7d" := by
    cbv
  obtain ⟨d, id, hd, hchildren, -, hecho, hquiet⟩ := exists_parse_source hwrites
  obtain ⟨hclosed, hflavor, hexpression⟩ := hecho .raw rfl
  exact ⟨hwrites, d, id, hsource ▸ hd, hchildren, hclosed, hflavor, hexpression, hquiet⟩

end NewNode
end BladeTree
