import BladeTree.Edit.NewNode
import BladeTree.Proofs.Edit.Output
import BladeTree.Proofs.Text.Enclosed
import BladeTree.Proofs.Token.Lexer.Escape
import BladeTree.Proofs.Token.Lexer.Phased

namespace BladeTree

/-! Names and what stands beside them, as characters -/

theorem toNat_lt_of_isWordChar {c : Char} (h : isWordChar c) : c.toNat < 0x80 := by
  simp only [isWordChar, Char.isAlphanum, Bool.or_eq_true, beq_iff_eq] at h
  have hle : ∀ stop : UInt32, c.val ≤ stop → stop.toNat < 0x80 → c.toNat < 0x80 :=
    fun _ h hstop => Nat.lt_of_le_of_lt h hstop
  rcases h with (halpha | hdigit) | rfl
  · rcases Bool.or_eq_true_iff.1 halpha with hupper | hlower
    · exact hle 'Z'.val (of_decide_eq_true hupper).2 (by decide)
    · exact hle 'z'.val (of_decide_eq_true (Bool.and_eq_true_iff.1 hlower).2) (by decide)
  · exact hle '9'.val (of_decide_eq_true (Bool.and_eq_true_iff.1 hdigit).2) (by decide)
  · decide

def isBlankChar (c : Char) : Bool := c == ' ' || c == '\t'

def isNameStart (c : Char) : Bool := c.isAlpha || c == '_'

theorem isWordChar_of_isNameStart {c : Char} (h : isNameStart c) : isWordChar c := by
  rw [isNameStart, Bool.or_eq_true] at h
  rw [isWordChar, Char.isAlphanum, Bool.or_eq_true, Bool.or_eq_true]
  exact h.imp_left .inl

theorem classes_eq : ∀ n : Fin 128,
    Byte.isWord (UInt8.ofNat n) = isWordChar (Char.ofNat n) ∧
    (Byte.isAlpha (UInt8.ofNat n) || UInt8.ofNat n == Byte.underscore) =
      isNameStart (Char.ofNat n) ∧
    Byte.isHorizontalSpace (UInt8.ofNat n) = isBlankChar (Char.ofNat n) ∧
    (UInt8.ofNat n == Byte.openParen) = (Char.ofNat n == '(') ∧
    (UInt8.ofNat n == Byte.dot) = (Char.ofNat n == '.') := by
  decide +kernel

theorem spells_isWord : Byte.Spells Byte.isWord isWordChar :=
  ⟨Byte.asciiClass_isWord, fun _ => toNat_lt_of_isWordChar, fun n => (classes_eq n).1⟩

theorem spells_nameStart :
    Byte.Spells (fun b => Byte.isAlpha b || b == Byte.underscore) isNameStart := by
  refine ⟨fun b hb => Byte.asciiClass_isWord b ?_, fun _ hc => ?_, fun n => (classes_eq n).2.1⟩
  · rw [Bool.or_eq_true] at hb
    rw [Byte.isWord, Byte.isAlphanum, Bool.or_eq_true, Bool.or_eq_true]
    exact hb.imp_left .inl
  · exact toNat_lt_of_isWordChar (isWordChar_of_isNameStart hc)

theorem spells_isHorizontalSpace : Byte.Spells Byte.isHorizontalSpace isBlankChar := by
  refine ⟨Byte.asciiClass_isHorizontalSpace, fun c hc => ?_, fun n => (classes_eq n).2.2.1⟩
  rw [isBlankChar, Bool.or_eq_true, beq_iff_eq, beq_iff_eq] at hc
  rcases hc with rfl | rfl <;> decide

theorem spells_openParen : Byte.Spells (· == Byte.openParen) (· == '(') :=
  ⟨Byte.asciiClass_beq (by decide), fun _ hc => eq_of_beq hc ▸ by decide,
    fun n => (classes_eq n).2.2.2.1⟩

theorem spells_dot : Byte.Spells (· == Byte.dot) (· == '.') :=
  ⟨Byte.asciiClass_beq (by decide), fun _ hc => eq_of_beq hc ▸ by decide,
    fun n => (classes_eq n).2.2.2.2⟩

def isDirectiveName (name : String) : Bool :=
  name.toList.head?.any isNameStart && name.toList.all isWordChar

def followsWord (left : String) : Bool := left.toList.getLast?.any isWordChar

def startsWithDot (right : String) : Bool := right.toList.head?.any (· == '.')

def opensArguments (right : String) : Bool :=
  (right.toList.dropWhile isBlankChar).head?.any (· == '(')

theorem endsInDirectiveName_at {name : String} (h : isDirectiveName name) :
    endsInDirectiveName ("@" ++ name) := by
  rw [isDirectiveName, Bool.and_eq_true, List.all_eq_true] at h
  have hword : ∀ c ∈ name.toList.reverse, isWordChar c := fun c hc => h.2 c (List.mem_reverse.1 hc)
  have hreverse : ("@" ++ name).toList.reverse = name.toList.reverse ++ ['@'] := by
    rw [String.toList_append, List.reverse_append]
    rfl
  have hat : isWordChar '@' = false := by decide
  rw [endsInDirectiveName, hreverse]
  simp only [List.takeWhile_append_of_pos hword, List.dropWhile_append_of_pos hword,
    List.takeWhile_cons, List.dropWhile_cons, hat, Bool.false_eq_true, if_false, List.append_nil,
    List.getLast?_reverse]
  cases hfirst : name.toList.head? with
  | none =>
      rw [hfirst] at h
      cases h.1
  | some c =>
      rw [hfirst] at h
      simpa [isNameStart] using h.1

/-! Directives between two texts -/

namespace Source

section Between

variable (left name right : String)

theorem length_ascii_at : (ascii (left ++ "@")).length = (ascii left).length + 1 := by
  rw [ascii_append, List.length_append]
  rfl

theorem drop_name : (enclosed (left ++ "@") name right).bytes.data.toList.drop
    ((ascii left).length + 1) = ascii name ++ ascii right := by
  rw [bytes_enclosed, ← length_ascii_at, List.drop_left]

theorem drop_after_name : (enclosed (left ++ "@") name right).bytes.data.toList.drop
    ((ascii left).length + 1 + (ascii name).length) = ascii right := by
  rw [← List.drop_drop, drop_name, List.drop_left]

theorem byte?_at : (enclosed (left ++ "@") name right).byte? (ascii left).length =
    some Byte.atSign := by
  rw [byte?_eq, bytes_enclosed, ascii_append, List.append_assoc,
    List.getElem?_append_right le_rfl, Nat.sub_self]
  rfl

theorem isGlued_enclosed : (enclosed (left ++ "@") name right).isGlued (ascii left).length =
    followsWord left := by
  rw [followsWord, ← spells_isWord.getLast?_encodedBytes, ← ascii_eq, isGlued]
  rcases List.eq_nil_or_concat (ascii left) with hnil | ⟨bs, b, hbs⟩
  · rw [hnil]
    rfl
  · have hbyte : (enclosed (left ++ "@") name right).byte? ((ascii left).length - 1) = some b := by
      rw [byte?_eq, bytes_enclosed, ascii_append, hbs]
      simp
    rw [has, hbyte, hbs]
    simp

variable {left name right}

theorem skipWhile_name (hname : isDirectiveName name)
    (hright : right.toList.head?.any isWordChar = false) :
    (enclosed (left ++ "@") name right).skipWhile Byte.isWord ((ascii left).length + 1) =
      (ascii left).length + 1 + (ascii name).length := by
  rw [isDirectiveName, Bool.and_eq_true, List.all_eq_true] at hname
  have hword : ∀ b ∈ ascii name, Byte.isWord b := by
    rw [ascii_eq]
    exact spells_isWord.forall_encodedBytes hname.2
  have hstop : (ascii right).takeWhile Byte.isWord = [] := by
    rw [← spells_isWord.head?_encodedBytes, ← ascii_eq] at hright
    cases hbytes : ascii right with
    | nil => rfl
    | cons b bs =>
        rw [hbytes] at hright
        exact List.takeWhile_cons_of_neg (Bool.eq_false_iff.1 hright)
  rw [skipWhile_eq, drop_name, List.takeWhile_append_of_pos hword, hstop, List.append_nil]

theorem slice_name : (enclosed (left ++ "@") name right).slice ((ascii left).length + 1)
    ((ascii left).length + 1 + (ascii name).length) = name := by
  rw [← length_ascii_at]
  exact slice_enclosed ..

theorem has_dot : (enclosed (left ++ "@") name right).has (· == Byte.dot)
    ((ascii left).length + 1 + (ascii name).length) = startsWithDot right := by
  rw [has_eq, drop_after_name, ascii_eq, spells_dot.head?_encodedBytes, startsWithDot]

theorem has_paren : (enclosed (left ++ "@") name right).has (· == Byte.openParen)
    ((enclosed (left ++ "@") name right).skipHorizontalSpace
      ((ascii left).length + 1 + (ascii name).length)) = opensArguments right := by
  have hblank := congrArg (List.drop ((ascii right).takeWhile Byte.isHorizontalSpace).length)
    (List.takeWhile_append_dropWhile (p := Byte.isHorizontalSpace) (l := ascii right))
  rw [List.drop_left] at hblank
  rw [skipHorizontalSpace, skipWhile_eq, has_eq, ← List.drop_drop, drop_after_name, ← hblank,
    opensArguments, ← spells_openParen.head?_encodedBytes,
    ← spells_isHorizontalSpace.dropWhile_encodedBytes, ← ascii_eq]

theorem has_nameStart (hname : isDirectiveName name) : (enclosed (left ++ "@") name right).has
    (fun b => Byte.isAlpha b || b == Byte.underscore) ((ascii left).length + 1) := by
  rw [isDirectiveName, Bool.and_eq_true, ← spells_nameStart.head?_encodedBytes, ← ascii_eq] at hname
  rw [has_eq, drop_name, List.head?_append]
  cases hfirst : (ascii name).head? with
  | none =>
      rw [hfirst] at hname
      cases hname.1
  | some b =>
      rw [hfirst] at hname
      exact hname.1

/-- Between two texts a known name is read as a directive, unless it stands right behind a word and
a dot follows. -/
theorem directiveAt?_enclosed {known : DirectiveSet} (hname : isDirectiveName name)
    (hknown : known.contains name) (hright : right.toList.head?.any isWordChar = false) :
    (enclosed (left ++ "@") name right).directiveAt? known (ascii left).length =
      if followsWord left ∧ startsWithDot right then none
      else some ⟨name, (ascii left).length + 1 + (ascii name).length, opensArguments right⟩ := by
  simp only [directiveAt?, has_nameStart hname, skipWhile_name hname hright, slice_name,
    isGlued_enclosed, has_dot, has_paren, hknown, DirectiveSet.recognizes, Bool.not_true,
    Bool.false_or, Bool.true_or, Bool.or_true, Bool.and_true, Bool.false_eq_true, if_false, if_true,
    Bool.and_eq_true]

end Between

/-- The scanner of arguments reads the text at `start` as a group of parentheses. -/
def HoldsGroup (s : Source) (start : Nat) (text : String) : Prop :=
  (s.balancedParens .empty .php 0 start).1 = (start + (ascii text).length, true)

end Source

namespace Lexer

variable {o : ParseOptions} {s : Source} {l : Lexer}

theorem Reachable.memo_sound (ho : o.lexerExtensions = []) (h : Reachable o s l)
    (hm : l.mode = .data) (hlt : l.pos < s.size) : l.memo.Sound s := by
  cases h.phased ho with
  | reading hquiet => exact hquiet.memo
  | unclosedEcho hecho => cases hecho.symm.trans hm
  | ended hended => exact absurd hended.stop (Nat.not_le_of_lt hlt)

end Lexer

/-! Added directives -/

namespace NewNode

def argumentsText (args : Option String) : String := args.elim "" fun args => "(" ++ args ++ ")"

def directiveTokens (start : Nat) (name : String) (args : Option String) : List Token :=
  let stop := start + 1 + (ascii name).length
  ⟨.directive, start, stop⟩ ::
    if args.isSome then [⟨.directiveArgs, stop, stop + (ascii (argumentsText args)).length⟩] else []

/-- Between these a bare name is no directive or takes what follows as its arguments. -/
def Misread (left right : String) : Prop :=
  followsWord left ∧ startsWithDot right ∨ opensArguments right

instance (left right : String) : Decidable (Misread left right) :=
  inferInstanceAs (Decidable (_ ∨ _))

end NewNode

open NewNode

section Added

variable {left right name : String} {args : Option String}

theorem added_eq : Source.ofString (left ++ directiveText name args ++ right) =
    .enclosed (left ++ "@") name (argumentsText args ++ right) := by
  rw [Source.enclosed, directiveText, argumentsText]
  simp only [String.append_assoc]

theorem directiveAt?_added (left right : String) (args : Option String) {known : DirectiveSet}
    (hname : isDirectiveName name)
    (hknown : known.contains name) (hright : args = none → extendsDirective right = false) :
    (Source.ofString (left ++ directiveText name args ++ right)).directiveAt? known
        (ascii left).length =
      if args = none ∧ followsWord left ∧ startsWithDot right then none
      else some ⟨name, (ascii left).length + 1 + (ascii name).length,
        args.isSome || opensArguments right⟩ := by
  rw [added_eq]
  cases args with
  | none =>
      have hword : right.toList.head?.any isWordChar = false := by
        have hnone := hright rfl
        rw [extendsDirective] at hnone
        cases hfirst : right.toList.head? with
        | none => rfl
        | some c =>
            rw [hfirst] at hnone
            exact (Bool.or_eq_false_iff.1 hnone).2
      rw [argumentsText, Option.elim_none, String.empty_append,
        Source.directiveAt?_enclosed hname hknown hword]
      simp
  | some a =>
      obtain ⟨cs, hcs⟩ : ∃ cs, (argumentsText (some a) ++ right).toList = '(' :: cs := by
        simp [argumentsText]
      have hword : (argumentsText (some a) ++ right).toList.head?.any isWordChar = false := by
        rw [hcs]
        rfl
      have hopens : opensArguments (argumentsText (some a) ++ right) := by
        rw [opensArguments, hcs]
        rfl
      have hdot : startsWithDot (argumentsText (some a) ++ right) = false := by
        rw [startsWithDot, hcs]
        rfl
      rw [Source.directiveAt?_enclosed hname hknown hword, hopens, hdot]
      simp

theorem directiveAt?_bare_iff {known : DirectiveSet} (hname : isDirectiveName name)
    (hknown : known.contains name) (hright : extendsDirective right = false) :
    (Source.ofString (left ++ directiveText name none ++ right)).directiveAt? known
        (ascii left).length = some ⟨name, (ascii left).length + 1 + (ascii name).length, false⟩ ↔
      ¬ Misread left right := by
  rw [directiveAt?_added left right none hname hknown fun _ => hright, Misread, not_or]
  split
  · rename_i hglued
    exact iff_of_false nofun fun h => h.1 hglued.2
  · rename_i hapart
    simpa using fun _ hword hdot => hapart ⟨rfl, hword, hdot⟩

theorem length_ascii_directiveText : (ascii (directiveText name args)).length =
    1 + (ascii name).length + (ascii (argumentsText args)).length := by
  rw [directiveText, ascii_append, ascii_append, List.length_append, List.length_append]
  rfl

end Added

namespace Lexer

variable {o : ParseOptions} {l : Lexer} {left right name : String} {args : Option String}

/-- `l'` is `l` once it has read an added directive, and nothing else. -/
structure Added (l : Lexer) (name : String) (args : Option String) (l' : Lexer) : Prop where
  mode : l'.mode = .data
  pos : l'.pos = l.pos + (ascii (directiveText name args)).length
  tokens : l'.tokens = l.tokens ++ (l.pendingText ++ directiveTokens l.pos name args)

/-- In content an added directive is read as it is meant, unless it is a bare name between texts
that are at odds with it. -/
theorem exists_steps_added (ho : o.lexerExtensions = []) (hname : isDirectiveName name)
    (hknown : o.directives.contains name) (hverbatim : name ≠ "verbatim") (hphp : name ≠ "php")
    (hright : args = none → extendsDirective right = false ∧ ¬ Misread left right)
    (hargs : args.isSome → (Source.ofString (left ++ directiveText name args ++ right)).HoldsGroup
      ((ascii left).length + 1 + (ascii name).length) (argumentsText args))
    (hl : Reachable o (.ofString (left ++ directiveText name args ++ right)) l)
    (hm : l.mode = .data) (hpos : l.pos = (ascii left).length) :
    ∃ l', Relation.ReflTransGen (Steps o (.ofString (left ++ directiveText name args ++ right)))
        l l' ∧ Added l name args l' := by
  have hat : (Source.ofString (left ++ directiveText name args ++ right)).byte? l.pos =
      some Byte.atSign := by
    rw [added_eq, hpos]
    exact Source.byte?_at ..
  rw [← hpos] at hargs
  cases args with
  | none =>
      obtain ⟨hapart, hnot⟩ := hright rfl
      have hfound := (directiveAt?_bare_iff hname hknown hapart).2 hnot
      rw [← hpos] at hfound
      obtain ⟨l', hstep, hnamed⟩ := exists_steps_name ho hm hat hfound hverbatim hphp
      refine ⟨l', .single hstep, hnamed.mode.trans hm, ?_, hnamed.tokens⟩
      rw [hnamed.pos, length_ascii_directiveText, Nat.add_assoc]
      rfl
  | some a =>
      have hfound := directiveAt?_added left right (some a) hname hknown nofun
      rw [← hpos, if_neg fun h => nomatch h.1] at hfound
      obtain ⟨l₁, hstep, hnamed⟩ := exists_steps_name ho hm hat hfound hverbatim hphp
      have hpos₁ : l₁.pos = l.pos + 1 + (ascii name).length := hnamed.pos
      have hparen : (Source.ofString (left ++ directiveText name (some a) ++ right)).byte? l₁.pos =
          some Byte.openParen := by
        rw [hpos₁, hpos, added_eq, Source.byte?_eq, ← List.head?_drop, Source.drop_after_name,
          argumentsText, Option.elim_some, ascii_append, ascii_append, ascii_append]
        rfl
      have hmemo : l₁.memo.Sound (.ofString (left ++ directiveText name (some a) ++ right)) :=
        hnamed.memo ▸ hl.memo_sound ho hm (Source.lt_size_of_byte? _ hat)
      have hgroup := hargs rfl
      rw [Source.HoldsGroup, ← hpos₁] at hgroup
      obtain ⟨l₂, hstep₂, hmode, hpos₂, htokens⟩ :=
        steps_directiveArgs hnamed.mode hmemo hnamed.textStart hparen hgroup
      refine ⟨l₂, .tail (.single hstep) hstep₂, ?_, ?_, ?_⟩
      · rw [hmode, hnamed.returnMode rfl, hm]
      · rw [hpos₂, hpos₁, length_ascii_directiveText]
        omega
      · rw [htokens, hnamed.tokens, hpos₁]
        apply Array.toList_inj.1
        simp [directiveTokens]

/-- At odds with the texts around it a bare name is text, or more than the name is read. -/
theorem not_added_of_misread {l' : Lexer} (ho : o.lexerExtensions = [])
    (hname : isDirectiveName name) (hknown : o.directives.contains name)
    (hverbatim : name ≠ "verbatim") (hphp : name ≠ "php") (hright : extendsDirective right = false)
    (hnot : Misread left right)
    (hl : Reachable o (.ofString (left ++ directiveText name none ++ right)) l)
    (hm : l.mode = .data) (hpos : l.pos = (ascii left).length)
    (h : Relation.ReflTransGen (Steps o (.ofString (left ++ directiveText name none ++ right))) l l') :
    ¬ Added l name none l' := by
  intro hadded
  have hat : (Source.ofString (left ++ directiveText name none ++ right)).byte? l.pos =
      some Byte.atSign := by
    rw [added_eq, hpos]
    exact Source.byte?_at ..
  have hend : l'.pos = l.pos + 1 + (ascii name).length := by
    rw [hadded.pos, length_ascii_directiveText, ← Nat.add_assoc, ← Nat.add_assoc]
    rfl
  have hfound := directiveAt?_added left right none hname hknown fun _ => hright
  rw [← hpos] at hfound
  rcases Relation.ReflTransGen.cases_head h with rfl | ⟨l₁, hstep, hrest⟩
  · omega
  split at hfound
  · obtain ⟨n, hn, htext⟩ := exists_steps_text ho hm hat hfound
    obtain rfl := hstep.unique htext
    have hread : ReadAsText l.pos l' :=
      (hl.covered.readAsText ho hn).steps (.step _ _ hl hstep) hrest
    have hmem : ⟨.directive, l.pos, l.pos + 1 + (ascii name).length⟩ ∈ l'.tokens := by
      rw [hadded.tokens, ← Array.mem_toList_iff, Array.toList_appendList]
      simp [directiveTokens]
    cases hread.text _ hmem rfl
  · rename_i hapart
    have hopens : opensArguments right :=
      hnot.resolve_left fun hglued => hapart ⟨rfl, hglued⟩
    obtain ⟨l₂, hstep₂, hnamed⟩ := exists_steps_name ho hm hat hfound hverbatim hphp
    obtain rfl := hstep.unique hstep₂
    have hpos₁ : l₁.pos = l.pos + 1 + (ascii name).length := hnamed.pos
    have hmode : l₁.mode = .directiveArgs := hnamed.mode.trans (if_pos hopens)
    rcases Relation.ReflTransGen.cases_head hrest with rfl | ⟨l₂, ⟨b, hb, hargs⟩, hrest⟩
    · cases hmode.symm.trans hadded.mode
    · have hreached : Reachable o _ l₁ := .step _ _ hl hstep
      have hlt := lt_directiveArgs (l := l₁) (Source.lt_size_of_byte? _ hb)
      have hle := (hreached.step _ _ ⟨b, hb, hargs⟩).pos_le hrest
      obtain rfl := eq_read_of_step ho hargs
      simp only [read, hmode] at hle
      omega

end Lexer

/-- An added directive stands between texts that neither end in a bare name nor go on with its own.
Where the lexer comes to it in content, it is read as it is meant just when it has arguments or is
not at odds with those texts. -/
theorem exists_join_directive {o : ParseOptions} {name : String} {args : Option String}
    (ps qs : List Piece) (ho : o.lexerExtensions = []) (hname : isDirectiveName name)
    (hknown : o.directives.contains name) (hverbatim : name ≠ "verbatim") (hphp : name ≠ "php") :
    ∃ left right, left = (ps.foldl Output.push .empty).before (.directive (directiveText name args)) ∧
      Piece.join (ps ++ .directive (directiveText name args) :: qs) =
        left ++ directiveText name args ++ right ∧
      endsInDirectiveName left = false ∧ (args = none → extendsDirective right = false) ∧
      ((args.isSome → (Source.ofString (left ++ directiveText name args ++ right)).HoldsGroup
          ((ascii left).length + 1 + (ascii name).length) (argumentsText args)) →
        ∀ l, Lexer.Reachable o (.ofString (left ++ directiveText name args ++ right)) l →
          l.mode = .data → l.pos = (ascii left).length →
          ((∃ l', Relation.ReflTransGen
              (Lexer.Steps o (.ofString (left ++ directiveText name args ++ right))) l l' ∧
            Lexer.Added l name args l') ↔ (args = none → ¬ Misread left right))) := by
  have hne : directiveText name args ≠ "" := by
    intro hempty
    simpa [directiveText] using congrArg String.toList hempty
  obtain ⟨right, hjoin, hapart⟩ :=
    Output.join_append_cons ps qs (p := .directive (directiveText name args)) hne
  have hright : args = none → extendsDirective right = false := by
    rintro rfl
    refine hapart rfl ?_
    change endsInDirectiveName ("@" ++ name ++ "")
    rw [String.append_empty]
    exact endsInDirectiveName_at hname
  refine ⟨_, right, rfl, hjoin, Output.endsInDirectiveName_before rfl, hright, ?_⟩
  intro hargs l hl hm hpos
  constructor
  · rintro ⟨l', hsteps, hadded⟩ rfl hnot
    exact Lexer.not_added_of_misread ho hname hknown hverbatim hphp (hright rfl) hnot hl hm hpos
      hsteps hadded
  · intro hnot
    exact Lexer.exists_steps_added ho hname hknown hverbatim hphp
      (fun h => ⟨hright h, hnot h⟩) hargs hl hm hpos

-- Behind the end of a code region no separator is put, and one before a parenthesis is no help.
example : Misread "@php $x@endphp" "." ∧ Misread "" " (x)" := by
  decide +kernel

/-- The end that a new block gets ends it, but for four whose end is spelled in another way. -/
theorem exists_endDirective_iff : ∀ rule ∈ BlockRule.table,
    (∃ name ∈ rule.terminators, endDirective rule.name = "@" ++ name) ↔
      rule.name ∉ ["hasSection", "sectionMissing", "pushOnce", "prependOnce"] := by
  decide

end BladeTree
