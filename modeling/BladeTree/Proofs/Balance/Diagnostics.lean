import BladeTree.Proofs.Balance.Answers
import BladeTree.Proofs.Document.Parse
import Mathlib

namespace BladeTree

theorem Symbol.run?_replicate_text (stack : List Pending) (n : Nat) (symbols : List Symbol) :
    run? stack (List.replicate n .text ++ symbols) = run? stack symbols := by
  induction n with
  | zero => rfl
  | succ n ih =>
      rw [List.replicate_succ, List.cons_append, run?_cons]
      exact ih

namespace Builder

structure Expects (t : Tokenized) (b : Builder) (symbols : List Symbol) : Prop where
  spelled : Spelled t.source (t.rest b.pos) symbols
  plain : ∀ symbol ∈ symbols, symbol.Plain
  stack : ∀ f ∈ b.stack, f.Plain

/-- From `b` to `b'` symbols were read silently, or one that may not stand there was reported. -/
inductive Advances (t : Tokenized) (b : Builder) (symbols : List Symbol) (b' : Builder) : Prop
  | silent {symbols' : List Symbol} (expects : b'.Expects t symbols')
      (diagnostics : b'.diagnostics = b.diagnostics)
      (run : Symbol.run? b.pending symbols = Symbol.run? b'.pending symbols')
  | reported (run : Symbol.run? b.pending symbols = none) (reports : Reports b b')

variable {t : Tokenized} {b b' : Builder} {symbol : Symbol} {symbols : List Symbol}
variable {us : List Token}

theorem Answers.advances (h : b.Answers t symbol us b') (hspelled : Spelled t.source us symbols)
    (hplain : ∀ symbol ∈ symbols, symbol.Plain) : b.Advances t (symbol :: symbols) b' := by
  unfold Answers at h
  cases hnext : Symbol.next? b.pending symbol with
  | none =>
      rw [hnext] at h
      refine .reported ?_ h
      rw [Symbol.run?_cons, hnext]
      rfl
  | some pending =>
      rw [hnext] at h
      obtain ⟨rfl, hstack, hstands⟩ := h
      refine .silent ⟨?_, hplain, hstack⟩ hstands.diagnostics ?_
      · rwa [hstands.rest]
      · rw [Symbol.run?_cons, hnext]
        rfl

namespace Expects

variable (h : b.Expects t symbols)
include h

theorem text (hhead : ∃ rest, symbols = .text :: rest) :
    Build.Returns (b.text t b.parent) (b.Advances t symbols) := by
  obtain ⟨rest, rfl⟩ := hhead
  obtain ⟨u, us, hus⟩ : ∃ u us, t.rest b.pos = u :: us := by
    cases hus : t.rest b.pos with
    | nil => cases hus ▸ h.spelled
    | cons u us => exact ⟨u, us, rfl⟩
  have hspelled : Spelled t.source (t.rest (b.pos + 1)) rest := by
    rw [Tokenized.rest_succ hus]
    cases hus ▸ h.spelled with
    | text _ h => exact h
  obtain ⟨k, symbols', rfl, hend, hspelled'⟩ := exists_textEnd hspelled
  refine ((Stands.refl t b).leaf b.parent .text _).bind fun ⟨_, b'⟩ h' => .ok ?_
  rw [← Tokenized.rest_add rfl, hend, show b.pos + (b.pos + 1 + k - b.pos) = b.pos + 1 + k by omega]
    at h'
  have hpending : b'.pending = b.pending := congrArg (List.map Frame.pending) h'.stack
  have hexpects : b'.Expects t symbols' := by
    refine ⟨h'.rest ▸ hspelled', fun symbol hsymbol => ?_, h'.stack ▸ h.stack⟩
    exact h.plain symbol (List.mem_cons_of_mem _ (List.mem_append_right _ hsymbol))
  refine .silent hexpects h'.diagnostics ?_
  rw [hpending, Symbol.run?_cons]
  exact Symbol.run?_replicate_text b.pending k symbols'

theorem construct {kind : TokenType} (hkind : b.current? t = some kind) :
    Build.Returns (b.construct t kind) (b.Advances t symbols) := by
  have hstands := Stands.refl t b
  have hplain := h.plain
  have hspelled := h.spelled
  generalize hus : t.rest b.pos = us at hspelled
  have hcurrent {u : Token} {us' : List Token} (hus' : us = u :: us') : u.kind = kind := by
    rw [hus'] at hus
    exact Option.some.inj ((Tokenized.kind?_of_rest hus).symm.trans hkind)
  have hsecond {u v : Token} {us' : List Token} (hus' : us = u :: v :: us') :
      t.kind? (b.pos + 1) = some v.kind := by
    rw [hus'] at hus
    exact Tokenized.kind?_of_rest (Tokenized.rest_succ hus)
  have htail {symbol : Symbol} {rest : List Symbol} (hsymbols : symbols = symbol :: rest) :
      symbol.Plain ∧ ∀ symbol ∈ rest, symbol.Plain := by
    subst hsymbols
    exact List.forall_mem_cons.1 hplain
  cases hspelled with
  | nil =>
      rw [current?, t.kind?_eq, hus] at hkind
      cases hkind
  | text hu hrest =>
      obtain rfl := (hcurrent rfl).symm.trans hu
      exact h.text ⟨_, rfl⟩
  | start generic blanks hless hname htext hgeneric hblanks hgreater hrest =>
      subst htext
      obtain rfl := (hcurrent rfl).symm.trans hless
      have hnext := hsecond rfl
      rw [hname] at hnext
      rw [hus] at hstands
      simp only [Builder.construct, hnext, Option.some.injEq, reduceCtorEq, if_false, if_true]
      refine (hstands.startTag h.stack hgeneric hblanks hgreater (htail rfl).1.1).mono
        fun b' hopened => ?_
      obtain ⟨⟨node, kind⟩, hf, h'⟩ := hopened
      obtain rfl : kind = .element _ := hf
      refine Answers.advances (h'.answers (fun f hf => ?_) rfl) hrest (htail rfl).2
      rcases List.mem_cons.1 hf with rfl | hf
      · exact (htail rfl).1.2
      · exact h.stack f hf
  | @close _ _ tag _ blanks _ _ _ hless hslash hname htext hblanks hgreater hrest =>
      subst htext
      obtain rfl := (hcurrent rfl).symm.trans hless
      have hnext := hsecond rfl
      rw [hslash] at hnext
      rw [hus] at hstands
      simp only [Builder.construct, hnext, if_true]
      refine (hstands.closingTag h.stack hblanks hgreater).mono fun b' h' => ?_
      refine Answers.advances ?_ hrest (htail rfl).2
      have hclose := Frame.next?_close (tag.text t.source) b.stack
      split at h'
      · rename_i htarget
        refine h'.answers (fun f hf => h.stack f (List.mem_of_mem_tail hf)) (hclose.trans ?_)
        exact if_pos htarget
      · rename_i htarget
        exact h'.answers (hclose.trans (if_neg htarget))
  | directive hu htext hrest =>
      obtain rfl := (hcurrent rfl).symm.trans hu
      have hat := Tokenized.directiveAt_of_no_args hus htext fun u' hu' => by
        obtain ⟨us', rfl⟩ := List.head?_eq_some_iff.1 hu'
        rcases hrest.kind_head with hkind | hkind | hkind <;> rw [hkind] <;> decide
      exact (returns_directive hat h.stack (htail rfl).1).mono fun b' h' =>
        h'.advances hrest (htail rfl).2
  | directiveArgs blank hu htext hblank hargs harity hrest =>
      subst harity
      obtain rfl := (hcurrent rfl).symm.trans hu
      have hat := Tokenized.directiveAt_of_args hus htext hblank hargs
      exact (returns_directive hat h.stack (htail rfl).1).mono fun b' h' =>
        h'.advances hrest (htail rfl).2

theorem contentItem (hext : t.options.treeExtensions = []) (hlt : b.pos < t.size) :
    Build.Returns (b.contentItem t) (b.Advances t symbols) := by
  have hleaf : b.extensionLeaf? t = none := by
    unfold extensionLeaf?
    rw [hext]
    rfl
  obtain ⟨u, hu⟩ := Tokenized.exists_token hlt
  have hcurrent : b.current? t = some u.kind := congrArg (Option.map Token.kind) hu
  unfold Builder.contentItem
  rw [hleaf, hcurrent]
  exact h.construct hcurrent

end Expects

theorem Sound.returns_items (h : b.Sound t) (hg : t.Grammatical)
    (hext : t.options.treeExtensions = []) :
    Build.Returns (b.items t) fun b' => b.diagnostics.size ≤ b'.diagnostics.size := by
  fun_induction Builder.items t b with
  | case1 b hlt ih =>
      obtain ⟨opened, below, b₁, h₁, -, hgrows, hitem⟩ := h.admits_contentItem hg hext hlt
      have hitem : b.contentItem t = _ := hitem t.options.depthLimits
      rw [hitem]
      simp only [bind_assoc, pure_bind]
      refine Build.Returns.any.bind fun _ _ => ?_
      split
      · refine (ih b₁ ‹_› h₁).mono fun b' hle => ?_
        exact hgrows.keeps.logged.length_le.trans hle
      · exact .fault
  | case2 b hge => exact .ok le_rfl

theorem Expects.items (h : b.Expects t symbols) (hb : b.Sound t) (hg : t.Grammatical)
    (hext : t.options.treeExtensions = []) :
    Build.Returns (b.items t) (b.Advances t symbols) := by
  fun_induction Builder.items t b generalizing symbols with
  | case1 b hlt ih =>
      intro b' hb'
      cases hitem : b.contentItem t with
      | error e =>
          rw [hitem] at hb'
          cases hb'
      | ok b₁ =>
          obtain ⟨h₁, hlt₁⟩ := (hb.contentItem hlt).returns b₁ hitem
          rw [hitem, ok_bind, dif_pos hlt₁] at hb'
          cases h.contentItem hext hlt b₁ hitem with
          | silent hexpects hlog hrun =>
              cases ih b₁ hlt₁ hexpects h₁ b' hb' with
              | silent hexpects' hlog' hrun' =>
                  exact .silent hexpects' (hlog'.trans hlog) (hrun.trans hrun')
              | reported hrun' hreports =>
                  unfold Reports at hreports
                  rw [hlog] at hreports
                  exact .reported (hrun.trans hrun') hreports
          | reported hrun hreports =>
              exact .reported hrun (hreports.trans_le (h₁.returns_items hg hext b' hb'))
  | case2 b hge => exact .ok (.silent h rfl rfl)

theorem Expects.forceCloseAll (h : b.Expects t symbols) :
    Build.Returns (b.forceCloseMany t closedByEnd t.size b.stack.length) fun b' =>
      if b.stack = [] then b'.diagnostics = b.diagnostics else Reports b b' := by
  by_cases hstack : b.stack = []
  · simp only [hstack, List.length_nil, if_true]
    exact .ok rfl
  · simp only [hstack, if_false]
    obtain ⟨n, hn⟩ := Nat.exists_eq_succ_of_ne_zero fun h => hstack (List.length_eq_zero_iff.1 h)
    rw [hn]
    exact returns_forceCloseMany hstack (Frame.closedByEnd_of_plain h.stack) t.size n

theorem returns_build (hspelled : Spelled t.source t.tokens.toList symbols)
    (hplain : ∀ symbol ∈ symbols, symbol.Plain) (hg : t.Grammatical)
    (hext : t.options.treeExtensions = []) :
    Build.Returns (build t) fun b => b.diagnostics = #[] ↔ Symbol.Items symbols := by
  have hexpects : initial.Expects t symbols := ⟨hspelled, hplain, nofun⟩
  have hitems : Build.Returns (initial.items t) fun b₁ =>
      b₁.pos = t.size ∧ initial.Advances t symbols b₁ := fun b₁ hb₁ =>
    ⟨(sound_initial.items.returns b₁ hb₁).2, hexpects.items sound_initial hg hext b₁ hb₁⟩
  have hfinish {b : Builder} {P : Prop} (h : b.diagnostics = #[] ↔ P) :
      Build.Returns (b.finish root) fun b' => b'.diagnostics = #[] ↔ P :=
    ((Stands.refl t b).finish root).mono fun b' h' => by rwa [h'.diagnostics]
  have hreported {log : Array Diagnostic} (h : 0 < log.size) : log ≠ #[] := by
    rintro rfl
    exact Nat.lt_irrefl _ h
  rw [← Symbol.run?_eq_some_nil_iff]
  refine hitems.bind fun b₁ ⟨hpos₁, h₁⟩ => ?_
  cases h₁ with
  | @silent symbols' hexpects₁ hlog₁ hrun =>
      have hrest : t.rest b₁.pos = [] := List.drop_eq_nil_iff.2 hpos₁.ge
      have hend : symbols' = [] := by
        cases hrest ▸ hexpects₁.spelled
        rfl
      have hrun : Symbol.run? [] symbols = some b₁.pending := by
        rw [hend] at hrun
        exact hrun
      rw [hrun]
      refine hexpects₁.forceCloseAll.bind fun b₂ hlog₂ => hfinish ?_
      split at hlog₂
      · rename_i hstack
        rw [hlog₂, hlog₁, pending, hstack]
        exact iff_of_true rfl rfl
      · rename_i hstack
        refine iff_of_false (hreported (Nat.zero_lt_of_lt hlog₂)) fun hnil => ?_
        exact hstack (List.map_eq_nil_iff.1 (Option.some.inj hnil))
  | reported hrun hreports =>
      rw [show Symbol.run? [] symbols = none from hrun]
      have hclose : Extends b₁.nodes.size b₁ b₁ := .refl le_rfl
      refine (hclose.forceCloseMany _ _ _).returns.bind fun b₂ h₂ => hfinish ?_
      exact iff_of_false (hreported (Nat.zero_lt_of_lt (hreports.extends h₂))) nofun

end Builder

namespace Document

variable {o : ParseOptions} {text : String} {lexed : Lexed} {symbols : List Symbol}

/-- Of a template that is made of text, start tags without attributes, closing tags and directives
nothing is reported if and only if its elements and blocks are closed in order, unless they are
nested too deep. -/
theorem diagnostics_eq_empty_iff (ho : o.lexerExtensions = []) (ho' : o.treeExtensions = [])
    (hlex : lex o (.ofString text) = .ok lexed)
    (hspelled : Spelled (.ofString text) lexed.tokens.toList symbols)
    (hplain : ∀ symbol ∈ symbols, symbol.Plain) :
    (∃ d, parse o text = .ok d ∧ (d.diagnostics = #[] ↔ Symbol.Items symbols)) ∨
      ∃ counter limit offset, parse o text = .error (.depthLimit counter limit offset) := by
  have hg := (lexed_sound hlex).grammatical ho
  have hyields := Builder.yields_build (t := lexed.tokenized o (.ofString text))
  rw [parse_eq_of_lex hlex]
  cases hbuild : Builder.build (lexed.tokenized o (.ofString text)) with
  | ok b => exact .inl ⟨_, rfl, Builder.returns_build hspelled hplain hg ho' b hbuild⟩
  | error e =>
      rw [hbuild] at hyields
      cases e with
      | depthLimit counter limit offset => exact .inr ⟨counter, limit, offset, rfl⟩
      | fault f => exact absurd hg hyields

/-- Options under which `@if` and its parts are the only known directives. -/
def ifOptions : ParseOptions :=
  .ofDirectives ["if", "else", "endif"]

theorem diagnostics_eq_empty_iff_nested : ∃ lexed,
    lex ifOptions (.ofString "<b>@if(a)-@else<i></I >@endif</b>") = .ok lexed ∧
    Spelled (.ofString "<b>@if(a)-@else<i></I >@endif</b>") lexed.tokens.toList
      [.start "b", .directive "if" (some 1), .text, .directive "else" none, .start "i", .close "I",
        .directive "endif" none, .close "b"] ∧
    ((∃ d, parse ifOptions "<b>@if(a)-@else<i></I >@endif</b>" = .ok d ∧
        (d.diagnostics = #[] ↔ Symbol.Items
          [.start "b", .directive "if" (some 1), .text, .directive "else" none, .start "i",
            .close "I", .directive "endif" none, .close "b"])) ∨
      ∃ counter limit offset, parse ifOptions "<b>@if(a)-@else<i></I >@endif</b>" =
        .error (.depthLimit counter limit offset)) := by
  have htokens : (lex ifOptions (.ofString "<b>@if(a)-@else<i></I >@endif</b>")).map (·.tokens) =
    .ok #[⟨.lessThan, 0, 1⟩, ⟨.tagName, 1, 2⟩, ⟨.greaterThan, 2, 3⟩, ⟨.directive, 3, 6⟩,
      ⟨.directiveArgs, 6, 9⟩, ⟨.text, 9, 10⟩, ⟨.directive, 10, 15⟩, ⟨.lessThan, 15, 16⟩,
      ⟨.tagName, 16, 17⟩, ⟨.greaterThan, 17, 18⟩, ⟨.lessThan, 18, 19⟩, ⟨.slash, 19, 20⟩,
      ⟨.tagName, 20, 21⟩, ⟨.whitespace, 21, 22⟩, ⟨.greaterThan, 22, 23⟩, ⟨.directive, 23, 29⟩,
      ⟨.lessThan, 29, 30⟩, ⟨.slash, 30, 31⟩, ⟨.tagName, 31, 32⟩, ⟨.greaterThan, 32, 33⟩] := by cbv
  cases hlex : lex ifOptions (.ofString "<b>@if(a)-@else<i></I >@endif</b>") with
  | error e =>
      rw [hlex] at htokens
      cases htokens
  | ok lexed =>
      rw [hlex] at htokens
      have hspelled : Spelled (.ofString "<b>@if(a)-@else<i></I >@endif</b>") lexed.tokens.toList
          [.start "b", .directive "if" (some 1), .text, .directive "else" none, .start "i",
            .close "I", .directive "endif" none, .close "b"] := by
        rw [show lexed.tokens = _ from Except.ok.inj htokens]
        refine .start none [] rfl rfl (by cbv) (by simp) (by simp) rfl ?_
        refine .directiveArgs none rfl (by cbv) (by simp) rfl (by cbv) (.text rfl ?_)
        refine .directive rfl (by cbv) (.start none [] rfl rfl (by cbv) (by simp) (by simp) rfl ?_)
        refine .close [_] rfl rfl rfl (by cbv) (by simp) rfl (.directive rfl (by cbv) ?_)
        exact .close [] rfl rfl rfl (by cbv) (by simp) rfl .nil
      have hplain : ∀ symbol ∈ [Symbol.start "b", .directive "if" (some 1), .text,
          .directive "else" none, .start "i", .close "I", .directive "endif" none, .close "b"],
          symbol.Plain := by
        simp only [List.forall_mem_cons, Symbol.Plain]
        exact ⟨⟨by cbv, by cbv⟩, trivial, trivial, ⟨by decide, by decide⟩, ⟨by cbv, by cbv⟩, trivial,
          ⟨by decide, by decide⟩, trivial, List.forall_mem_nil _⟩
      exact ⟨lexed, rfl, hspelled, diagnostics_eq_empty_iff rfl rfl hlex hspelled hplain⟩

end Document
end BladeTree
