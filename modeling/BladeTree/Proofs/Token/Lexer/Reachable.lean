import BladeTree.Proofs.Token.Lexer.Cuts

namespace BladeTree
namespace Lexer

variable {o : ParseOptions} {s : Source} {l l' : Lexer} {q : Nat}

/-- One step of the loop. -/
def Steps (o : ParseOptions) (s : Source) (l l' : Lexer) : Prop :=
  ∃ b, s.byte? l.pos = some b ∧ l.step o s b = .ok l'

theorem Steps.unique {l₁ l₂ : Lexer} (h₁ : Steps o s l l₁) (h₂ : Steps o s l l₂) : l₁ = l₂ := by
  obtain ⟨b, hb, h₁⟩ := h₁
  obtain ⟨c, hc, h₂⟩ := h₂
  obtain rfl : b = c := Option.some.inj (hb.symm.trans hc)
  exact Except.ok.inj (h₁.symm.trans h₂)

/-- The lexers that the loop comes past. -/
inductive Reachable (o : ParseOptions) (s : Source) : Lexer → Prop
  | initial : Reachable o s initial
  | step (l l' : Lexer) : Reachable o s l → Steps o s l l' → Reachable o s l'

theorem run_of_byte {idle : Nat} {b : UInt8} (hb : s.byte? l.pos = some b)
    (hstep : l.step o s b = .ok l') :
    l.run o s idle =
      if l.pos < l'.pos then l'.run o s idleLimit
      else if l'.pos = l.pos ∧ 0 < idle then l'.run o s (idle - 1)
      else .error (.lexerStuck l.pos) := by
  have hlt : l.pos < s.size := s.lt_size_of_byte? hb
  obtain rfl : s.bytes[l.pos] = b := Option.some.inj ((s.byte?_of_lt hlt).symm.trans hb)
  conv_lhs => rw [run]
  rw [dif_pos hlt, hstep]
  rfl

theorem run_eq_error {idle : Nat} {b : UInt8} {f : Fault} (hb : s.byte? l.pos = some b)
    (hf : l.step o s b = .error f) : l.run o s idle = .error f := by
  have hlt : l.pos < s.size := s.lt_size_of_byte? hb
  obtain rfl : s.bytes[l.pos] = b := Option.some.inj ((s.byte?_of_lt hlt).symm.trans hb)
  rw [run, dif_pos hlt, hf]

namespace Reachable

theorem covered (h : Reachable o s l) : Covered o s l := by
  induction h with
  | initial => exact covered_initial
  | step l l' _ hstep ih =>
      obtain ⟨b, hb, hstep⟩ := hstep
      exact (ih.step hb hstep).1

theorem run_eq (h : Reachable o s l) : ∃ idle, l.mode.patience ≤ idle ∧
    Lexer.initial.run o s idleLimit = l.run o s idle := by
  induction h with
  | initial => exact ⟨idleLimit, patience_le_idleLimit _, rfl⟩
  | step l l' hl hstep ih =>
      obtain ⟨idle, hidle, hrun⟩ := ih
      obtain ⟨b, hb, hstep⟩ := hstep
      have hprogress : Progresses l l' := progresses_step hl.covered.ready hb hstep
      have hle : l.pos ≤ l'.pos := (hl.covered.step hb hstep).2
      rw [run_of_byte hb hstep] at hrun
      by_cases hp : l.pos < l'.pos
      · rw [if_pos hp] at hrun
        exact ⟨idleLimit, patience_le_idleLimit _, hrun⟩
      · have hpatience := hprogress.resolve_left hp
        have hstays : l'.pos = l.pos ∧ 0 < idle := ⟨by omega, by omega⟩
        rw [if_neg hp, if_pos hstays] at hrun
        exact ⟨idle - 1, by omega, hrun⟩

theorem exists_of_lex {P : Lexer → Prop} (h : Reachable o s l) (hl : P l)
    (hstep : ∀ l l' b, Ready s l → P l → s.byte? l.pos = some b → l.step o s b = .ok l' → P l')
    {lexed : Lexed} (hlex : lex o s = .ok lexed) :
    ∃ l' : Lexer, Ready s l' ∧ P l' ∧ l'.pos = s.size ∧
      lexed = ⟨l'.flushText.tokens, l'.flushText.errors⟩ := by
  obtain ⟨idle, hidle, hrun⟩ := h.run_eq
  obtain ⟨l', hr, hP, ⟨hpos, hend⟩ | ⟨b, f, -, -, hfault⟩⟩ := h.covered.ready.run hl hstep hidle
  · rw [lex, hrun, hend] at hlex
    cases hlex
    exact ⟨l', hr, hP, hpos, rfl⟩
  · rw [lex, hrun, hfault] at hlex
    cases hlex

theorem lex_eq (h : Reachable o s l) (hpos : l.pos = s.size) :
    lex o s = .ok ⟨l.flushText.tokens, l.flushText.errors⟩ := by
  obtain ⟨idle, -, hrun⟩ := h.run_eq
  rw [lex, hrun, run, dif_neg (by omega)]
  rfl

theorem lex_eq_error (h : Reachable o s l) {b : UInt8} {f : Fault} (hb : s.byte? l.pos = some b)
    (hf : l.step o s b = .error f) : lex o s = .error f := by
  obtain ⟨idle, -, hrun⟩ := h.run_eq
  rw [lex, hrun, run_eq_error hb hf]
  rfl

end Reachable

/-! Text that has been read -/

theorem Move.tokens_eq (hr : Ready s l) (hm : Move o s l l') : l'.tokens = l.tokens ∨
    ∃ us : List Token, l'.tokens = l.tokens ++ (l.pendingText ++ us) ∧
      ∀ t ∈ us, l.pos ≤ t.start := by
  cases hm with
  | emit kind length =>
      right
      rw [emit_eq]
      exact ⟨_, rfl, List.forall_mem_singleton.2 le_rfl⟩
  | opens =>
      right
      rw [emit_eq]
      exact ⟨_, rfl, List.forall_mem_singleton.2 le_rfl⟩
  | slash length =>
      right
      refine ⟨[⟨.slash, l.pos, l.pos + 1⟩, ⟨.tagName, l.pos + 1, l.pos + 1 + length⟩], ?_, ?_⟩
      · rw [emit_eq, emit_eq]
        apply Array.toList_inj.1
        simp [pendingText]
      · simp
  | read => exact .inl rfl
  | goTo =>
      right
      rw [goTo_eq]
      exact ⟨[], by simp, List.forall_mem_nil _⟩
  | claim b tokens stop _ _ hclaim =>
      right
      refine ⟨tokens, by rw [accept_eq], fun t ht => ?_⟩
      · exact (claim?_bounds hclaim hr.inside).1.start_le ht
  | beginEcho =>
      right
      rw [goTo_eq]
      exact ⟨[], by simp [pendingText], List.forall_mem_nil _⟩
  | takeEcho => exact .inl rfl
  | saveMode => exact .inl rfl
  | learn => exact .inl rfl
  | note => exact .inl rfl

/-- The byte at `q` has been read, and no token but text begins there. -/
structure ReadAsText (q : Nat) (l : Lexer) : Prop where
  passed : q < l.pos
  text : ∀ t ∈ l.tokens, t.start = q → t.kind = .text

namespace ReadAsText

theorem flushText (h : ReadAsText q l) : ReadAsText q l.flushText := by
  rw [flushText_eq]
  refine ⟨h.passed, fun t ht hq => ?_⟩
  rw [← Array.mem_toList_iff, Array.toList_appendList, List.mem_append] at ht
  rcases ht with ht | ht
  · exact h.text t (Array.mem_toList_iff.1 ht) hq
  · obtain ⟨rfl, -⟩ := mem_pendingText ht
    rfl

theorem move (h : ReadAsText q l) (hr : Ready s l) (hm : Move o s l l') : ReadAsText q l' := by
  refine ⟨h.passed.trans_le (hm.le hr), fun t ht hq => ?_⟩
  rcases hm.tokens_eq hr with htokens | ⟨us, htokens, hus⟩
  · exact h.text t (htokens ▸ ht) hq
  · rw [htokens, ← Array.mem_toList_iff, Array.toList_appendList, List.mem_append,
      List.mem_append] at ht
    rcases ht with ht | ht | ht
    · exact h.text t (Array.mem_toList_iff.1 ht) hq
    · obtain ⟨rfl, -⟩ := mem_pendingText ht
      rfl
    · have := h.passed
      have := hus t ht
      omega

theorem moves (h : ReadAsText q l) (hr : Ready s l) (hm : Relation.ReflTransGen (Move o s) l l') :
    ReadAsText q l' := by
  induction hm with
  | refl => exact h
  | tail hm hlast ih => exact ih.move (hr.moves hm).1 hlast

/-- No token of the source but text begins where a reachable lexer has read text. -/
theorem forall_tokens (h : ReadAsText q l) (hl : Reachable o s l) {lexed : Lexed}
    (hlex : lex o s = .ok lexed) : ∀ t ∈ lexed.tokens, t.start = q → t.kind = .text := by
  obtain ⟨l', -, hread, -, rfl⟩ := hl.exists_of_lex h
    (fun _ _ _ hr hread hb hstep => hread.moves hr (moves_step hr hb hstep)) hlex
  exact hread.flushText.text

end ReadAsText

theorem Covered.start_lt (h : Covered o s l) (ho : o.lexerExtensions = []) {t : Token}
    (ht : t ∈ l.tokens) : t.start < l.pos := by
  have hsolid : t.start < t.stop := h.adds.solid ho t ht.val
  have hstop : t.stop ≤ l.front := h.adds.tiles.stop_le ht.val
  have hfront : l.front ≤ l.pos := h.adds.behind
  omega

theorem Covered.readAsText (h : Covered o s l) (ho : o.lexerExtensions = []) {n i : Nat}
    (hi : i < n) : ReadAsText (l.pos + i) (l.readText n) := by
  constructor
  · rw [readText_pos]
    omega
  · intro t ht hq
    have hstart : t.start < l.pos := h.start_lt ho ht
    omega

theorem Move.mem_tokens (hr : Ready s l) (hm : Move o s l l') {t : Token} (ht : t ∈ l.tokens) :
    t ∈ l'.tokens := by
  rcases hm.tokens_eq hr with htokens | ⟨us, htokens, -⟩
  · exact htokens ▸ ht
  · rw [htokens, ← Array.mem_toList_iff, Array.toList_appendList]
    exact List.mem_append_left _ ht.val

theorem Reachable.mem_tokens (h : Reachable o s l) {t : Token} (ht : t ∈ l.tokens) {lexed : Lexed}
    (hlex : lex o s = .ok lexed) : t ∈ lexed.tokens := by
  have hstep (l l' : Lexer) (b : UInt8) (hr : Ready s l) (ht : t ∈ l.tokens)
      (hb : s.byte? l.pos = some b) (hstep : l.step o s b = .ok l') : t ∈ l'.tokens := by
    have hmoves := moves_step hr hb hstep
    clear hstep
    induction hmoves with
    | refl => exact ht
    | tail hm hlast ih => exact hlast.mem_tokens (hr.moves hm).1 ih
  obtain ⟨l', -, hmem, -, rfl⟩ := h.exists_of_lex (P := (t ∈ ·.tokens)) ht hstep hlex
  rw [flushText_eq, ← Array.mem_toList_iff, Array.toList_appendList]
  exact List.mem_append_left _ hmem.val

section Run

variable (hl : Reachable o s l) (h : Relation.ReflTransGen (Steps o s) l l')
include hl h

theorem Reachable.steps : Reachable o s l' := by
  induction h with
  | refl => exact hl
  | tail _ hstep ih => exact .step _ _ ih hstep

theorem Reachable.pos_le : l.pos ≤ l'.pos := by
  induction h with
  | refl => exact le_rfl
  | tail hrest hstep ih =>
      obtain ⟨b, hb, hstep⟩ := hstep
      exact ih.trans ((hl.steps hrest).covered.step hb hstep).2

theorem ReadAsText.steps (hread : ReadAsText q l) : ReadAsText q l' := by
  induction h with
  | refl => exact hread
  | tail hrest hstep ih =>
      obtain ⟨b, hb, hstep⟩ := hstep
      have hready := (hl.steps hrest).covered.ready
      exact ih.moves hready (moves_step hready hb hstep)

end Run

end Lexer
end BladeTree
