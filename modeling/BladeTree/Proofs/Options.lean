import BladeTree.Options
import Mathlib.Tactic

namespace BladeTree

section Sorted

variable {α : Type} {le : α → α → Bool} (htrans : ∀ a b c, le a b → le b c → le a c)
  (htotal : ∀ a b, le a b || le b a)
include htrans htotal

theorem mergeSort_cons_eq (a : α) (l : List α) : (a :: l).mergeSort le =
    (l.mergeSort le).filter (!le a ·) ++ a :: (l.mergeSort le).filter (le a ·) := by
  obtain ⟨l₁, l₂, hcons, hl, hbefore⟩ := List.mergeSort_cons htrans htotal a l
  have hsorted := List.pairwise_mergeSort htrans htotal (a :: l)
  rw [hcons, List.pairwise_append, List.pairwise_cons] at hsorted
  obtain ⟨-, ⟨hafter, -⟩, -⟩ := hsorted
  have hfirst : l₁.filter (!le a ·) = l₁ := List.filter_eq_self.2 hbefore
  have hfirst' : l₁.filter (le a ·) = [] :=
    List.filter_eq_nil_iff.2 fun b hb => by simpa using hbefore b hb
  have hsecond : l₂.filter (le a ·) = l₂ := List.filter_eq_self.2 hafter
  have hsecond' : l₂.filter (!le a ·) = [] :=
    List.filter_eq_nil_iff.2 fun b hb => by simpa using hafter b hb
  rw [hcons, hl, List.filter_append, List.filter_append, hfirst, hfirst', hsecond, hsecond',
    List.append_nil, List.nil_append]

theorem exists_mergeSort_insert (xs ys : List α) (x : α) : ∃ before after,
    (xs ++ x :: ys).mergeSort le = before ++ x :: after ∧
      (xs ++ ys).mergeSort le = before ++ after := by
  induction xs with
  | nil =>
      obtain ⟨before, after, hwith, hwithout, -⟩ := List.mergeSort_cons htrans htotal x ys
      exact ⟨before, after, hwith, hwithout⟩
  | cons a xs ih =>
      obtain ⟨before, after, hwith, hwithout⟩ := ih
      rw [List.cons_append, List.cons_append, mergeSort_cons_eq htrans htotal,
        mergeSort_cons_eq htrans htotal, hwith, hwithout]
      simp only [List.filter_append, List.filter_cons]
      by_cases hle : le a x
      · refine ⟨before.filter (!le a ·) ++ after.filter (!le a ·) ++ a :: before.filter (le a ·),
          after.filter (le a ·), ?_, ?_⟩ <;> simp [hle]
      · refine ⟨before.filter (!le a ·), after.filter (!le a ·) ++
          a :: (before.filter (le a ·) ++ after.filter (le a ·)), ?_, ?_⟩ <;> simp [hle]

end Sorted

namespace ParseOptions

/-- `o'` asks `x`, at some place in their order, besides the extensions that `o` asks. To the lexer
they are the same otherwise. -/
structure AlsoAsks (x : LexerExtension) (o o' : ParseOptions) : Prop where
  directives : o'.directives = o.directives
  tokenTypes : o'.tokenTypes = o.tokenTypes
  extensions : ∃ before after, o.lexerExtensions = before ++ after ∧
    o'.lexerExtensions = before ++ x :: after

/-- An extension that needs no token types is asked besides the others, at the place that its
priority gives it. -/
theorem build_insert {x : LexerExtension} (hx : x.types = []) (d : DirectiveSet)
    (limits : DepthLimits) (xs ys : List LexerExtension) (ts : List TreeExtension) :
    (∃ e, build d limits (xs ++ x :: ys) ts = .error e ∧ build d limits (xs ++ ys) ts = .error e) ∨
      ∃ o o', build d limits (xs ++ x :: ys) ts = .ok o' ∧
        build d limits (xs ++ ys) ts = .ok o ∧ AlsoAsks x o o' := by
  have htrans (a b c : LexerExtension) (hab : decide (a.priority ≥ b.priority))
      (hbc : decide (b.priority ≥ c.priority)) : decide (a.priority ≥ c.priority) := by
    simp only [decide_eq_true_eq] at *
    omega
  have htotal (a b : LexerExtension) :
      decide (a.priority ≥ b.priority) || decide (b.priority ≥ a.priority) := by
    simp only [Bool.or_eq_true, decide_eq_true_eq]
    omega
  obtain ⟨before, after, hwith, hwithout⟩ := exists_mergeSort_insert htrans htotal xs ys x
  have htypes : (before ++ x :: after).flatMap (·.types) = (before ++ after).flatMap (·.types) := by
    simp [hx]
  simp only [build, hwith, hwithout, htypes]
  cases Registry.extensions.registerAll ((before ++ after).flatMap (·.types)) with
  | error e => exact .inl ⟨e, rfl, rfl⟩
  | ok tokenTypes =>
      generalize ts.mergeSort (fun a b => decide (a.priority ≥ b.priority)) = ts
      simp only [bind, Except.bind]
      cases Registry.extensions.registerAll (ts.flatMap (·.kinds)) with
      | error e => exact .inl ⟨e, rfl, rfl⟩
      | ok nodeKinds =>
          exact .inr ⟨⟨d, limits, before ++ after, ts, tokenTypes, nodeKinds⟩,
            ⟨d, limits, before ++ x :: after, ts, tokenTypes, nodeKinds⟩, rfl, rfl, rfl, rfl,
            before, after, rfl, rfl⟩

end ParseOptions
end BladeTree
