import BladeTree.Tree.Build
import Mathlib.Tactic

namespace BladeTree
namespace Tokenized

/-- What the tree builder relies on: no token is empty or out of the source, and no slash comes
last. -/
structure Grammatical (t : Tokenized) : Prop where
  solid : ∀ (i : Nat) (token : Token), t.tokens[i]? = some token →
    token.start < token.stop ∧ token.stop ≤ t.source.size
  named : ∀ i, t.kind? i = some .slash → i + 1 < t.size

variable (t : Tokenized) {α β : Type}

/-- A result satisfies `Q`, and a fault shows that the tokens are not grammatical. -/
def Yields (x : Build α) (Q : α → Prop) : Prop :=
  match x with
  | .ok a => Q a
  | .error (.depthLimit _ _ _) => True
  | .error (.fault _) => ¬ t.Grammatical

variable {t} {x y : Build α} {f : α → Build β} {P Q : α → Prop} {R : β → Prop}

theorem yields_fault {e : Fault} (h : ¬ t.Grammatical) : t.Yields (Build.fault e) Q := h

namespace Yields

theorem bind (hx : t.Yields x P) (hf : ∀ a, P a → t.Yields (f a) R) : t.Yields (x >>= f) R := by
  cases x with
  | ok a => exact hf a hx
  | error e =>
      cases e with
      | depthLimit => trivial
      | fault => exact hx

theorem mono (hx : t.Yields x P) (h : ∀ a, P a → Q a) : t.Yields x Q := by
  cases x with
  | ok a => exact h a hx
  | error e =>
      cases e with
      | depthLimit => trivial
      | fault => exact hx

theorem map {g : α → β} (hx : t.Yields x P) (h : ∀ a, P a → R (g a)) : t.Yields (g <$> x) R := by
  cases x with
  | ok a => exact h a hx
  | error e =>
      cases e with
      | depthLimit => trivial
      | fault => exact hx

theorem ite {c : Prop} [Decidable c] (hx : c → t.Yields x Q) (hy : ¬ c → t.Yields y Q) :
    t.Yields (if c then x else y) Q := by
  split
  · exact hx ‹_›
  · exact hy ‹_›

end Yields

theorem exists_token {i : Nat} (hi : i < t.size) : ∃ token, t.tokens[i]? = some token :=
  ⟨t.tokens[i], getElem?_pos t.tokens i hi⟩

theorem lt_size_of_kind? {i : Nat} {kind : TokenType} (h : t.kind? i = some kind) : i < t.size := by
  obtain ⟨token, htoken, -⟩ := Option.map_eq_some_iff.1 h
  exact (getElem?_eq_some_iff.1 htoken).1

theorem yields_token {i : Nat} (hi : i < t.size) :
    t.Yields (t.token i) (t.tokens[i]? = some ·) := by
  obtain ⟨u, hu⟩ := exists_token hi
  unfold token
  rw [hu]
  exact rfl

theorem yields_text {i : Nat} (hi : i < t.size) : t.Yields (t.text i) fun _ => True :=
  (yields_token hi).map fun _ _ => trivial

theorem yields_text_of_grammatical {i : Nat} (hi : t.Grammatical → i < t.size) :
    t.Yields (t.text i) fun _ => i < t.size := by
  by_cases h : i < t.size
  · exact (yields_text h).mono fun _ _ => h
  · have hnone : t.tokens[i]? = none := getElem?_neg t.tokens i h
    unfold text token
    rw [hnone]
    exact fun hg => h (hi hg)

theorem yields_span {start stop : Nat} (hstop : stop ≤ t.size) :
    t.Yields (t.span start stop) fun _ => True := by
  unfold span
  split
  · refine (yields_token (by omega)).bind fun _ _ => ?_
    exact (yields_token (by omega)).bind fun _ _ => trivial
  · trivial

end Tokenized
end BladeTree
