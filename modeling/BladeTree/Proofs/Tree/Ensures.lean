import BladeTree.Proofs.Tree.Yields

namespace BladeTree

/-- Nothing but a fault keeps a result from coming, and it satisfies `Q`. -/
def Build.Ensures {α : Type} (x : Build α) (Q : α → Prop) : Prop :=
  match x with
  | .ok a => Q a
  | .error (.depthLimit _ _ _) => False
  | .error (.fault _) => True

namespace Build.Ensures

variable {α β : Type} {x y : Build α} {f : α → Build β} {P Q : α → Prop} {R : β → Prop}

theorem bind (hx : Build.Ensures x P) (hf : ∀ a, P a → Build.Ensures (f a) R) :
    Build.Ensures (x >>= f) R := by
  cases x with
  | ok a => exact hf a hx
  | error e =>
      cases e with
      | depthLimit => exact hx.elim
      | fault => trivial

theorem ok {a : α} (h : Q a) : Build.Ensures (.ok a) Q := h

theorem mono (hx : Build.Ensures x P) (h : ∀ a, P a → Q a) : Build.Ensures x Q := by
  cases x with
  | ok a => exact h a hx
  | error e =>
      cases e with
      | depthLimit => exact hx
      | fault => exact hx

theorem and (hx : Build.Ensures x P) (hx' : Build.Ensures x Q) :
    Build.Ensures x fun a => P a ∧ Q a := by
  cases x with
  | ok a => exact ⟨hx, hx'⟩
  | error e =>
      cases e with
      | depthLimit => exact hx
      | fault => exact hx

theorem ite {c : Prop} [Decidable c] (hx : c → Build.Ensures x Q) (hy : ¬ c → Build.Ensures y Q) :
    Build.Ensures (if c then x else y) Q := by
  split
  · exact hx ‹_›
  · exact hy ‹_›

theorem fault {e : Fault} : Build.Ensures (Build.fault e) Q := trivial

end Build.Ensures

theorem Tokenized.Yields.exists_ok {t : Tokenized} {α : Type} {x : Build α} {P Q : α → Prop}
    (hx : t.Yields x P) (hx' : Build.Ensures x Q) (hg : t.Grammatical) :
    ∃ a, x = .ok a ∧ P a ∧ Q a := by
  cases x with
  | ok a => exact ⟨a, rfl, hx, hx'⟩
  | error e =>
      cases e with
      | depthLimit => exact hx'.elim
      | fault => exact absurd hg hx

namespace Tokenized

variable {t : Tokenized}

theorem ensures_token (i : Nat) : Build.Ensures (t.token i) fun _ => True := by
  unfold token
  split <;> trivial

theorem ensures_text (i : Nat) : Build.Ensures (t.text i) fun _ => True :=
  (ensures_token i).bind fun _ _ => trivial

theorem ensures_span (i j : Nat) : Build.Ensures (t.span i j) fun _ => True := by
  unfold span
  refine .ite (fun _ => ?_) fun _ => .ok trivial
  refine (ensures_token i).bind fun _ _ => ?_
  exact (ensures_token (j - 1)).bind fun _ _ => .ok trivial

theorem ensures_directiveName (i : Nat) : Build.Ensures (t.directiveName i) fun _ => True :=
  (ensures_text i).bind fun _ _ => trivial

theorem ensures_argumentCount (i : Nat) : Build.Ensures (t.argumentCount i) fun _ => True :=
  (ensures_token i).bind fun _ _ => trivial

end Tokenized

namespace Builder

theorem ensures_node (b : Builder) (id : Nat) : Build.Ensures (b.node id) fun _ => True := by
  unfold node
  split <;> trivial

theorem ensures_countDown (n : Nat) : Build.Ensures (countDown n) fun _ => True :=
  .ite (fun _ => trivial) fun _ => trivial

end Builder
end BladeTree
