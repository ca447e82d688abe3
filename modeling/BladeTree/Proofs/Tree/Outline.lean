import Mathlib.Tactic
import Mathlib.Logic.Relation

namespace BladeTree

/-- The least number with a property, if there is one. -/
def LeastOf (P : Nat → Prop) : Option Nat → Prop
  | some c => P c ∧ ∀ x, P x → c ≤ x
  | none => ∀ x, ¬ P x

/-- The greatest number with a property, if there is one. -/
def GreatestOf (P : Nat → Prop) : Option Nat → Prop
  | some c => P c ∧ ∀ x, P x → x ≤ c
  | none => ∀ x, ¬ P x

section Extremes

variable {P Q : Nat → Prop} {o : Option Nat} {n : Nat}

theorem LeastOf.congr (h : LeastOf P o) (hPQ : ∀ x, Q x ↔ P x) : LeastOf Q o := by
  rwa [show Q = P from funext fun x => propext (hPQ x)]

theorem GreatestOf.congr (h : GreatestOf P o) (hPQ : ∀ x, Q x ↔ P x) : GreatestOf Q o := by
  rwa [show Q = P from funext fun x => propext (hPQ x)]

theorem LeastOf.eq_none (h : LeastOf P o) (hP : ∀ x, ¬ P x) : o = none := by
  cases o with
  | none => rfl
  | some c => exact absurd h.1 (hP c)

theorem LeastOf.ne_none (h : LeastOf P o) {x : Nat} (hx : P x) : o ≠ none := by
  rintro rfl
  exact h x hx

theorem LeastOf.of_eq_some {c : Nat} (h : LeastOf P o) (ho : o = some c) : P c := by
  subst ho
  exact h.1

theorem GreatestOf.of_eq_some {c : Nat} (h : GreatestOf P o) (ho : o = some c) : P c := by
  subst ho
  exact h.1

theorem LeastOf.eq_some_iff (h : LeastOf P o) (c : Nat) :
    o = some c ↔ P c ∧ ∀ x, P x → c ≤ x := by
  constructor
  · rintro rfl
    exact h
  · rintro ⟨hc, hle⟩
    obtain ⟨d, rfl⟩ := Option.ne_none_iff_exists'.1 (h.ne_none hc)
    rw [le_antisymm (h.2 c hc) (hle d h.1)]

theorem GreatestOf.eq_some_iff (h : GreatestOf P o) (c : Nat) :
    o = some c ↔ P c ∧ ∀ x, P x → x ≤ c := by
  constructor
  · rintro rfl
    exact h
  · rintro ⟨hc, hle⟩
    cases o with
    | none => exact absurd hc (h c)
    | some d => rw [le_antisymm (hle d h.1) (h.2 c hc)]

/-- A number above all those with the property changes the least of them only if there is none. -/
theorem LeastOf.insert (h : LeastOf P o) (hn : ∀ x, P x → x < n) :
    LeastOf (fun x => P x ∨ x = n) (some (o.getD n)) := by
  cases o with
  | none =>
      refine ⟨.inr rfl, fun x hx => ?_⟩
      rcases hx with hx | rfl
      · exact absurd hx (h x)
      · exact le_rfl
  | some c =>
      refine ⟨.inl h.1, fun x hx => ?_⟩
      rcases hx with hx | rfl
      · exact h.2 x hx
      · exact (hn c h.1).le

theorem GreatestOf.insert (hn : ∀ x, P x → x < n) :
    GreatestOf (fun x => P x ∨ x = n) (some n) := by
  refine ⟨.inr rfl, fun x hx => ?_⟩
  rcases hx with hx | rfl
  · exact (hn x hx).le
  · exact le_rfl

end Extremes

/-- An arena without kinds and data: the links of every id and the tokens that it covers. -/
structure Outline where
  size : Nat
  parent : Nat → Option Nat
  firstChild : Nat → Option Nat
  lastChild : Nat → Option Nat
  nextSibling : Nat → Option Nat
  prevSibling : Nat → Option Nat
  start : Nat → Nat
  stop : Nat → Nat

namespace Outline

variable (a : Outline)

def grow (q pos : Nat) : Outline where
  size := a.size + 1
  parent i := if i = a.size then some q else a.parent i
  firstChild i :=
    if i = a.size then none
    else if i = q ∧ a.lastChild q = none then some a.size else a.firstChild i
  lastChild i := if i = a.size then none else if i = q then some a.size else a.lastChild i
  nextSibling i :=
    if i = a.size then none
    else if a.lastChild q = some i then some a.size else a.nextSibling i
  prevSibling i := if i = a.size then a.lastChild q else a.prevSibling i
  start i := if i = a.size then pos else a.start i
  stop i := if i = a.size then pos else a.stop i

def close (id pos : Nat) : Outline :=
  { a with stop := fun i => if i = id then pos else a.stop i }

def Sibling (c x : Nat) : Prop := ∃ p, a.parent c = some p ∧ a.parent x = some p

/-- The links say the same: parents come before their children, and every other link is the
nearest id that the parents allow. -/
structure Linked : Prop where
  nonempty : 0 < a.size
  root : a.parent 0 = none
  below : ∀ c p, a.parent c = some p → p < c ∧ c < a.size
  rooted : ∀ c, 0 < c → c < a.size → ∃ p, a.parent c = some p
  first : ∀ p, LeastOf (a.parent · = some p) (a.firstChild p)
  last : ∀ p, GreatestOf (a.parent · = some p) (a.lastChild p)
  next : ∀ c, LeastOf (fun x => c < x ∧ a.Sibling c x) (a.nextSibling c)
  prev : ∀ c, GreatestOf (fun x => x < c ∧ a.Sibling c x) (a.prevSibling c)

variable {a} in
theorem Linked.next_eq_some_iff (h : a.Linked) (c d : Nat) :
    a.nextSibling c = some d ↔ a.prevSibling d = some c := by
  have hsymm {x y : Nat} : a.Sibling x y → a.Sibling y x := fun ⟨p, hx, hy⟩ => ⟨p, hy, hx⟩
  have htrans {x y z : Nat} (hxy : a.Sibling x y) (hyz : a.Sibling y z) : a.Sibling x z := by
    obtain ⟨p, hx, hy⟩ := hxy
    obtain ⟨q, hy', hz⟩ := hyz
    obtain rfl : p = q := Option.some.inj (hy.symm.trans hy')
    exact ⟨p, hx, hz⟩
  rw [(h.next c).eq_some_iff, (h.prev d).eq_some_iff]
  constructor
  · rintro ⟨⟨hlt, hs⟩, hleast⟩
    refine ⟨⟨hlt, hsymm hs⟩, fun x ⟨hx, hdx⟩ => ?_⟩
    by_contra hcx
    exact absurd (hleast x ⟨Nat.lt_of_not_le hcx, htrans hs hdx⟩) (Nat.not_le_of_lt hx)
  · rintro ⟨⟨hlt, hs⟩, hgreatest⟩
    refine ⟨⟨hlt, hsymm hs⟩, fun x ⟨hx, hcx⟩ => ?_⟩
    by_contra hdx
    exact absurd (hgreatest x ⟨Nat.lt_of_not_le hdx, htrans hs hcx⟩) (Nat.not_le_of_lt hx)

/-- `p` is `i` or one of its ancestors. -/
def Above : Nat → Nat → Prop := Relation.ReflTransGen fun p c => a.parent c = some p

/-- Every node comes directly after the nodes below its earlier siblings, or after its parent. -/
def Preordered : Prop :=
  ∀ i, i + 1 < a.size → ∃ p, a.parent (i + 1) = some p ∧ a.Above p i

section Grow

variable {a} {q pos : Nat}

theorem grow_parent_iff (pos : Nat) (h : a.Linked) (hq : q < a.size) (p x : Nat) :
    (a.grow q pos).parent x = some p ↔ a.parent x = some p ∨ p = q ∧ x = a.size := by
  unfold grow
  simp only
  split
  · subst x
    constructor
    · rintro ⟨⟩
      exact .inr ⟨rfl, rfl⟩
    · rintro (hp | ⟨rfl, -⟩)
      · exact absurd (h.below _ _ hp).2 (lt_irrefl _)
      · rfl
  · rename_i hx
    exact ⟨.inl, fun hp => hp.resolve_right fun hp => hx hp.2⟩

theorem grow_sibling_iff (pos : Nat) (h : a.Linked) (hq : q < a.size) (c x : Nat) :
    (a.grow q pos).Sibling c x ↔ a.Sibling c x ∨ (a.parent c = some q ∧ x = a.size) ∨
      (c = a.size ∧ a.parent x = some q) ∨ c = a.size ∧ x = a.size := by
  unfold Sibling
  simp only [grow_parent_iff pos h hq]
  constructor
  · rintro ⟨p, hc | ⟨rfl, hc⟩, hx | ⟨hp, hx⟩⟩
    · exact .inl ⟨p, hc, hx⟩
    · exact .inr (.inl ⟨hp ▸ hc, hx⟩)
    · exact .inr (.inr (.inl ⟨hc, hx⟩))
    · exact .inr (.inr (.inr ⟨hc, hx⟩))
  · rintro (⟨p, hc, hx⟩ | ⟨hc, hx⟩ | ⟨hc, hx⟩ | ⟨hc, hx⟩)
    · exact ⟨p, .inl hc, .inl hx⟩
    · exact ⟨q, .inl hc, .inr ⟨rfl, hx⟩⟩
    · exact ⟨q, .inr ⟨rfl, hc⟩, .inl hx⟩
    · exact ⟨q, .inr ⟨rfl, hc⟩, .inr ⟨rfl, hx⟩⟩

theorem Linked.firstChild_eq_none (h : a.Linked) (hq : a.lastChild q = none) :
    a.firstChild q = none := by
  have hlast := h.last q
  rw [hq] at hlast
  exact (h.first q).eq_none hlast

theorem Linked.lastChild_lt (h : a.Linked) {l : Nat} (hl : a.lastChild q = some l) :
    a.parent l = some q ∧ q < l ∧ l < a.size := by
  have hp : a.parent l = some q := (h.last q).of_eq_some hl
  exact ⟨hp, h.below l q hp⟩

theorem Linked.grow_first (h : a.Linked) (hq : q < a.size) (p : Nat) :
    LeastOf ((a.grow q pos).parent · = some p) ((a.grow q pos).firstChild p) := by
  have hpar := grow_parent_iff pos h hq p
  by_cases hn : p = a.size
  · rw [show (a.grow q pos).firstChild p = none from if_pos hn]
    intro x hx
    rcases (hpar x).1 hx with hx | ⟨rfl, -⟩
    · have := h.below x p hx
      omega
    · exact hq.ne hn
  rw [show (a.grow q pos).firstChild p =
    if p = q ∧ a.lastChild q = none then some a.size else a.firstChild p from if_neg hn]
  by_cases hpq : p = q
  · subst hpq
    refine LeastOf.congr (P := fun x => a.parent x = some p ∨ x = a.size) ?_
      fun x => by rw [hpar]; simp
    have hinsert := (h.first p).insert fun x hx => (h.below x p hx).2
    cases hl : a.lastChild p with
    | none =>
        rw [h.firstChild_eq_none hl] at hinsert
        simpa using hinsert
    | some l =>
        obtain ⟨f, hf⟩ := Option.ne_none_iff_exists'.1 ((h.first p).ne_none (h.lastChild_lt hl).1)
        rw [hf] at hinsert ⊢
        simpa using hinsert
  · rw [if_neg fun hc => hpq hc.1]
    exact (h.first p).congr fun x => by rw [hpar]; simp [hpq]

theorem Linked.grow_last (h : a.Linked) (hq : q < a.size) (p : Nat) :
    GreatestOf ((a.grow q pos).parent · = some p) ((a.grow q pos).lastChild p) := by
  have hpar := grow_parent_iff pos h hq p
  by_cases hn : p = a.size
  · rw [show (a.grow q pos).lastChild p = none from if_pos hn]
    intro x hx
    rcases (hpar x).1 hx with hx | ⟨rfl, -⟩
    · have := h.below x p hx
      omega
    · exact hq.ne hn
  rw [show (a.grow q pos).lastChild p = if p = q then some a.size else a.lastChild p from
    if_neg hn]
  by_cases hpq : p = q
  · rw [if_pos hpq]
    refine GreatestOf.congr (GreatestOf.insert fun x hx => (h.below x p hx).2) fun x => ?_
    rw [hpar]
    simp [hpq]
  · rw [if_neg hpq]
    exact (h.last p).congr fun x => by rw [hpar]; simp [hpq]

theorem Linked.grow_next (h : a.Linked) (hq : q < a.size) (c : Nat) :
    LeastOf (fun x => c < x ∧ (a.grow q pos).Sibling c x) ((a.grow q pos).nextSibling c) := by
  have hsib := grow_sibling_iff pos h hq c
  by_cases hn : c = a.size
  · rw [show (a.grow q pos).nextSibling c = none from if_pos hn]
    rintro x ⟨hx, hs⟩
    rcases (hsib x).1 hs with ⟨p, -, hp⟩ | ⟨-, rfl⟩ | ⟨-, hp⟩ | ⟨-, rfl⟩
    · have := h.below x p hp
      omega
    · omega
    · have := h.below x q hp
      omega
    · omega
  rw [show (a.grow q pos).nextSibling c =
    if a.lastChild q = some c then some a.size else a.nextSibling c from if_neg hn]
  by_cases hc : a.parent c = some q
  · refine LeastOf.congr (P := fun x => (c < x ∧ a.Sibling c x) ∨ x = a.size) ?_ fun x => ?_
    · have hinsert := (h.next c).insert (n := a.size) fun x hx => by
        obtain ⟨-, p, -, hp⟩ := hx
        exact (h.below x p hp).2
      obtain ⟨l, hl⟩ : ∃ l, a.lastChild q = some l := by
        have hlast := h.last q
        cases hl : a.lastChild q with
        | none =>
            rw [hl] at hlast
            exact absurd hc (hlast c)
        | some l => exact ⟨l, rfl⟩
      have hlast := h.last q
      rw [hl] at hlast ⊢
      by_cases hlc : l = c
      · subst hlc
        have hnone : a.nextSibling l = none := (h.next l).eq_none fun x ⟨hx, p, hp, hxp⟩ => by
          rw [hc, Option.some.injEq] at hp
          have := hlast.2 x (hp ▸ hxp)
          omega
        rw [hnone] at hinsert
        simpa using hinsert
      · have hlt : c < l := lt_of_le_of_ne (hlast.2 c hc) (Ne.symm hlc)
        obtain ⟨f, hf⟩ := Option.ne_none_iff_exists'.1
          ((h.next c).ne_none ⟨hlt, q, hc, hlast.1⟩)
        rw [hf] at hinsert ⊢
        simpa [hlc] using hinsert
    · rw [hsib]
      have := (h.below c q hc).2
      constructor
      · rintro ⟨hx, hs | ⟨-, rfl⟩ | ⟨rfl, -⟩ | ⟨-, rfl⟩⟩
        · exact .inl ⟨hx, hs⟩
        · exact .inr rfl
        · exact absurd rfl hn
        · exact .inr rfl
      · rintro (⟨hx, hs⟩ | rfl)
        · exact ⟨hx, .inl hs⟩
        · exact ⟨this, .inr (.inl ⟨hc, rfl⟩)⟩
  · have hl : a.lastChild q ≠ some c := fun hl => hc (h.lastChild_lt hl).1
    rw [if_neg hl]
    refine (h.next c).congr fun x => ?_
    rw [hsib]
    simp [hc, hn]

theorem Linked.grow_prev (h : a.Linked) (hq : q < a.size) (c : Nat) :
    GreatestOf (fun x => x < c ∧ (a.grow q pos).Sibling c x) ((a.grow q pos).prevSibling c) := by
  have hsib := grow_sibling_iff pos h hq c
  by_cases hn : c = a.size
  · rw [show (a.grow q pos).prevSibling c = a.lastChild q from if_pos hn]
    refine (h.last q).congr fun x => ?_
    rw [hsib]
    constructor
    · rintro ⟨hx, ⟨p, hp, -⟩ | ⟨hp, -⟩ | ⟨-, hp⟩ | ⟨-, rfl⟩⟩
      · have := h.below c p hp
        omega
      · have := h.below c q hp
        omega
      · exact hp
      · omega
    · intro hp
      have := h.below x q hp
      exact ⟨by omega, .inr (.inr (.inl ⟨hn, hp⟩))⟩
  · rw [show (a.grow q pos).prevSibling c = a.prevSibling c from if_neg hn]
    refine (h.prev c).congr fun x => ?_
    rw [hsib]
    constructor
    · rintro ⟨hx, hs | ⟨hp, rfl⟩ | ⟨hc, -⟩ | ⟨hc, -⟩⟩
      · exact ⟨hx, hs⟩
      · have := h.below c q hp
        omega
      · exact absurd hc hn
      · exact absurd hc hn
    · exact fun hx => ⟨hx.1, .inl hx.2⟩

theorem Linked.grow (h : a.Linked) (hq : q < a.size) : (a.grow q pos).Linked where
  nonempty := Nat.succ_pos _
  root := by
    have := h.nonempty
    rw [show (a.grow q pos).parent 0 = a.parent 0 from if_neg (by omega)]
    exact h.root
  below c p hp := by
    rcases (grow_parent_iff _ h hq p c).1 hp with hp | ⟨rfl, rfl⟩
    · have := h.below c p hp
      exact ⟨this.1, this.2.trans (Nat.lt_succ_self _)⟩
    · exact ⟨hq, Nat.lt_succ_self _⟩
  rooted c hpos hlt := by
    rcases (Nat.lt_succ_iff_lt_or_eq.1 hlt) with hlt | rfl
    · obtain ⟨p, hp⟩ := h.rooted c hpos hlt
      exact ⟨p, (grow_parent_iff _ h hq p c).2 (.inl hp)⟩
    · exact ⟨q, (grow_parent_iff _ h hq q _).2 (.inr ⟨rfl, rfl⟩)⟩
  first := h.grow_first hq
  last := h.grow_last hq
  next := h.grow_next hq
  prev := h.grow_prev hq

theorem Above.grow (h : a.Linked) (hq : q < a.size) {p i : Nat} (hp : a.Above p i) :
    (a.grow q pos).Above p i :=
  Relation.ReflTransGen.mono (fun p c hc => (grow_parent_iff _ h hq p c).2 (.inl hc)) _ _ hp

theorem Preordered.grow (hpre : a.Preordered) (h : a.Linked) (hq : a.Above q (a.size - 1))
    (hlt : q < a.size) : (a.grow q pos).Preordered := by
  intro i hi
  rcases (Nat.lt_succ_iff_lt_or_eq.1 hi) with hi | hi
  · obtain ⟨p, hp, habove⟩ := hpre i hi
    exact ⟨p, (grow_parent_iff _ h hlt p _).2 (.inl hp), habove.grow h hlt⟩
  · refine ⟨q, (grow_parent_iff _ h hlt q _).2 (.inr ⟨rfl, hi⟩), ?_⟩
    rw [show i = a.size - 1 by omega]
    exact hq.grow h hlt

end Grow

/-- Nodes that are open, the innermost first and the root last. -/
def Spine : List Nat → Prop
  | [] => True
  | [r] => r = 0
  | c :: p :: rest => a.parent c = some p ∧ Spine (p :: rest)

/-- A tree that is built in pre-order: the nodes of `path` are open and the tokens before `pos`
are taken. -/
structure Growing (path : List Nat) (pos : Nat) : Prop where
  linked : a.Linked
  preordered : a.Preordered
  spine : a.Spine path
  /-- The innermost open node is above the last one. -/
  tip : ∀ p, path.head? = some p → a.Above p (a.size - 1)
  unfollowed : ∀ p ∈ path, a.nextSibling p = none
  origin : a.start 0 = 0
  ordered : ∀ i, a.start i ≤ a.stop i
  taken : ∀ i, i < a.size → a.stop i ≤ pos
  starts : ∀ c p, a.parent c = some p → a.start p ≤ a.start c
  inside : ∀ c p, a.parent c = some p → p ∉ path → a.stop c ≤ a.stop p
  apart : ∀ c d, a.nextSibling c = some d → a.stop c ≤ a.start d

section Growing

variable {a} {path : List Nat} {c q pos pos' : Nat}

theorem Spine.tail (h : a.Spine (c :: path)) : a.Spine path := by
  cases path with
  | nil => trivial
  | cons p rest => exact h.2

theorem Spine.suffix {rest : List Nat} (h : a.Spine path)
    (hs : rest <:+ path) : a.Spine rest := by
  induction path with
  | nil =>
      rw [List.suffix_nil.1 hs]
      exact h
  | cons c path ih =>
      rcases List.suffix_cons_iff.1 hs with rfl | hs
      · exact h
      · exact ih h.tail hs

theorem Linked.close (h : a.Linked) : (a.close c pos).Linked :=
  ⟨h.nonempty, h.root, h.below, h.rooted, h.first, h.last, h.next, h.prev⟩

theorem Spine.close (h : a.Spine path) : (a.close c pos).Spine path := by
  induction path with
  | nil => trivial
  | cons p rest ih =>
      cases rest with
      | nil => exact h
      | cons q rest => exact ⟨h.1, ih h.2⟩

theorem Spine.lt_of_mem (hl : a.Linked) (h : a.Spine (c :: path)) : ∀ p ∈ path, p < c := by
  induction path generalizing c with
  | nil => nofun
  | cons q rest ih =>
      have hlt := (hl.below c q h.1).1
      intro p hp
      rcases List.mem_cons.1 hp with rfl | hp
      · exact hlt
      · exact (ih h.2 p hp).trans hlt

theorem Spine.lt_size (hl : a.Linked) (h : a.Spine path) : ∀ p ∈ path, p < a.size := by
  induction path with
  | nil => nofun
  | cons c rest ih =>
      intro p hp
      rcases List.mem_cons.1 hp with rfl | hp
      · cases rest with
        | nil => exact h ▸ hl.nonempty
        | cons q rest => exact (hl.below p q h.1).2
      · exact ih h.tail p hp

theorem Spine.grow (hl : a.Linked) (hq : q < a.size) (h : a.Spine path) :
    (a.grow q pos).Spine path := by
  induction path with
  | nil => trivial
  | cons c rest ih =>
      cases rest with
      | nil => exact h
      | cons p rest => exact ⟨(grow_parent_iff _ hl hq p c).2 (.inl h.1), ih h.2⟩

namespace Growing

theorem advance (h : a.Growing path pos) (hpos : pos ≤ pos') : a.Growing path pos' :=
  { h with taken := fun i hi => (h.taken i hi).trans hpos }

theorem lt_size (h : a.Growing (q :: path) pos) : q < a.size :=
  h.spine.lt_size h.linked q List.mem_cons_self

theorem start_le (h : a.Growing path pos) {i : Nat} (hi : i < a.size) : a.start i ≤ pos :=
  (h.ordered i).trans (h.taken i hi)

theorem grow (h : a.Growing (q :: path) pos) : (a.grow q pos).Growing (a.size :: q :: path) pos := by
  have hl := h.linked
  have hq := h.lt_size
  have hpar := grow_parent_iff pos hl hq
  have hstart {i : Nat} (hi : i < a.size) : (a.grow q pos).start i = a.start i := if_neg hi.ne
  have hstop {i : Nat} (hi : i < a.size) : (a.grow q pos).stop i = a.stop i := if_neg hi.ne
  have hstart' : (a.grow q pos).start a.size = pos := if_pos rfl
  have hstop' : (a.grow q pos).stop a.size = pos := if_pos rfl
  refine ⟨hl.grow hq, h.preordered.grow hl (h.tip q rfl) hq, ?_, ?_, ?_, ?_, ?_, ?_, ?_, ?_, ?_⟩
  · exact ⟨(hpar q a.size).2 (.inr ⟨rfl, rfl⟩), h.spine.grow hl hq⟩
  · rintro _ ⟨⟩
    exact .refl
  · intro p hp
    unfold Outline.grow
    simp only
    split
    · rfl
    · have hp := (List.mem_cons.1 hp).resolve_left ‹_›
      split
      · rename_i hlast
        have hlt := (hl.lastChild_lt hlast).2.1
        rcases List.mem_cons.1 hp with rfl | hp
        · omega
        · have := h.spine.lt_of_mem hl p hp
          omega
      · exact h.unfollowed p hp
  · exact (hstart hl.nonempty).trans h.origin
  · intro i
    unfold Outline.grow
    simp only
    split
    · exact le_rfl
    · exact h.ordered i
  · intro i hi
    rcases (Nat.lt_succ_iff_lt_or_eq.1 hi) with hi | rfl
    · rw [hstop hi]
      exact h.taken i hi
    · exact hstop'.le
  · intro c p hp
    rcases (hpar p c).1 hp with hp | ⟨rfl, rfl⟩
    · have := hl.below c p hp
      rw [hstart this.2, hstart (this.1.trans this.2)]
      exact h.starts c p hp
    · rw [hstart hq, hstart']
      exact h.start_le hq
  · intro c p hp hopen
    rcases (hpar p c).1 hp with hp | ⟨rfl, rfl⟩
    · have := hl.below c p hp
      rw [hstop this.2, hstop (this.1.trans this.2)]
      exact h.inside c p hp fun hmem => hopen (List.mem_cons_of_mem _ hmem)
    · exact absurd (List.mem_cons_of_mem _ List.mem_cons_self) hopen
  · intro c d hd
    unfold Outline.grow at hd
    simp only at hd
    split at hd
    · cases hd
    · split at hd
      · cases hd
        have hlt := (hl.lastChild_lt ‹_›).2.2
        rw [hstop hlt, hstart']
        exact h.taken c hlt
      · obtain ⟨hlt, p, -, hp⟩ := (hl.next c).of_eq_some hd
        have hdlt := (hl.below d p hp).2
        rw [hstop (hlt.trans hdlt), hstart hdlt]
        exact h.apart c d hd

theorem close (h : a.Growing (c :: path) pos) : (a.close c pos).Growing path pos := by
  have hl := h.linked
  have hc := h.lt_size
  have hstop {i : Nat} (hi : i ≠ c) : (a.close c pos).stop i = a.stop i := if_neg hi
  have hstop' : (a.close c pos).stop c = pos := if_pos rfl
  refine ⟨hl.close, h.preordered, h.spine.tail.close, ?_, ?_, h.origin, ?_, ?_, h.starts, ?_, ?_⟩
  · intro p hp
    cases path with
    | nil => cases hp
    | cons q rest =>
        cases hp
        exact .head h.spine.1 (h.tip c rfl)
  · exact fun p hp => h.unfollowed p (List.mem_cons_of_mem _ hp)
  · intro i
    by_cases hi : i = c
    · subst hi
      rw [hstop']
      exact h.start_le hc
    · rw [hstop hi]
      exact h.ordered i
  · intro i hlt
    by_cases hi : i = c
    · subst hi
      exact hstop'.le
    · rw [hstop hi]
      exact h.taken i hlt
  · intro d p hp hopen
    have hd : d ≠ c := by
      rintro rfl
      cases path with
      | nil =>
          have hroot : a.parent d = none := h.spine ▸ hl.root
          cases hroot.symm.trans hp
      | cons q rest =>
          cases h.spine.1.symm.trans hp
          exact hopen List.mem_cons_self
    rw [hstop hd]
    by_cases hpc : p = c
    · subst hpc
      rw [hstop']
      exact h.taken d (hl.below d p hp).2
    · rw [hstop hpc]
      exact h.inside d p hp fun hmem => hopen ((List.mem_cons.1 hmem).resolve_left hpc)
  · intro i d hd
    by_cases hi : i = c
    · subst hi
      cases (h.unfollowed i List.mem_cons_self).symm.trans hd
    · rw [hstop hi]
      exact h.apart i d hd

end Growing
end Growing
end Outline
end BladeTree
