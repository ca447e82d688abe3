import BladeTree.Document.Trivia
import Mathlib.Data.List.SplitBy
import Mathlib.Tactic

namespace BladeTree
namespace Trivia

variable {b : Bool} {run left right : List Char} {rs : List (List Char)} {t : Trivia}

def Uniform (isSpace : Bool) (run : List Char) : Prop :=
  ∀ c ∈ run, WhiteSpace.contains c = isSpace

/-- White space and a word, in either order. -/
def Alternate (left right : List Char) : Prop := ∃ b, Uniform b left ∧ Uniform (!b) right

theorem uniform_cons_iff {c : Char} :
    Uniform b (c :: run) ↔ WhiteSpace.contains c = b ∧ Uniform b run := List.forall_mem_cons

theorem Uniform.all_eq (h : Uniform b run) (hne : run ≠ []) : run.all WhiteSpace.contains = b := by
  obtain ⟨c, cs, rfl⟩ := List.exists_cons_of_ne_nil hne
  cases b with
  | true => exact List.all_eq_true.2 h
  | false =>
      apply List.all_eq_false.2
      exact ⟨c, List.mem_cons_self, Bool.eq_false_iff.1 (h c List.mem_cons_self)⟩

theorem Uniform.eq (h : Uniform b run) (hne : run ≠ []) {b' : Bool} (h' : Uniform b' run) :
    b = b' :=
  (h.all_eq hne).symm.trans (h'.all_eq hne)

theorem isChain_iff_exists_uniform :
    run.IsChain (fun x y => (WhiteSpace.contains x == WhiteSpace.contains y) = true) ↔
      ∃ b, Uniform b run := by
  induction run with
  | nil => simp [Uniform]
  | cons c cs ih =>
      cases cs with
      | nil => simp [Uniform]
      | cons d cs =>
          rw [List.isChain_cons_cons, ih, beq_iff_eq]
          constructor
          · rintro ⟨hcd, b, h⟩
            exact ⟨b, uniform_cons_iff.2 ⟨hcd.trans (uniform_cons_iff.1 h).1, h⟩⟩
          · rintro ⟨b, h⟩
            obtain ⟨hc, h⟩ := uniform_cons_iff.1 h
            exact ⟨hc.trans (uniform_cons_iff.1 h).1.symm, b, h⟩

theorem alternate_iff (hleft : ∃ b, Uniform b left) (hright : ∃ b, Uniform b right)
    (hl : left ≠ []) (hr : right ≠ []) :
    Alternate left right ↔
      (WhiteSpace.contains (left.getLast hl) == WhiteSpace.contains (right.head hr)) = false := by
  obtain ⟨b, hleft⟩ := hleft
  obtain ⟨b', hright⟩ := hright
  rw [hleft _ (List.getLast_mem hl), hright _ (List.head_mem hr), beq_eq_false_iff_ne]
  constructor
  · rintro ⟨a, ha, ha'⟩
    rw [hleft.eq hl ha, hright.eq hr ha']
    exact (Bool.not_ne_self a).symm
  · intro hne
    exact ⟨b, hleft, Bool.eq_not_of_ne hne.symm ▸ hright⟩

/-- The runs of a text are the only way to cut it into white space and words in turn. -/
theorem runs_eq_iff {cs : List Char} :
    runs cs = rs ↔ rs.flatten = cs ∧ (∀ run ∈ rs, run ≠ []) ∧
      (∀ run ∈ rs, ∃ b, Uniform b run) ∧ rs.IsChain Alternate := by
  rw [runs, List.splitBy_eq_iff, eq_comm]
  refine and_congr_right fun _ => ?_
  have hnil : [] ∉ rs ↔ ∀ run ∈ rs, run ≠ [] := by
    simp only [ne_eq, List.forall_mem_ne']
  rw [hnil]
  refine and_congr_right fun hne => ?_
  simp only [isChain_iff_exists_uniform]
  refine and_congr_right fun huniform => ?_
  apply List.IsChain.iff_of_mem_imp
  intro left right hleft hright
  rw [alternate_iff (huniform left hleft) (huniform right hright) (hne left hleft)
    (hne right hright)]
  exact ⟨fun ⟨_, _, h⟩ => h, fun h => ⟨hne left hleft, hne right hright, h⟩⟩

/-- What a piece is called that is one of `count` and has `n` of them before it. -/
structure Titled (t : Trivia) (n count : Nat) : Prop where
  word : t.kind = .word ↔ Uniform false t.text.toList
  leading : t.kind = .leadingWhitespace ↔ Uniform true t.text.toList ∧ n = 0
  trailing : t.kind = .trailingWhitespace ↔ Uniform true t.text.toList ∧ n ≠ 0 ∧ n + 1 = count
  inner : t.kind = .innerWhitespace ↔ Uniform true t.text.toList ∧ n ≠ 0 ∧ n + 1 ≠ count

theorem titled_iff {n count : Nat} (h : ∃ b, Uniform b t.text.toList) (hne : t.text ≠ "") :
    t.Titled n count ↔ t.kind = kindOf t.text.toList (n == 0) (n + 1 == count) := by
  obtain ⟨b, h⟩ := h
  have hne : t.text.toList ≠ [] := mt String.toList_eq_nil_iff.1 hne
  have hclass (a : Bool) : Uniform a t.text.toList ↔ b = a := ⟨h.eq hne, fun heq => heq ▸ h⟩
  rw [kindOf, h.all_eq hne]
  constructor
  · intro htitled
    cases b with
    | false => exact htitled.word.2 h
    | true =>
        by_cases hfirst : n = 0
        · simpa [hfirst] using htitled.leading.2 ⟨h, hfirst⟩
        · by_cases hlast : n + 1 = count
          · simpa [hfirst, hlast] using htitled.trailing.2 ⟨h, hfirst, hlast⟩
          · simpa [hfirst, hlast] using htitled.inner.2 ⟨h, hfirst, hlast⟩
  · intro hkind
    constructor <;> rw [hkind, hclass] <;> grind

theorem getElem?_place (isFirst : Bool) (offset : Nat) (rs : List (List Char)) (n : Nat) :
    (place isFirst offset rs)[n]? = rs[n]?.map fun run =>
      ⟨kindOf run (isFirst && n == 0) (n + 1 == rs.length), String.ofList run,
        offset + (String.join ((rs.take n).map String.ofList)).utf8ByteSize⟩ := by
  induction rs generalizing isFirst offset n with
  | nil => rfl
  | cons run rest ih =>
      cases n with
      | zero => cases rest <;> simp [place]
      | succ n => simp [place, ih, Nat.add_assoc]

theorem map_place (isFirst : Bool) (offset : Nat) (rs : List (List Char)) :
    (place isFirst offset rs).map (·.text.toList) = rs := by
  apply List.ext_getElem?
  intro n
  simp [getElem?_place, Function.comp_def]

theorem place_eq_iff {pieces : List Trivia} :
    place true 0 rs = pieces ↔ rs = pieces.map (·.text.toList) ∧ ∀ n t, pieces[n]? = some t →
      t.kind = kindOf t.text.toList (n == 0) (n + 1 == pieces.length) ∧
        t.offset = (String.join ((pieces.take n).map (·.text))).utf8ByteSize := by
  have hget (pieces : List Trivia) (n : Nat) :
      (place true 0 (pieces.map (·.text.toList)))[n]? = pieces[n]?.map fun t =>
        ⟨kindOf t.text.toList (n == 0) (n + 1 == pieces.length), t.text,
          (String.join ((pieces.take n).map (·.text))).utf8ByteSize⟩ := by
    simp [getElem?_place, Function.comp_def, ← List.map_take]
  constructor
  · rintro rfl
    refine ⟨(map_place true 0 rs).symm, fun n t ht => ?_⟩
    have hplaced := hget (place true 0 rs) n
    rw [map_place, ht, Option.map_some, Option.some.injEq] at hplaced
    exact ⟨congrArg kind hplaced, congrArg offset hplaced⟩
  · rintro ⟨rfl, h⟩
    apply List.ext_getElem?
    intro n
    rw [hget]
    cases ht : pieces[n]? with
    | none => rfl
    | some t =>
        obtain ⟨hkind, hoffset⟩ := h n t ht
        rw [Option.map_some, ← hkind, ← hoffset]

/-- Pieces of a text that say where they lie and what they are: white space and words in turn,
which make up the text. -/
structure IsSplit (text : String) (pieces : List Trivia) : Prop where
  join_eq : String.join (pieces.map (·.text)) = text
  offset_eq : ∀ n t, pieces[n]? = some t →
    t.offset = (String.join ((pieces.take n).map (·.text))).utf8ByteSize
  ne_empty : ∀ t ∈ pieces, t.text ≠ ""
  uniform : ∀ t ∈ pieces, ∃ b, Uniform b t.text.toList
  alternate : pieces.IsChain fun t u => Alternate t.text.toList u.text.toList
  titled : ∀ n (t : Trivia), pieces[n]? = some t → t.Titled n pieces.length

/-- A text is classified in the only way in which it can be split. -/
theorem classify_eq_iff_isSplit (text : String) (pieces : List Trivia) :
    classify text = pieces ↔ IsSplit text pieces := by
  have hjoin : (pieces.map (·.text.toList)).flatten = text.toList ↔
      String.join (pieces.map (·.text)) = text := by
    rw [← String.toList_inj, String.toList_join, List.flatMap_map, List.flatMap_def]
  rw [classify, place_eq_iff, runs_eq_iff, hjoin]
  simp only [List.forall_mem_map, List.isChain_map, ne_eq, String.toList_eq_nil_iff]
  constructor
  · rintro ⟨⟨hjoin, hne, huniform, halternate⟩, hplaced⟩
    refine ⟨hjoin, fun n t ht => (hplaced n t ht).2, hne, huniform, halternate, fun n t ht => ?_⟩
    have hmem : t ∈ pieces := List.mem_of_getElem? ht
    exact (titled_iff (huniform t hmem) (hne t hmem)).2 (hplaced n t ht).1
  · intro h
    refine ⟨⟨h.join_eq, h.ne_empty, h.uniform, h.alternate⟩, fun n t ht => ⟨?_, h.offset_eq n t ht⟩⟩
    have hmem : t ∈ pieces := List.mem_of_getElem? ht
    exact (titled_iff (h.uniform t hmem) (h.ne_empty t hmem)).1 (h.titled n t ht)

-- White space alone leads, and offsets count bytes.
example : classify " \t " = [⟨.leadingWhitespace, " \t ", 0⟩] ∧
    classify "é  ü" = [⟨.word, "é", 0⟩, ⟨.innerWhitespace, "  ", 2⟩, ⟨.word, "ü", 4⟩] := by
  decide

end Trivia
end BladeTree
