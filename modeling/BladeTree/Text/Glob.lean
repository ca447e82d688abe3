namespace BladeTree.Glob

/-- What is left once a pattern has been matched up to its next star. -/
inductive Segment where
  | mismatch
  | finished
  | star (pattern text : List Char)

def segment : List Char → List Char → Segment
  | [], [] => .finished
  | [], _ :: _ => .mismatch
  | '*' :: ps, ts => .star ps ts
  | _ :: _, [] => .mismatch
  | p :: ps, t :: ts => if p = '?' ∨ p = t then segment ps ts else .mismatch

theorem length_lt_of_segment {ps ts qs us : List Char} (h : segment ps ts = .star qs us) :
    qs.length < ps.length := by
  fun_induction segment ps ts with
  | case1 | case2 | case4 => simp at h
  | case3 ps ts => simp only [Segment.star.injEq] at h; simp [← h.1]
  | case5 p ps t ts _ _ ih => have := ih h; simp only [List.length_cons]; omega
  | case6 => simp at h

/-- The pattern after a star matches some end of the text. The first place where the next
segment fits is as good as any later one, since a star follows it. -/
def matchAfterStar (pattern text : List Char) : Bool :=
  match h : segment pattern text with
  | .finished => true
  | .star ps ts =>
    have := length_lt_of_segment h
    matchAfterStar ps ts
  | .mismatch =>
    match text with
    | [] => false
    | _ :: ts => matchAfterStar pattern ts
termination_by (pattern.length, text.length)

end BladeTree.Glob

namespace BladeTree

/-- In a pattern `*` stands for any run of characters and `?` for one character. -/
def globMatch (pattern text : String) : Bool :=
  match Glob.segment pattern.toList text.toList with
  | .finished => true
  | .star ps ts => Glob.matchAfterStar ps ts
  | .mismatch => false

end BladeTree
