import BladeTree.Proofs.Tree.Ledger
import Mathlib.Data.List.Forall2

namespace BladeTree
namespace Tokenized

variable {t : Tokenized} {i j : Nat}

def endsVerbatim (t : Tokenized) (i j : Nat) : Bool :=
  ((t.tokens.extract i j).toList.find? (·.kind == .verbatimEnd)).isSome

theorem endsVerbatim_iff :
    t.endsVerbatim i j ↔ ∃ k, i ≤ k ∧ k < j ∧ t.kind? k = some .verbatimEnd := by
  unfold endsVerbatim
  simp only [List.find?_isSome, Array.mem_toList_iff, beq_iff_eq, Array.mem_extract_iff_getElem]
  constructor
  · rintro ⟨token, ⟨k, hk, rfl⟩, hkind⟩
    refine ⟨i + k, Nat.le_add_right _ _, by omega, ?_⟩
    rw [kind?, getElem?_pos t.tokens (i + k) (by omega)]
    exact congrArg some hkind
  · rintro ⟨k, hik, hkj, hkind⟩
    have hlt : k < t.tokens.size := lt_size_of_kind? hkind
    rw [kind?, getElem?_pos t.tokens k hlt] at hkind
    have hk : i + (k - i) = k := Nat.add_sub_cancel' hik
    exact ⟨t.tokens[k], ⟨k - i, by omega, by simp only [hk]⟩, Option.some.inj hkind⟩

theorem returns_token (i : Nat) : Build.Returns (t.token i) (t.tokens[i]? = some ·) := by
  unfold token
  split
  · exact .ok ‹_›
  · exact .fault

theorem returns_span (i j : Nat) : Build.Returns (t.span i j) (·.start = t.offset i) := by
  refine .ite (fun _ => ?_) fun _ => .ok rfl
  refine (returns_token i).bind fun u hu => ?_
  refine Build.Returns.any.bind fun v _ => .ok ?_
  rw [offset, hu]
  rfl

end Tokenized

namespace FrameKind

def mark : FrameKind → Nat → Landmark
  | .element _, first => .element first
  | .directive _ _, first => .block first

def unclosed? : FrameKind → ClosedBy → Option DiagnosticKind
  | .element _, reason => if reason.isImplied then none else some .unclosedElement
  | .directive _ _, _ => some .unclosedDirective

end FrameKind

namespace Ledger

/-- The report that a node calls for: the end of an element is missing and not implied, or that of a
block or a verbatim region is missing. -/
def owed? (t : Tokenized) (L : Ledger) (id : Nat) : Option DiagnosticKind :=
  match L.mark id with
  | some (.element _) =>
    if (L.reason id).any (!·.isImplied) then some .unclosedElement else none
  | some (.block _) => if (L.reason id).isSome then some .unclosedDirective else none
  | some (.verbatim first stop) =>
    if t.endsVerbatim first stop then none else some .unclosedDirective
  | _ => none

/-- Before token `pos` no two marks start at one token, the frames belong to different nodes that
are not closed yet, and nothing but a marked node was closed. -/
structure Orderly (pos : Nat) (L : Ledger) : Prop where
  early : ∀ id m, L.mark id = some m → m.first < pos
  apart : ∀ i j m m', L.mark i = some m → L.mark j = some m' → m.first = m'.first → i = j
  frames : ∀ f ∈ L.stack, L.reason f.node = none ∧ ∃ first, L.mark f.node = some (f.kind.mark first)
  distinct : (L.stack.map (·.node)).Nodup
  closed : ∀ id, L.mark id = none → L.reason id = none

/-- The report is the one that the node calls for, and starts where the node does. -/
def Answers (t : Tokenized) (L : Ledger) (r : Diagnostic) (id : Nat) : Prop :=
  L.owed? t id = some r.kind ∧ ∃ m, L.mark id = some m ∧ r.span.start = t.offset m.first

/-- The reports on missing ends answer to the nodes that call for them, one to one. -/
def Matched (t : Tokenized) (L : Ledger) : Prop :=
  ∃ ids : List Nat, ids.Nodup ∧ (∀ id, id ∈ ids ↔ (L.owed? t id).isSome) ∧
    List.Forall₂ (L.Answers t) (L.reports.filter (·.kind.isUnclosed)) ids

/-- The reports on ends without a beginning lie one after the other before token `pos`, and every
stray closing tag has one. -/
def Complained (t : Tokenized) (pos : Nat) (L : Ledger) : Prop :=
  ∃ spans : List (Nat × Nat), spans.Pairwise (·.1 < ·.1) ∧ (∀ s ∈ spans, s.1 < pos) ∧
    (∀ id first stop, L.mark id = some (.stray first stop) → (first, stop) ∈ spans) ∧
    List.Forall₂ (fun r s => t.span s.1 s.2 = .ok r.span)
      (L.reports.filter (·.kind.isStray)) spans

structure Balanced (t : Tokenized) (pos : Nat) (L : Ledger) : Prop where
  orderly : L.Orderly pos
  matched : L.Matched t
  complained : L.Complained t pos

variable {t : Tokenized} {L L' : Ledger} {pos pos' id : Nat} {m : Landmark} {reason : ClosedBy}
variable {r : Diagnostic} {f : Frame} {below : List Frame}

/-! What is owed -/

theorem owed?_congr (hmark : L'.mark id = L.mark id) (hreason : L'.reason id = L.reason id) :
    L'.owed? t id = L.owed? t id := by
  unfold owed?
  rw [hmark, hreason]

theorem owed?_of_mark_eq_none (h : L.mark id = none) : L.owed? t id = none := by
  unfold owed?
  rw [h]

theorem owed?_of_mark {kind : FrameKind} {first : Nat}
    (h : L.mark id = some (kind.mark first)) :
    L.owed? t id = (L.reason id).bind kind.unclosed? := by
  unfold owed?
  rw [h]
  cases kind <;> cases hreason : L.reason id with
  | none => rfl
  | some reason => cases reason <;> rfl

theorem owed?_setMark_of_ne {i : Nat} {mark : Option Landmark} (hne : i ≠ id) :
    (L.setMark id mark).owed? t i = L.owed? t i :=
  owed?_congr (Function.update_of_ne hne _ _) rfl

theorem mark_setMark_of_eq_some (hnone : L.mark id = none) {i : Nat} {mark : Option Landmark}
    (hi : L.mark i = some m) : (L.setMark id mark).mark i = some m := by
  have hne : i ≠ id := by
    rintro rfl
    cases hnone.symm.trans hi
  exact (Function.update_of_ne hne _ _).trans hi

theorem eq_or_of_setMark {i : Nat} {m' : Landmark} (hi : (L.setMark id (some m)).mark i = some m') :
    i = id ∧ m' = m ∨ L.mark i = some m' := by
  by_cases heq : i = id
  · subst heq
    rw [mark_setMark_self] at hi
    exact .inl ⟨rfl, (Option.some.inj hi).symm⟩
  · exact .inr ((Function.update_of_ne heq _ _).symm.trans hi)

theorem isUnclosed_of_owed? {kind : DiagnosticKind} (h : L.owed? t id = some kind) :
    kind.isUnclosed := by
  unfold owed? at h
  split at h
  · split at h <;> cases h
    rfl
  · split at h <;> cases h
    rfl
  · split at h <;> cases h
    rfl
  · cases h

theorem isRecovery_of_isUnclosed {kind : DiagnosticKind} (h : kind.isUnclosed) :
    kind.isRecovery = true := by
  rw [DiagnosticKind.isRecovery, h, Bool.true_or]

theorem isRecovery_of_isStray {kind : DiagnosticKind} (h : kind.isStray) :
    kind.isRecovery = true := by
  rw [DiagnosticKind.isRecovery, h, Bool.or_true]

theorem isStray_of_isUnclosed {kind : DiagnosticKind} (h : kind.isUnclosed) :
    kind.isStray = false := by
  cases kind <;> first | rfl | cases h

/-! Order -/

namespace Orderly

variable (h : L.Orderly pos)
include h

theorem mono (hle : pos ≤ pos') : L.Orderly pos' :=
  { h with early := fun id m hm => (h.early id m hm).trans_le hle }

theorem report (r : Diagnostic) : (L.report r).Orderly pos :=
  ⟨h.early, h.apart, h.frames, h.distinct, h.closed⟩

theorem leave (hs : L.stack = f :: below) : Orderly pos { L with stack := below } where
  early := h.early
  apart := h.apart
  frames g hg := h.frames g (hs ▸ List.mem_cons_of_mem f hg)
  distinct := by
    have hdistinct := h.distinct
    rw [hs] at hdistinct
    exact (List.nodup_cons.1 hdistinct).2
  closed := h.closed

theorem ne_of_mem_below (hs : L.stack = f :: below) {g : Frame} (hg : g ∈ below) :
    g.node ≠ f.node := by
  have hdistinct := h.distinct
  rw [hs] at hdistinct
  intro heq
  exact (List.nodup_cons.1 hdistinct).1 (List.mem_map.2 ⟨g, hg, heq⟩)

theorem setReason (hid : ∀ g ∈ L.stack, g.node ≠ id) (hmark : L.mark id ≠ none)
    (reason : ClosedBy) : (L.setReason id reason).Orderly pos where
  early := h.early
  apart := h.apart
  frames g hg := by
    obtain ⟨hreason, hkind⟩ := h.frames g hg
    exact ⟨(Function.update_of_ne (hid g hg) _ _).trans hreason, hkind⟩
  distinct := h.distinct
  closed i hi := by
    have hne : i ≠ id := fun heq => hmark (heq ▸ hi)
    exact (Function.update_of_ne hne _ _).trans (h.closed i hi)

theorem setMark (hnone : L.mark id = none) (hm : m.first = pos) :
    (L.setMark id (some m)).Orderly (pos + 1) := by
  refine ⟨fun i m' hi => ?_, fun i j m₁ m₂ hi hj heq => ?_, fun f hf => ?_, h.distinct,
    fun i hi => ?_⟩
  · rcases eq_or_of_setMark hi with ⟨-, rfl⟩ | hi
    · exact hm ▸ Nat.lt_succ_self _
    · exact (h.early i m' hi).trans (Nat.lt_succ_self _)
  · rcases eq_or_of_setMark hi with ⟨hid, hm₁⟩ | hi' <;>
      rcases eq_or_of_setMark hj with ⟨hjd, hm₂⟩ | hj'
    · rw [hid, hjd]
    · have := h.early j m₂ hj'
      rw [← heq, hm₁] at this
      omega
    · have := h.early i m₁ hi'
      rw [heq, hm₂] at this
      omega
    · exact h.apart i j m₁ m₂ hi' hj' heq
  · obtain ⟨hreason, first, hfirst⟩ := h.frames f hf
    exact ⟨hreason, first, mark_setMark_of_eq_some hnone hfirst⟩
  · have hne : i ≠ id := by
      rintro rfl
      rw [mark_setMark_self] at hi
      cases hi
    exact h.closed i ((Function.update_of_ne hne _ _).symm.trans hi)

theorem push (hreason : L.reason f.node = none) {first : Nat}
    (hmark : L.mark f.node = some (f.kind.mark first)) (hoff : ∀ g ∈ L.stack, g.node ≠ f.node) :
    Orderly pos { L with stack := f :: L.stack } where
  early := h.early
  apart := h.apart
  frames g hg := by
    rcases List.mem_cons.1 hg with rfl | hg
    · exact ⟨hreason, first, hmark⟩
    · exact h.frames g hg
  distinct := by
    refine List.nodup_cons.2 ⟨fun hmem => ?_, h.distinct⟩
    obtain ⟨g, hg, heq⟩ := List.mem_map.1 hmem
    exact hoff g hg heq
  closed := h.closed

end Orderly

/-! Reports on missing ends -/

theorem Answers.keep {i : Nat} (h : L.Answers t r i)
    (hmark : ∀ i m, L.mark i = some m → L'.mark i = some m)
    (howed : L'.owed? t i = L.owed? t i) : L'.Answers t r i := by
  obtain ⟨hkind, m, hm, hstart⟩ := h
  exact ⟨howed.trans hkind, m, hmark i m hm, hstart⟩

theorem Matched.keep (h : L.Matched t) (hmark : ∀ i m, L.mark i = some m → L'.mark i = some m)
    (howed : ∀ i, L'.owed? t i = L.owed? t i)
    (hreports : L'.reports.filter (·.kind.isUnclosed) = L.reports.filter (·.kind.isUnclosed)) :
    L'.Matched t := by
  obtain ⟨ids, hnodup, hmem, hanswers⟩ := h
  refine ⟨ids, hnodup, fun i => by rw [hmem, howed], ?_⟩
  rw [hreports]
  exact hanswers.imp fun _ i hr => hr.keep hmark (howed i)

theorem Matched.report (h : L.Matched t) (hmark : ∀ i m, L.mark i = some m → L'.mark i = some m)
    (hold : L.owed? t id = none) (hother : ∀ i, i ≠ id → L'.owed? t i = L.owed? t i)
    (hanswers : L'.Answers t r id) (hreports : L'.reports = L.reports ++ [r]) :
    L'.Matched t := by
  obtain ⟨ids, hnodup, hmem, hall⟩ := h
  have hid : id ∉ ids := by
    rw [hmem, hold]
    exact Bool.false_ne_true
  have hkind : r.kind.isUnclosed := isUnclosed_of_owed? hanswers.1
  refine ⟨ids ++ [id], ?_, fun i => ?_, ?_⟩
  · exact hnodup.append (List.nodup_singleton id) (List.disjoint_singleton.2 hid)
  · rw [List.mem_append, List.mem_singleton]
    by_cases heq : i = id
    · subst heq
      simp [hanswers.1]
    · simp only [heq, or_false, hmem, hother i heq]
  · rw [hreports, List.filter_append, List.filter_singleton, hkind]
    refine List.rel_append (hall.imp fun r' i hr' => hr'.keep hmark (hother i ?_))
      (.cons hanswers .nil)
    rintro rfl
    cases hold.symm.trans hr'.1

theorem Matched.exists_answers (h : L.Matched t) (hr : r ∈ L.reports)
    (hkind : r.kind.isUnclosed) : ∃ i, L.Answers t r i := by
  obtain ⟨ids, -, -, hall⟩ := h
  have hmem : r ∈ L.reports.filter (·.kind.isUnclosed) := List.mem_filter.2 ⟨hr, hkind⟩
  generalize L.reports.filter (·.kind.isUnclosed) = rs at hall hmem
  induction hall with
  | nil => cases hmem
  | cons hanswers _ ih =>
      rcases List.mem_cons.1 hmem with rfl | hmem
      · exact ⟨_, hanswers⟩
      · exact ih hmem

/-! Reports on ends without a beginning -/

theorem Complained.keep (h : L.Complained t pos) (hle : pos ≤ pos')
    (hmark : ∀ i first stop, L'.mark i = some (.stray first stop) →
      L.mark i = some (.stray first stop))
    (hreports : L'.reports.filter (·.kind.isStray) = L.reports.filter (·.kind.isStray)) :
    L'.Complained t pos' := by
  obtain ⟨spans, hsorted, hearly, hmem, hall⟩ := h
  refine ⟨spans, hsorted, fun s hs => (hearly s hs).trans_le hle, fun i first stop hi => ?_, ?_⟩
  · exact hmem i first stop (hmark i first stop hi)
  · rw [hreports]
    exact hall

theorem Complained.report (h : L.Complained t pos) {stop : Nat}
    (hmark : ∀ i first stop', L'.mark i = some (.stray first stop') →
      L.mark i = some (.stray first stop') ∨ (first, stop') = (pos, stop))
    (hkind : r.kind.isStray) (hspan : t.span pos stop = .ok r.span)
    (hreports : L'.reports = L.reports ++ [r]) : L'.Complained t (pos + 1) := by
  obtain ⟨spans, hsorted, hearly, hmem, hall⟩ := h
  refine ⟨spans ++ [(pos, stop)], ?_, fun s hs => ?_, fun i first stop' hi => ?_, ?_⟩
  · refine List.pairwise_append.2 ⟨hsorted, List.pairwise_singleton _ _, fun s hs s' hs' => ?_⟩
    rw [List.mem_singleton.1 hs']
    exact hearly s hs
  · rcases List.mem_append.1 hs with hs | hs
    · exact (hearly s hs).trans (Nat.lt_succ_self _)
    · rw [List.mem_singleton.1 hs]
      exact Nat.lt_succ_self _
  · rcases hmark i first stop' hi with hi | heq
    · exact List.mem_append_left _ (hmem i first stop' hi)
    · exact List.mem_append_right _ (List.mem_singleton.2 heq)
  · rw [hreports, List.filter_append, List.filter_singleton, hkind]
    exact List.rel_append hall (.cons hspan .nil)

/-! Single changes of a balanced ledger -/

theorem filter_reports_report {p : DiagnosticKind → Bool} (h : p r.kind = false) :
    (L.reports ++ [r]).filter (p ·.kind) = L.reports.filter (p ·.kind) := by
  rw [List.filter_append, List.filter_singleton, h]
  exact List.append_nil _

theorem isUnclosed_eq_false_of_isStray {kind : DiagnosticKind} (h : kind.isStray) :
    kind.isUnclosed = false := by
  cases kind <;> first | rfl | cases h

/-- A balanced ledger with a node that was entered last and is open, but is no frame. -/
structure Entered (t : Tokenized) (pos id : Nat) (m : Landmark) (L : Ledger) : Prop where
  balanced : L.Balanced t pos
  mark : L.mark id = some m
  reason : L.reason id = none
  off : ∀ f ∈ L.stack, f.node ≠ id

namespace Balanced

variable (h : L.Balanced t pos)
include h

theorem mono (hle : pos ≤ pos') : L.Balanced t pos' :=
  ⟨h.orderly.mono hle, h.matched, h.complained.keep hle (fun _ _ _ h => h) rfl⟩

theorem leave (hs : L.stack = f :: below) : Balanced t pos { L with stack := below } where
  orderly := h.orderly.leave hs
  matched := h.matched.keep (fun _ _ h => h) (fun _ => owed?_congr rfl rfl) rfl
  complained := h.complained.keep le_rfl (fun _ _ _ h => h) rfl

theorem setReason (hid : ∀ g ∈ L.stack, g.node ≠ id) (hmark : L.mark id ≠ none)
    (hold : L.owed? t id = none) (hnew : (L.setReason id reason).owed? t id = none) :
    (L.setReason id reason).Balanced t pos where
  orderly := h.orderly.setReason hid hmark reason
  matched := by
    refine h.matched.keep (fun _ _ h => h) (fun i => ?_) rfl
    by_cases heq : i = id
    · subst heq
      rw [hold, hnew]
    · exact owed?_congr rfl (Function.update_of_ne heq _ _)
  complained := h.complained.keep le_rfl (fun _ _ _ h => h) rfl

theorem setReason_report (hid : ∀ g ∈ L.stack, g.node ≠ id) (hold : L.owed? t id = none)
    (hanswers : (L.setReason id reason).Answers t r id) :
    ((L.setReason id reason).report r).Balanced t pos where
  orderly := by
    obtain ⟨-, m, hm, -⟩ := hanswers
    have hmark : L.mark id ≠ none := by
      rw [show L.mark id = some m from hm]
      exact Option.some_ne_none m
    exact (h.orderly.setReason hid hmark reason).report r
  matched := h.matched.report (fun _ _ h => h) hold
    (fun i hne => owed?_congr rfl (Function.update_of_ne hne _ _)) hanswers rfl
  complained := h.complained.keep le_rfl (fun _ _ _ h => h)
    (filter_reports_report (isStray_of_isUnclosed (isUnclosed_of_owed? hanswers.1)))

theorem complain {stop : Nat} (hkind : r.kind.isStray) (hspan : t.span pos stop = .ok r.span) :
    (L.report r).Balanced t (pos + 1) where
  orderly := (h.orderly.mono (Nat.le_succ pos)).report r
  matched := h.matched.keep (fun _ _ h => h) (fun _ => owed?_congr rfl rfl)
    (filter_reports_report (isUnclosed_eq_false_of_isStray hkind))
  complained := h.complained.report (fun _ _ _ => .inl) hkind hspan rfl

variable (hnone : L.mark id = none) (hfirst : m.first = pos)
include hnone hfirst

theorem entered (hstray : ∀ first stop, m ≠ .stray first stop)
    (howed : (L.setMark id (some m)).owed? t id = none) :
    (L.setMark id (some m)).Entered t (pos + 1) id m where
  balanced := by
    refine ⟨h.orderly.setMark hnone hfirst, ?_, ?_⟩
    · refine h.matched.keep (fun _ _ => mark_setMark_of_eq_some hnone) (fun i => ?_) rfl
      by_cases heq : i = id
      · rw [heq, howed, owed?_of_mark_eq_none hnone]
      · exact owed?_setMark_of_ne heq
    · refine h.complained.keep (Nat.le_succ pos) (fun i first stop hi => ?_) rfl
      refine (eq_or_of_setMark hi).resolve_left fun heq => ?_
      exact hstray first stop heq.2.symm
  mark := mark_setMark_self _ _ _
  reason := h.orderly.closed id hnone
  off f hf heq := by
    obtain ⟨-, first, hmark⟩ := h.orderly.frames f hf
    cases (heq ▸ hmark).symm.trans hnone

theorem setMark_report (hstray : ∀ first stop, m ≠ .stray first stop)
    (hanswers : (L.setMark id (some m)).Answers t r id) :
    ((L.setMark id (some m)).report r).Balanced t (pos + 1) where
  orderly := (h.orderly.setMark hnone hfirst).report r
  matched := h.matched.report (fun _ _ => mark_setMark_of_eq_some hnone)
    (owed?_of_mark_eq_none hnone) (fun _ => owed?_setMark_of_ne) hanswers rfl
  complained := by
    refine h.complained.keep (Nat.le_succ pos) (fun i first stop hi => ?_)
      (filter_reports_report (isStray_of_isUnclosed (isUnclosed_of_owed? hanswers.1)))
    refine (eq_or_of_setMark hi).resolve_left fun heq => ?_
    exact hstray first stop heq.2.symm

omit hfirst in
theorem setMark_complain {stop : Nat} (hkind : r.kind.isStray)
    (hspan : t.span pos stop = .ok r.span) :
    ((L.setMark id (some (.stray pos stop))).report r).Balanced t (pos + 1) where
  orderly := (h.orderly.setMark (m := .stray pos stop) hnone rfl).report r
  matched := by
    refine h.matched.keep (fun _ _ => mark_setMark_of_eq_some hnone) (fun i => ?_)
      (filter_reports_report (isUnclosed_eq_false_of_isStray hkind))
    by_cases heq : i = id
    · subst heq
      rw [owed?_of_mark_eq_none hnone]
      unfold owed?
      have hmark : ((L.setMark i (some (.stray pos stop))).report r).mark i =
          some (.stray pos stop) := mark_setMark_self _ _ _
      rw [hmark]
    · exact owed?_setMark_of_ne heq
  complained := by
    refine h.complained.report (fun i first stop' hi => ?_) hkind hspan rfl
    rcases eq_or_of_setMark hi with ⟨-, heq⟩ | hi
    · cases heq
      exact .inr rfl
    · exact .inl hi

end Balanced

theorem Entered.push {first : Nat} (h : L.Entered t pos f.node (f.kind.mark first)) :
    Balanced t pos { L with stack := f :: L.stack } where
  orderly := h.balanced.orderly.push h.reason h.mark h.off
  matched := h.balanced.matched.keep (fun _ _ h => h) (fun _ => owed?_congr rfl rfl) rfl
  complained := h.balanced.complained.keep le_rfl (fun _ _ _ h => h) rfl

end Ledger
end BladeTree
