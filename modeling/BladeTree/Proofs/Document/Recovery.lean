import BladeTree.Document.View
import BladeTree.Proofs.Document.Render
import BladeTree.Proofs.Tree.Recovery
import Mathlib

namespace BladeTree

theorem Tokenized.offset_lt_offset {t : Tokenized} (hg : t.Grammatical) (hw : t.Whole) {i j : Nat}
    (hij : i < j) (hi : i < t.size) : t.offset i < t.offset j := by
  obtain ⟨u, hu⟩ := exists_token hi
  calc
    t.offset i = u.start := by rw [offset, hu]; rfl
    _ < u.stop := (hg.solid i u hu).1
    _ = t.offset (i + 1) := hw.stop_eq_offset hu
    _ ≤ t.offset j := hw.offset_le_offset hij

namespace Document

variable (d : Document)

def reports (kind : DiagnosticKind) : List Diagnostic :=
  d.diagnostics.toList.filter (·.kind == kind)

/-- The report starts at the first token of the node. -/
def StartsAt (r : Diagnostic) (id : Nat) : Prop :=
  r.span.start = d.offset (d.node id).tokenStart

/-- The reports of one kind answer to the nodes of one sort, one to one, and every report starts at
the first token of its node. -/
def Matches (kind : DiagnosticKind) (sort : Nat → Prop) : Prop :=
  ∃ ids : List Nat, ids.Nodup ∧ (∀ id, id ∈ ids ↔ sort id) ∧
    List.Forall₂ d.StartsAt (d.reports kind) ids

/-- An element that was closed although its end is missing and not implied. -/
def IsUnclosedElement (id : Nat) : Prop :=
  d.kind id = .element ∧ ∃ reason, d.closedBy? id = some reason ∧
    reason ∈ [.mismatch, .eof, .unterminatedStartTag, .directiveEnd]

/-- A block that was closed without its end, or a verbatim region without one. -/
def IsUnclosedDirective (id : Nat) : Prop :=
  d.kind id = .directiveBlock ∧ (d.closedBy? id).isSome ∨
    d.kind id = .verbatim ∧ d.tokenOfKind? id .verbatimEnd = none

/-- What the reports say of missing ends and of ends without a beginning is what the tree shows. -/
structure AccountsForRecovery : Prop where
  elements : d.Matches .unclosedElement d.IsUnclosedElement
  directives : d.Matches .unclosedDirective d.IsUnclosedDirective
  strays : ∀ id, d.kind id = .strayClosingTag →
    d.diagnostics.toList.countP (fun r =>
      (r.kind == .unexpectedClosingTag || r.kind == .invalidNesting) && r.span == d.span id) = 1
  implied : ∀ id, d.kind id = .element →
    d.closedBy? id = some .sibling ∨ d.closedBy? id = some .parentEnd →
    ∀ r ∈ d.reports .unclosedElement, ¬ d.StartsAt r id

variable {d}

structure Holds (d : Document) (L : Ledger) : Prop where
  mark : ∀ id, L.mark id = (d.node id).mark?
  reason : ∀ id, L.reason id = d.closedBy? id
  reports : L.reports = d.diagnostics.toList.filter (·.kind.isRecovery)

namespace Holds

variable {L : Ledger} (h : d.Holds L) {id : Nat}
include h

theorem first_eq {m : Landmark} (hm : L.mark id = some m) : m.first = (d.node id).tokenStart := by
  rw [h.mark] at hm
  unfold FlatNode.mark? at hm
  split at hm <;> cases hm <;> rfl

theorem owed?_eq (id : Nat) : L.owed? d.toTokenized id =
    match d.kind id with
    | .element => if (d.closedBy? id).any (!·.isImplied) then some .unclosedElement else none
    | .directiveBlock => if (d.closedBy? id).isSome then some .unclosedDirective else none
    | .verbatim =>
      if (d.tokenOfKind? id .verbatimEnd).isSome then none else some .unclosedDirective
    | _ => none := by
  unfold Ledger.owed?
  rw [h.mark, h.reason]
  unfold FlatNode.mark? kind
  cases (d.node id).kind <;> rfl

theorem owed?_eq_unclosedElement_iff :
    L.owed? d.toTokenized id = some .unclosedElement ↔ d.IsUnclosedElement id := by
  have hreason (reason : ClosedBy) : reason.isImplied = false ↔
      reason ∈ [ClosedBy.mismatch, .eof, .unterminatedStartTag, .directiveEnd] := by
    cases reason <;> decide
  rw [h.owed?_eq]
  unfold IsUnclosedElement
  split
  · rename_i hkind
    cases hclosed : d.closedBy? id with
    | none => simp [hkind]
    | some reason => simp [hkind, ← hreason]
  · rename_i hkind
    simp [hkind]
  · rename_i hkind
    simp [hkind]
  · rename_i hkind _ _
    exact iff_of_false nofun fun hd => hkind hd.1

theorem owed?_eq_unclosedDirective_iff :
    L.owed? d.toTokenized id = some .unclosedDirective ↔ d.IsUnclosedDirective id := by
  rw [h.owed?_eq]
  unfold IsUnclosedDirective
  split
  · rename_i hkind
    simp [hkind]
  · rename_i hkind
    cases d.closedBy? id <;> simp [hkind]
  · rename_i hkind
    simp [hkind]
  · rename_i hblock hverbatim
    exact iff_of_false nofun fun hd => hd.elim (fun h => hblock h.1) fun h => hverbatim h.1

theorem matches_of_matched (hL : L.Matched d.toTokenized) {kind : DiagnosticKind}
    (hkind : kind.isUnclosed) {sort : Nat → Prop}
    (hsort : ∀ id, L.owed? d.toTokenized id = some kind ↔ sort id) : d.Matches kind sort := by
  obtain ⟨ids, hnodup, hmem, hall⟩ := hL
  have hreports : d.reports kind =
      (L.reports.filter (·.kind.isUnclosed)).filter (·.kind == kind) := by
    rw [h.reports, List.filter_filter, List.filter_filter]
    refine List.filter_congr fun r _ => ?_
    cases hr : r.kind == kind with
    | false => rfl
    | true =>
        rw [eq_of_beq hr, hkind, Ledger.isRecovery_of_isUnclosed hkind]
        rfl
  refine ⟨ids.filter (L.owed? d.toTokenized · == some kind), hnodup.filter _, fun id => ?_, ?_⟩
  · rw [List.mem_filter, beq_iff_eq, hsort, hmem]
    refine and_iff_right_of_imp fun hid => ?_
    rw [(hsort id).2 hid]
    rfl
  · rw [hreports]
    have hfilter := List.rel_filter (R := L.Answers d.toTokenized) (p := (·.kind == kind))
      (q := (L.owed? d.toTokenized · == some kind)) (fun r id hr => by simp [hr.1]) hall
    refine hfilter.imp fun r id ⟨_, m, hm, hstart⟩ => ?_
    rw [StartsAt, ← h.first_eq hm]
    exact hstart

end Holds

/-! Ends without a beginning -/

theorem eq_tokenSpan_of_span {i j : Nat} {span : Span} (h : d.toTokenized.span i j = .ok span) :
    span = d.tokenSpan i j := by
  have hspan : Build.Returns (d.toTokenized.span i j) (· = d.tokenSpan i j) := by
    unfold Tokenized.span tokenSpan
    split
    · refine (Tokenized.returns_token i).bind fun u hu => ?_
      refine (Tokenized.returns_token (j - 1)).bind fun v hv => .ok ?_
      rw [hv, Tokenized.offset, hu]
      rfl
    · exact .ok rfl
  exact hspan span h

def Advancing (d : Document) : Prop :=
  ∀ i j, i < j → i < d.size → d.offset i < d.offset j

theorem Advancing.eq_of_offset_eq (h : d.Advancing) {i j : Nat} (hi : i < d.size) (hj : j < d.size)
    (heq : d.offset i = d.offset j) : i = j := by
  rcases Nat.lt_trichotomy i j with hlt | hij | hlt
  · exact absurd heq (h i j hlt hi).ne
  · exact hij
  · exact absurd heq (h j i hlt hj).ne'

theorem tokenSpan_start (i j : Nat) : (d.tokenSpan i j).start = d.offset i := by
  unfold tokenSpan
  split <;> rfl

namespace Holds

variable {L : Ledger} (h : d.Holds L)
include h

theorem countP_eq_one (hd : d.Advancing) (hL : L.Complained d.toTokenized d.size) {id : Nat}
    (hid : d.kind id = .strayClosingTag) :
    d.diagnostics.toList.countP (fun r =>
      (r.kind == .unexpectedClosingTag || r.kind == .invalidNesting) && r.span == d.span id) =
        1 := by
  obtain ⟨spans, hsorted, hearly, hmem, hall⟩ := hL
  have hstrays : d.diagnostics.toList.filter (·.kind.isStray) =
      L.reports.filter (·.kind.isStray) := by
    rw [h.reports, List.filter_filter]
    refine List.filter_congr fun r _ => ?_
    cases hr : r.kind.isStray with
    | false => rfl
    | true => rw [Ledger.isRecovery_of_isStray hr]; rfl
  have hspans : (L.reports.filter (·.kind.isStray)).map (·.span) =
      spans.map fun s => d.tokenSpan s.1 s.2 := by
    rw [← List.forall₂_eq_eq_eq, List.forall₂_map_left_iff, List.forall₂_map_right_iff]
    exact hall.imp fun r s => eq_tokenSpan_of_span
  have hnodup : (spans.map fun s => d.tokenSpan s.1 s.2).Nodup := by
    refine List.pairwise_map.2 (hsorted.imp_of_mem fun hs hs' hlt heq => ?_)
    have hstart := congrArg Span.start heq
    rw [tokenSpan_start, tokenSpan_start] at hstart
    exact absurd hstart (hd _ _ hlt (hearly _ hs)).ne
  have hspan : d.span id ∈ spans.map fun s => d.tokenSpan s.1 s.2 := by
    refine List.mem_map.2 ⟨_, hmem id (d.node id).tokenStart (d.node id).tokenEnd ?_, rfl⟩
    rw [h.mark, FlatNode.mark?, show (d.node id).kind = .strayClosingTag from hid]
  calc
    _ = (d.diagnostics.toList.filter (·.kind.isStray)).countP (·.span == d.span id) := by
      rw [List.countP_filter]
      refine List.countP_congr fun r _ => ?_
      cases r.kind <;> simp [DiagnosticKind.isStray]
    _ = ((L.reports.filter (·.kind.isStray)).map (·.span)).count (d.span id) := by
      rw [hstrays, List.count, List.countP_map]
      rfl
    _ = 1 := by
      rw [hspans]
      exact List.count_eq_one_of_mem hnodup hspan

/-- No report starts at an element whose end is implied: another element would have to start
there. -/
theorem not_startsAt (hd : d.Advancing) (hL : L.Balanced d.toTokenized d.size) {id : Nat}
    (hid : d.kind id = .element) (hno : L.owed? d.toTokenized id = none) {r : Diagnostic}
    (hr : r ∈ L.reports) (hkind : r.kind.isUnclosed) : ¬ d.StartsAt r id := by
  intro hstart
  obtain ⟨other, howed, m, hm, hfirst⟩ := hL.matched.exists_answers hr hkind
  have hmark : L.mark id = some (.element (d.node id).tokenStart) := by
    rw [h.mark, FlatNode.mark?, show (d.node id).kind = .element from hid]
  have heq : m.first = (d.node id).tokenStart :=
    hd.eq_of_offset_eq (hL.orderly.early other m hm) (hL.orderly.early id _ hmark)
      (hfirst.symm.trans hstart)
  obtain rfl : other = id := hL.orderly.apart other id m _ hm hmark heq
  cases hno.symm.trans howed

theorem accountsForRecovery (hd : d.Advancing) (hL : L.Balanced d.toTokenized d.size) :
    d.AccountsForRecovery where
  elements := h.matches_of_matched hL.matched rfl fun _ => h.owed?_eq_unclosedElement_iff
  directives := h.matches_of_matched hL.matched rfl fun _ => h.owed?_eq_unclosedDirective_iff
  strays id hid := h.countP_eq_one hd hL.complained hid
  implied id hid hclosed r hr := by
    obtain ⟨hr, hkind⟩ := List.mem_filter.1 hr
    have hkind : r.kind = .unclosedElement := eq_of_beq hkind
    refine h.not_startsAt hd hL hid ?_ ?_ (by rw [hkind]; rfl)
    · rw [h.owed?_eq, hid]
      rcases hclosed with hclosed | hclosed <;> rw [hclosed] <;> rfl
    · rw [h.reports]
      exact List.mem_filter.2 ⟨hr, by rw [hkind]; rfl⟩

end Holds

variable {o : ParseOptions} {text : String}

/-- Without extensions the reports on missing ends and on ends without a beginning account exactly
for what was closed early and for what is out of place. -/
theorem accountsForRecovery_of_parse (hlexer : o.lexerExtensions = [])
    (htree : o.treeExtensions = []) (h : parse o text = .ok d) : d.AccountsForRecovery := by
  obtain ⟨lexed, b, hlex, hb, rfl⟩ := exists_build_of_parse h
  have hsound := lexed_sound hlex
  have hwhole := hsound.tokenized_whole (by rw [hlexer]; exact fun _ => nofun)
  have hholds : Holds ⟨lexed.tokenized o (.ofString text), lexed.errors, b.nodes, b.metadata,
      b.diagnostics⟩ b.ledger := ⟨fun _ => rfl, fun _ => rfl, rfl⟩
  exact hholds.accountsForRecovery
    (fun i j => Tokenized.offset_lt_offset (hsound.grammatical hlexer) hwhole)
    (Builder.balanced_build htree b hb)

theorem accountsForRecovery_parse_broken : ∃ d,
    parse (.ofDirectives ["if", "endif"]) "<b>@if(c)</b><p>" = .ok d ∧ d.AccountsForRecovery := by
  have hread : (parse (.ofDirectives ["if", "endif"]) "<b>@if(c)</b><p>").toBool := by cbv
  obtain ⟨d, hd⟩ := exists_eq_ok_of_toBool hread
  exact ⟨d, hd, accountsForRecovery_of_parse rfl rfl hd⟩

end Document
end BladeTree
