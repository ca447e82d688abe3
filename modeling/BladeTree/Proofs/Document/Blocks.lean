import BladeTree.Proofs.Document.ElementName
import BladeTree.Proofs.Document.Recovery
import BladeTree.Proofs.Document.Trees
import BladeTree.Proofs.Tree.Blocks

namespace BladeTree

@[simp] theorem DirectiveRole.ofData_data (role : DirectiveRole) : ofData role.data = role := by
  cases role <;> rfl

theorem Tokenized.kind?_argsIndex {t : Tokenized} {i j : Nat} (h : t.argsIndex? i = some j) :
    t.kind? j = some .directiveArgs := by
  unfold argsIndex? at h
  split at h
  · cases h
    assumption
  · split at h
    · cases h
      assumption
    · cases h
  · cases h

namespace Document

variable {o : ParseOptions} {text : String} {d : Document} {rule : BlockRule} {id p c i j : Nat}

/-! Children -/

theorem WellFormed.forward (h : d.WellFormed) : d.Forward where
  firstChild j c hc := h.parent c j ((hc ▸ h.firstChild j).1)
  nextSibling j c hc := by
    obtain ⟨⟨hlt, p, -, hp⟩, -⟩ := hc ▸ h.nextSibling j
    exact ⟨hlt, (h.parent c p hp).2⟩
  parent j p hp := (h.parent j p hp).1

theorem mem_siblingsFrom_iff (hw : d.WellFormed) (hj : (d.node j).parent = some p) :
    c ∈ d.siblingsFrom j ↔ j ≤ c ∧ (d.node c).parent = some p := by
  induction hn : d.nodes.size - j using Nat.strong_induction_on generalizing j with
  | _ n ih =>
      have hnext := hw.nextSibling j
      rw [siblingsFrom_eq hw.forward, List.mem_cons]
      cases hs : (d.node j).nextSibling with
      | none =>
          rw [hs] at hnext
          refine ⟨?_, fun ⟨hle, hc⟩ => .inl ?_⟩
          · rintro (rfl | hc)
            · exact ⟨le_rfl, hj⟩
            · cases hc
          · by_contra hne
            exact hnext c ⟨hle.lt_of_ne (Ne.symm hne), p, hj, hc⟩
      | some next =>
          rw [hs] at hnext
          obtain ⟨⟨hlt, q, hq, hnextp⟩, hleast⟩ := hnext
          obtain rfl : p = q := Option.some.inj (hj.symm.trans hq)
          have hsize := (hw.parent next p hnextp).2
          rw [Option.elim_some, ih _ (by omega) hnextp rfl]
          refine ⟨?_, fun ⟨hle, hc⟩ => ?_⟩
          · rintro (rfl | ⟨hle, hc⟩)
            · exact ⟨le_rfl, hj⟩
            · exact ⟨hlt.le.trans hle, hc⟩
          · exact hle.eq_or_lt.imp Eq.symm fun hjc => ⟨hleast c ⟨hjc, p, hj, hc⟩, hc⟩

theorem mem_children_iff (hw : d.WellFormed) : c ∈ d.children p ↔ (d.node c).parent = some p := by
  have hfirst := hw.firstChild p
  unfold children
  cases hc : (d.node p).firstChild with
  | none =>
      rw [hc] at hfirst
      exact iff_of_false List.not_mem_nil (hfirst c)
  | some first =>
      rw [hc] at hfirst
      rw [Option.elim_some, mem_siblingsFrom_iff hw hfirst.1]
      exact and_iff_right_of_imp (hfirst.2 c)

theorem pairwise_siblingsFrom (hw : d.WellFormed) (hj : (d.node j).parent = some p) :
    (d.siblingsFrom j).Pairwise (· < ·) := by
  induction hn : d.nodes.size - j using Nat.strong_induction_on generalizing j with
  | _ n ih =>
      rw [siblingsFrom_eq hw.forward]
      cases hs : (d.node j).nextSibling with
      | none => exact List.pairwise_singleton _ j
      | some next =>
          obtain ⟨⟨hlt, q, hq, hnextp⟩, -⟩ := hs ▸ hw.nextSibling j
          obtain rfl : p = q := Option.some.inj (hj.symm.trans hq)
          have hsize := (hw.parent next p hnextp).2
          rw [Option.elim_some]
          refine List.pairwise_cons.2 ⟨fun c hc => ?_, ih _ (by omega) hnextp rfl⟩
          exact hlt.trans_le ((mem_siblingsFrom_iff hw hnextp).1 hc).1

theorem pairwise_children (hw : d.WellFormed) (p : Nat) : (d.children p).Pairwise (· < ·) := by
  unfold children
  cases hc : (d.node p).firstChild with
  | none => exact List.Pairwise.nil
  | some first =>
      have hfirst := hc ▸ hw.firstChild p
      exact pairwise_siblingsFrom hw hfirst.1

theorem nodup_children (hw : d.WellFormed) (p : Nat) : (d.children p).Nodup :=
  (pairwise_children hw p).imp fun hlt => hlt.ne

theorem mem_markersOfRole_iff (hw : d.WellFormed) {role : DirectiveRole} :
    c ∈ d.markersOfRole p role ↔
      (d.node c).parent = some p ∧ d.kind c = .directive ∧ d.directiveRole c = role := by
  unfold markersOfRole childrenOfKind
  rw [List.mem_filter, List.mem_filter, mem_children_iff hw, decide_eq_true_iff,
    decide_eq_true_iff, and_assoc]

/-! The tokens of a directive -/

theorem isSome_tokenOfKind?_iff {kind : TokenType} : (d.tokenOfKind? id kind).isSome ↔
    ∃ i, (d.node id).tokenStart ≤ i ∧ i < (d.node id).tokenEnd ∧ d.kind? i = some kind := by
  unfold tokenOfKind? Tokenized.kind?
  rw [List.find?_isSome]
  constructor
  · rintro ⟨u, hu, hkind⟩
    obtain ⟨k, hk, rfl⟩ := Array.mem_extract_iff_getElem.1 (Array.mem_toList_iff.1 hu)
    refine ⟨(d.node id).tokenStart + k, Nat.le_add_right _ _, by omega, ?_⟩
    rw [getElem?_pos d.tokens _ (by omega), Option.map_some, eq_of_beq hkind]
  · rintro ⟨i, hle, hlt, hkind⟩
    obtain ⟨u, hu, rfl⟩ := Option.map_eq_some_iff.1 hkind
    obtain ⟨hi, rfl⟩ := Array.getElem?_eq_some_iff.1 hu
    refine ⟨_, Array.mem_toList_iff.2 (Array.mem_extract_iff_getElem.2
      ⟨i - (d.node id).tokenStart, by omega, ?_⟩), beq_self_eq_true _⟩
    congr 1
    omega

theorem tokenOfKind?_eq {kind : TokenType} {u : Token} (hle : (d.node id).tokenStart ≤ i)
    (hlt : i < (d.node id).tokenEnd) (hu : d.tokens[i]? = some u) (hkind : u.kind = kind)
    (hbefore : ∀ j, (d.node id).tokenStart ≤ j → j < i → d.kind? j ≠ some kind) :
    d.tokenOfKind? id kind = some u := by
  obtain ⟨hi, rfl⟩ := Array.getElem?_eq_some_iff.1 hu
  have hsize : i - (d.node id).tokenStart <
      (d.tokens.extract (d.node id).tokenStart (d.node id).tokenEnd).toList.length := by
    rw [Array.length_toList, Array.size_extract]
    omega
  unfold tokenOfKind?
  refine List.find?_eq_some_iff_getElem.2 ⟨beq_iff_eq.2 hkind, _, hsize, ?_, fun j hj => ?_⟩
  · rw [Array.getElem_toList, Array.getElem_extract]
    congr 1
    omega
  · have hne := hbefore ((d.node id).tokenStart + j) (Nat.le_add_right _ _) (by omega)
    rw [Tokenized.kind?, getElem?_pos d.tokens _ (by omega), Option.map_some] at hne
    rw [Array.getElem_toList, Array.getElem_extract, Bool.not_eq_true', beq_eq_false_iff_ne]
    exact fun heq => hne (congrArg some heq)

theorem tokenOfKind?_eq_first {kind : TokenType} {u : Token}
    (hlt : (d.node id).tokenStart < (d.node id).tokenEnd)
    (hu : d.tokens[(d.node id).tokenStart]? = some u) (hkind : u.kind = kind) :
    d.tokenOfKind? id kind = some u :=
  tokenOfKind?_eq le_rfl hlt hu hkind fun _ hle hj => absurd hj (Nat.not_lt_of_le hle)

structure SpansDirective (d : Document) (id : Nat) : Prop where
  kind : d.kind? (d.node id).tokenStart = some .directive
  count : (d.node id).tokenCount = d.directiveLength (d.node id).tokenStart

namespace SpansDirective

variable (h : d.SpansDirective id)
include h

theorem tokenStart_lt : (d.node id).tokenStart < (d.node id).tokenEnd := by
  unfold FlatNode.tokenEnd
  rw [h.count]
  unfold Tokenized.directiveLength
  cases hargs : d.argsIndex? (d.node id).tokenStart with
  | none => exact Nat.lt_succ_self _
  | some j =>
      have := (Builder.argsIndex?_bounds hargs).1
      rw [Option.elim_some]
      omega

theorem directiveName_eq :
    d.toTokenized.directiveName (d.node id).tokenStart = .ok (d.directiveName id) := by
  obtain ⟨u, hu, hkind⟩ := Option.map_eq_some_iff.1 h.kind
  unfold Tokenized.directiveName Tokenized.text Tokenized.token directiveName textOfKind?
  rw [tokenOfKind?_eq_first h.tokenStart_lt hu hkind, hu]
  rfl

theorem isSome_directiveArgs? :
    (d.directiveArgs? id).isSome = (d.argsIndex? (d.node id).tokenStart).isSome := by
  unfold directiveArgs? textOfKind?
  rw [Option.isSome_map, Bool.eq_iff_iff, isSome_tokenOfKind?_iff]
  unfold FlatNode.tokenEnd
  rw [h.count]
  unfold Tokenized.directiveLength
  cases hargs : d.argsIndex? (d.node id).tokenStart with
  | none =>
      refine iff_of_false (fun ⟨i, hle, hlt, hkind⟩ => ?_) nofun
      rw [Option.elim_none] at hlt
      obtain rfl : i = (d.node id).tokenStart := by omega
      cases h.kind.symm.trans hkind
  | some j =>
      have hj := (Builder.argsIndex?_bounds hargs).1
      refine iff_of_true ⟨j, hj.le, ?_, Tokenized.kind?_argsIndex hargs⟩ rfl
      rw [Option.elim_some]
      omega

end SpansDirective

/-! Blocks -/

/-- A report of this kind lies over the node. -/
def Reported (d : Document) (kind : DiagnosticKind) (id : Nat) : Prop :=
  ∃ r ∈ d.reports kind, r.span = d.span id

/-- What the directives in a block are to it, where `rule` is the entry of its name. The first of
them opens it. The others with a role either have that role for this block, or they are reported,
and it is the last node that tells whether the block was closed by its end. -/
structure BlockMarked (d : Document) (rule : BlockRule) (id : Nat) : Prop where
  entry : BlockRule.find? (d.blockName id) = some rule
  first : (d.node id).firstChild = some (id + 1)
  openers : d.markersOfRole id .opener = [id + 1]
  branches : ∀ c ∈ d.blockBranches id,
    rule.acceptsBranch (d.directiveName c) (d.directiveArgs? c).isSome ∨
      d.Reported .invalidNesting c
  closers : ∀ c ∈ d.markersOfRole id .closer,
    rule.isTerminator (d.directiveName c) ∧ (d.node id).lastChild = some c ∨
      ¬ rule.isTerminator (d.directiveName c) ∧ d.Reported .unexpectedClosingTag c
  closed : d.closedBy? id = none ↔ ∃ c ∈ d.markersOfRole id .closer,
    rule.isTerminator (d.directiveName c)

structure Shows (d : Document) (b : Builder) : Prop where
  nodes : d.nodes = b.nodes
  metadata : d.metadata = b.metadata
  diagnostics : d.diagnostics = b.diagnostics

namespace Shows

open Builder

variable {b : Builder} {role : DirectiveRole} (h : d.Shows b)
include h

theorem slot_eq (i : Nat) : slot b.nodes i = d.node i := by
  rw [← h.nodes]
  rfl

theorem kind_eq (i : Nat) : (slot b.nodes i).kind = d.kind i := by
  rw [h.slot_eq]
  rfl

theorem closedBy?_eq : d.closedBy? = b.metadata.closedBy? := by
  rw [← h.metadata]
  rfl

section Marker

variable (hm : b.IsMarker d.toTokenized role p c)
include hm

theorem own_eq : (d.node c).own = d.toTokenized.marker p (d.node c).tokenStart role := by
  rw [← h.slot_eq]
  exact hm.own

theorem directiveRole_eq : d.directiveRole c = role := by
  have hdata : (d.node c).data = role.data := (congrArg FlatNode.data (h.own_eq hm) :)
  rw [directiveRole, hdata, DirectiveRole.ofData_data]

theorem mem_markersOfRole (hw : d.WellFormed) : c ∈ d.markersOfRole p role := by
  rw [mem_markersOfRole_iff hw, h.directiveRole_eq hm]
  exact ⟨(congrArg FlatNode.parent (h.own_eq hm) :), (congrArg FlatNode.kind (h.own_eq hm) :), rfl⟩

theorem spansDirective : d.SpansDirective c where
  kind := h.slot_eq c ▸ hm.token
  count := (congrArg FlatNode.tokenCount (h.own_eq hm) :)

theorem endsBlock_iff :
    d.EndsBlock rule (d.node c).tokenStart ↔ rule.isTerminator (d.directiveName c) := by
  unfold Tokenized.EndsBlock
  rw [(h.spansDirective hm).directiveName_eq]
  simp

theorem dividesBlock_iff : d.DividesBlock rule (d.node c).tokenStart ↔
    rule.acceptsBranch (d.directiveName c) (d.directiveArgs? c).isSome := by
  unfold Tokenized.DividesBlock
  rw [(h.spansDirective hm).directiveName_eq, (h.spansDirective hm).isSome_directiveArgs?]
  simp

theorem reported {kind : DiagnosticKind}
    (hc : b.Complains d.toTokenized kind (d.node c).tokenStart) : d.Reported kind c := by
  obtain ⟨r, hr, hkind, hspan⟩ := hc
  refine ⟨r, List.mem_filter.2 ⟨h.diagnostics ▸ hr, beq_iff_eq.2 hkind⟩, ?_⟩
  rw [eq_tokenSpan_of_span hspan, ← (h.spansDirective hm).count]
  rfl

end Marker

end Shows

/-! Blocks of a tree that was read -/

section Marked

open Builder

variable {b : Builder} {role : DirectiveRole} (hs : d.Shows b) (hb : b.Marked d.toTokenized)
  (hid : d.kind id = .directiveBlock)
include hs hb hid

theorem opensAt : b.OpensAt d.toTokenized id := hb.opener id ((hs.kind_eq id).trans hid)

theorem exists_hasRule : ∃ rule, d.HasRule (d.node id).tokenStart rule := by
  rw [← hs.slot_eq]
  exact (opensAt hs hb hid).rule

variable (hw : d.WellFormed)
include hw

theorem firstChild_of_block : (d.node id).firstChild = some (id + 1) :=
  hw.firstChild_eq_succ (congrArg FlatNode.parent (hs.own_eq (opensAt hs hb hid).marker) :)

variable (hrule : d.HasRule (d.node id).tokenStart rule)
include hrule

theorem markerOf_of_mem (hc : c ∈ d.markersOfRole id role) :
    b.MarkerOf d.toTokenized rule id c role := by
  obtain ⟨hparent, hkind, hrole⟩ := (mem_markersOfRole_iff hw).1 hc
  obtain ⟨role', hmarker⟩ := hb.markers c id rule ((hs.kind_eq c).trans hkind)
    (by rw [hs.slot_eq, hparent]) ((hs.kind_eq id).trans hid) (by rw [hs.slot_eq]; exact hrule)
  obtain rfl : role' = role := (hs.directiveRole_eq hmarker.marker).symm.trans hrole
  exact hmarker

theorem markersOfRole_opener : d.markersOfRole id .opener = [id + 1] := by
  have hnodup : (d.markersOfRole id .opener).Nodup := ((nodup_children hw id).filter _).filter _
  rw [← List.perm_singleton, List.perm_ext_iff_of_nodup hnodup (List.nodup_singleton _)]
  intro c
  rw [List.mem_singleton]
  constructor
  · intro hc
    cases markerOf_of_mem hs hb hid hw hrule hc with
    | opener heq _ => exact heq
  · rintro rfl
    exact hs.mem_markersOfRole (opensAt hs hb hid).marker hw

theorem find?_blockName : BlockRule.find? (d.blockName id) = some rule := by
  have hopens := opensAt hs hb hid
  have hname := (hs.spansDirective hopens.marker).directiveName_eq
  have hstart := hopens.start
  rw [hs.slot_eq, hs.slot_eq] at hstart
  obtain ⟨name, hname', hfind⟩ := hrule
  rw [← hstart, hname, Except.ok.injEq] at hname'
  unfold blockName blockOpener?
  rw [markersOfRole_opener hs hb hid hw ⟨name, by rw [← hstart, hname, hname'], hfind⟩,
    List.head?_cons, Option.elim_some, hname']
  exact hfind

theorem accepts_or_reported (hc : c ∈ d.blockBranches id) :
    rule.acceptsBranch (d.directiveName c) (d.directiveArgs? c).isSome ∨
      d.Reported .invalidNesting c := by
  cases markerOf_of_mem hs hb hid hw hrule hc with
  | branch hm hdivides => exact .inl ((hs.dividesBlock_iff hm).1 (hs.slot_eq c ▸ hdivides))
  | strayBranch hm _ hreport => exact .inr (hs.reported hm (hs.slot_eq c ▸ hreport))

theorem endedBy_or_reported (hc : c ∈ d.markersOfRole id .closer) :
    b.EndedBy d.toTokenized rule id c ∨
      ¬ rule.isTerminator (d.directiveName c) ∧ d.Reported .unexpectedClosingTag c := by
  cases markerOf_of_mem hs hb hid hw hrule hc with
  | closer hended => exact .inl hended
  | strayCloser hm hends hreport =>
      rw [hs.slot_eq, hs.endsBlock_iff hm] at hends
      exact .inr ⟨hends, hs.reported hm (hs.slot_eq c ▸ hreport)⟩

end Marked

section Ended

open Builder

variable {b : Builder} (hs : d.Shows b) (h : b.EndedBy d.toTokenized rule id c)
include hs h

theorem isTerminator_of_endedBy : rule.isTerminator (d.directiveName c) :=
  (hs.endsBlock_iff h.marker).1 (hs.slot_eq c ▸ h.ends)

theorem lastChild_of_endedBy (hw : d.WellFormed) : (d.node id).lastChild = some c := by
  rw [(hw.lastChild id).eq_some_iff]
  refine ⟨(congrArg FlatNode.parent (hs.own_eq h.marker) :), fun i hi => h.last i ?_⟩
  rw [hs.slot_eq, hi]

end Ended

theorem blockMarked_of_marked {b : Builder} (hw : d.WellFormed) (hs : d.Shows b)
    (hb : b.Marked d.toTokenized) (hstack : b.stack = []) (hid : d.kind id = .directiveBlock) :
    ∃ rule, d.BlockMarked rule id := by
  obtain ⟨rule, hrule⟩ := exists_hasRule hs hb hid
  have hclosers {c : Nat} (hc : c ∈ d.markersOfRole id .closer) :=
    endedBy_or_reported hs hb hid hw hrule hc
  refine ⟨rule, find?_blockName hs hb hid hw hrule, firstChild_of_block hs hb hid hw,
    markersOfRole_opener hs hb hid hw hrule, fun c => accepts_or_reported hs hb hid hw hrule,
    fun c hc => (hclosers hc).imp_left fun h =>
      ⟨isTerminator_of_endedBy hs h, lastChild_of_endedBy hs h hw⟩, fun hnone => ?_, ?_⟩
  · have hclosed : id ∉ b.openPath := by
      unfold Builder.openPath
      rw [hstack, List.map_nil, List.nil_append, List.mem_singleton]
      rintro rfl
      cases hw.document.symm.trans hid
    obtain ⟨c, hended⟩ := hb.ended id rule ((hs.kind_eq id).trans hid) hclosed
      (hs.closedBy?_eq ▸ hnone) (by rw [hs.slot_eq]; exact hrule)
    exact ⟨c, hs.mem_markersOfRole hended.marker hw, isTerminator_of_endedBy hs hended⟩
  · rintro ⟨c, hc, hends⟩
    rcases hclosers hc with hended | ⟨hnot, -⟩
    · rw [hs.closedBy?_eq]
      exact hended.reason
    · exact absurd hends hnot

/-- In every document that was read without extensions, blocks are marked by their directives. -/
theorem blockMarked_of_parse (htree : o.treeExtensions = []) (h : parse o text = .ok d)
    (hid : d.kind id = .directiveBlock) : ∃ rule, d.BlockMarked rule id := by
  obtain ⟨lexed, b, hw, hb, rfl⟩ := exists_wellFormed_of_parse h
  obtain ⟨hmarked, hstack⟩ := Builder.marked_build htree b hb
  exact blockMarked_of_marked hw ⟨rfl, rfl, rfl⟩ hmarked hstack hid

/-- A block without stray ends has the end that its view shows. -/
theorem BlockMarked.blockCloser?_eq_some_iff (h : d.BlockMarked rule id)
    (hstray : ∀ c ∈ d.markersOfRole id .closer, ¬ d.Reported .unexpectedClosingTag c) :
    d.blockCloser? id = some c ↔ d.closedBy? id = none ∧ (d.node id).lastChild = some c := by
  have hcloser {c : Nat} (hc : c ∈ d.markersOfRole id .closer) :
      rule.isTerminator (d.directiveName c) ∧ (d.node id).lastChild = some c :=
    (h.closers c hc).resolve_right fun hno => hstray c hc hno.2
  constructor
  · intro hc
    have hmem := List.mem_of_mem_head? hc
    exact ⟨h.closed.2 ⟨c, hmem, (hcloser hmem).1⟩, (hcloser hmem).2⟩
  · rintro ⟨hnone, hlast⟩
    obtain ⟨c', hc', -⟩ := h.closed.1 hnone
    obtain ⟨c'', hhead⟩ := Option.isSome_iff_exists.1
      (List.isSome_head?.2 (List.ne_nil_of_mem hc'))
    obtain rfl : c'' = c := Option.some.inj
      ((hcloser (List.mem_of_mem_head? hhead)).2.symm.trans hlast)
    exact hhead

-- The end of another block is shown as the end of the block around it.
example : (parse (.ofDirectives ["if", "endforeach"])
    "@if(a)@endforeach").toOption.map (fun d => (d.blockCloser? 1, d.closedBy? 1)) =
      some (some 3, some .eof) := by cbv

end Document
end BladeTree
