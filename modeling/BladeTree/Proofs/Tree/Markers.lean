import BladeTree.Proofs.Tree.Named
import BladeTree.Proofs.Tree.Widens

namespace BladeTree
namespace Tokenized

variable (t : Tokenized)

def directiveLength (i : Nat) : Nat := (t.argsIndex? i).elim 1 (· + 1 - i)

def marker (p i : Nat) (role : DirectiveRole) : FlatNode :=
  { FlatNode.unlinked .directive i with
    tokenCount := t.directiveLength i, data := role.data, parent := some p }

def HasRule (i : Nat) (rule : BlockRule) : Prop :=
  ∃ name, t.directiveName i = .ok name ∧ BlockRule.find? name = some rule

def EndsBlock (rule : BlockRule) (i : Nat) : Prop :=
  ∃ name, t.directiveName i = .ok name ∧ rule.isTerminator name

def DividesBlock (rule : BlockRule) (i : Nat) : Prop :=
  ∃ name, t.directiveName i = .ok name ∧ rule.acceptsBranch name (t.argsIndex? i).isSome

variable {t} {i : Nat} {rule rule' : BlockRule}

theorem HasRule.unique (h : t.HasRule i rule) (h' : t.HasRule i rule') : rule = rule' := by
  obtain ⟨name, hname, hrule⟩ := h
  obtain ⟨name', hname', hrule'⟩ := h'
  obtain rfl : name = name' := Except.ok.inj (hname.symm.trans hname')
  exact Option.some.inj (hrule.symm.trans hrule')

end Tokenized

def FrameKind.nodeKind : FrameKind → NodeKind
  | .element _ => .element
  | .directive _ _ => .directiveBlock

namespace Builder

def Complains (t : Tokenized) (b : Builder) (kind : DiagnosticKind) (i : Nat) : Prop :=
  ∃ r ∈ b.diagnostics.toList, r.kind = kind ∧ t.span i (i + t.directiveLength i) = .ok r.span

structure IsMarker (t : Tokenized) (b : Builder) (role : DirectiveRole) (p c : Nat) : Prop where
  own : (slot b.nodes c).own = t.marker p (slot b.nodes c).tokenStart role
  token : t.kind? (slot b.nodes c).tokenStart = some .directive

/-- The directive `c` has ended the block `p`: it is the last node of the block, which was closed
for no other reason. -/
structure EndedBy (t : Tokenized) (b : Builder) (rule : BlockRule) (p c : Nat) : Prop where
  marker : b.IsMarker t .closer p c
  ends : t.EndsBlock rule (slot b.nodes c).tokenStart
  closed : p ∉ b.openPath
  reason : b.metadata.closedBy? p = none
  last : ∀ i, (slot b.nodes i).parent = some p → i ≤ c

inductive MarkerOf (t : Tokenized) (b : Builder) (rule : BlockRule) (p c : Nat) :
    DirectiveRole → Prop
  | opener : c = p + 1 → b.IsMarker t .opener p c → MarkerOf t b rule p c .opener
  | standalone : b.IsMarker t .standalone p c → MarkerOf t b rule p c .standalone
  | branch : b.IsMarker t .branch p c → t.DividesBlock rule (slot b.nodes c).tokenStart →
      MarkerOf t b rule p c .branch
  | closer : b.EndedBy t rule p c → MarkerOf t b rule p c .closer
  | strayBranch : b.IsMarker t .branch p c →
      ¬ t.DividesBlock rule (slot b.nodes c).tokenStart →
      b.Complains t .invalidNesting (slot b.nodes c).tokenStart → MarkerOf t b rule p c .branch
  | strayCloser : b.IsMarker t .closer p c → ¬ t.EndsBlock rule (slot b.nodes c).tokenStart →
      b.Complains t .unexpectedClosingTag (slot b.nodes c).tokenStart →
      MarkerOf t b rule p c .closer

structure OpensAt (t : Tokenized) (b : Builder) (p : Nat) : Prop where
  marker : b.IsMarker t .opener p (p + 1)
  start : (slot b.nodes (p + 1)).tokenStart = (slot b.nodes p).tokenStart
  rule : ∃ rule, t.HasRule (slot b.nodes p).tokenStart rule

/-- Every block starts with its opener, the directives in it are its markers, and it was either ended
by one of them or given a reason. -/
structure Marked (t : Tokenized) (b : Builder) : Prop where
  opener : ∀ p, (slot b.nodes p).kind = .directiveBlock → b.OpensAt t p
  frames : ∀ f ∈ b.stack, f.blockRule?.isSome →
    f.kind.Fits t (slot b.nodes f.node).kind (slot b.nodes f.node).tokenStart
  markers : ∀ c p rule, (slot b.nodes c).kind = .directive → (slot b.nodes c).parent = some p →
    (slot b.nodes p).kind = .directiveBlock → t.HasRule (slot b.nodes p).tokenStart rule →
    ∃ role, b.MarkerOf t rule p c role
  ended : ∀ p rule, (slot b.nodes p).kind = .directiveBlock → p ∉ b.openPath →
    b.metadata.closedBy? p = none → t.HasRule (slot b.nodes p).tokenStart rule →
    ∃ c, b.EndedBy t rule p c

variable {t : Tokenized} {b b' : Builder} {rule : BlockRule} {p c q i m : Nat}

/-! Open nodes -/

theorem kind_of_mark {kind : FrameKind} {first : Nat}
    (h : b.ledger.mark i = some (kind.mark first)) :
    (slot b.nodes i).kind = kind.nodeKind := by
  have hmark : (slot b.nodes i).mark? = some (kind.mark first) := h
  unfold FlatNode.mark? at hmark
  split at hmark <;> cases kind <;> cases hmark <;> assumption

/-- The open nodes are the document, elements and blocks with their frames. -/
structure Seated (b : Builder) : Prop where
  linked : (outline b.nodes).Linked
  document : (slot b.nodes root).kind = .document
  frames : ∀ f ∈ b.stack, (slot b.nodes f.node).kind = f.kind.nodeKind

theorem Sound.seated (h : b.Sound t) (ho : b.ledger.Orderly m) : b.Seated where
  linked := h.growing.linked
  document := h.document
  frames f hf := by
    obtain ⟨-, first, hmark⟩ := ho.frames f hf
    exact kind_of_mark hmark

namespace Seated

variable (h : b.Seated)
include h

theorem eq_or (hi : i ∈ b.openPath) :
    (slot b.nodes i).kind = .document ∨ ∃ f ∈ b.stack, f.node = i := by
  unfold openPath at hi
  rcases List.mem_append.1 hi with hi | hi
  · obtain ⟨f, hf, hnode⟩ := List.mem_map.1 hi
    exact .inr ⟨f, hf, hnode⟩
  · rw [List.mem_singleton.1 hi]
    exact .inl h.document

theorem not_mem_of_directive (hi : (slot b.nodes i).kind = .directive) : i ∉ b.openPath := by
  intro hopen
  rcases h.eq_or hopen with hd | ⟨f, hf, rfl⟩
  · cases hd.symm.trans hi
  · have hkind := (h.frames f hf).symm.trans hi
    cases hf' : f.kind <;> rw [hf'] at hkind <;> cases hkind

theorem exists_frame (hp : p ∈ b.openPath) (hk : (slot b.nodes p).kind = .directiveBlock) :
    ∃ f ∈ b.stack, f.node = p ∧ f.blockRule?.isSome := by
  rcases h.eq_or hp with hd | ⟨f, hf, rfl⟩
  · cases hd.symm.trans hk
  · refine ⟨f, hf, rfl, ?_⟩
    have hkind := (h.frames f hf).symm.trans hk
    unfold Frame.blockRule?
    cases hf' : f.kind with
    | element name =>
        rw [hf'] at hkind
        cases hkind
    | directive rule name => rfl

end Seated

/-! What growth keeps -/

theorem Complains.report {kind : DiagnosticKind} {span : Span}
    (hspan : t.span i (i + t.directiveLength i) = .ok span) (detail : String)
    (context : Option String) :
    (b.report (.detailed kind span detail context)).Complains t kind i := by
  refine ⟨.detailed kind span detail context, ?_, rfl, hspan⟩
  rw [Builder.report, Array.toList_push]
  exact List.mem_append_right _ List.mem_cons_self

theorem Complains.widens {n : Nat} {kind : DiagnosticKind} (h : b.Complains t kind i)
    (hw : Widens n b b') : b'.Complains t kind i := by
  obtain ⟨r, hr, hkind, hspan⟩ := h
  exact ⟨r, hw.logged.subset hr, hkind, hspan⟩

theorem IsMarker.kind_eq {role : DirectiveRole} (h : b.IsMarker t role p c) :
    (slot b.nodes c).kind = .directive :=
  (congrArg FlatNode.kind h.own :)

theorem IsMarker.congr {role : DirectiveRole} (h : b.IsMarker t role p c)
    (hown : (slot b'.nodes c).own = (slot b.nodes c).own) : b'.IsMarker t role p c := by
  have hstart : (slot b'.nodes c).tokenStart = (slot b.nodes c).tokenStart :=
    (congrArg FlatNode.tokenStart hown :)
  exact ⟨by rw [hown, hstart]; exact h.own, hstart ▸ h.token⟩

theorem EndedBy.widens (h : b.EndedBy t rule p c) (hp : p < b.nodes.size)
    (hw : Widens b.nodes.size b b') (hown : (slot b'.nodes c).own = (slot b.nodes c).own) :
    b'.EndedBy t rule p c := by
  have hstart : (slot b'.nodes c).tokenStart = (slot b.nodes c).tokenStart :=
    (congrArg FlatNode.tokenStart hown :)
  refine ⟨h.marker.congr hown, hstart ▸ h.ends, fun hopen => ?_,
    (hw.reason p hp h.closed).trans h.reason, fun i hi => ?_⟩
  · exact (hw.opened p hopen).elim h.closed (Nat.not_le_of_lt hp)
  · rcases Nat.lt_or_ge i b.nodes.size with hlt | hge
    · exact h.last i ((hw.parent_eq hlt).symm.trans hi)
    · exact ((hw.entered i p hge hi).elim h.closed (Nat.not_le_of_lt hp)).elim

theorem MarkerOf.marker {role : DirectiveRole} (h : b.MarkerOf t rule p c role) :
    b.IsMarker t role p c := by
  cases h with
  | opener _ h => exact h
  | standalone h => exact h
  | branch h _ => exact h
  | closer h => exact h.marker
  | strayBranch h _ _ => exact h
  | strayCloser h _ _ => exact h

theorem MarkerOf.widens {role : DirectiveRole} (h : b.MarkerOf t rule p c role)
    (hp : p < b.nodes.size) (hw : Widens b.nodes.size b b')
    (hown : (slot b'.nodes c).own = (slot b.nodes c).own) : b'.MarkerOf t rule p c role := by
  have hstart : (slot b'.nodes c).tokenStart = (slot b.nodes c).tokenStart :=
    (congrArg FlatNode.tokenStart hown :)
  cases h with
  | opener hc h => exact .opener hc (h.congr hown)
  | standalone h => exact .standalone (h.congr hown)
  | branch h hname => exact .branch (h.congr hown) (hstart ▸ hname)
  | closer h => exact .closer (h.widens hp hw hown)
  | strayBranch h hname hreport =>
      exact .strayBranch (h.congr hown) (hstart ▸ hname) (hstart ▸ hreport.widens hw)
  | strayCloser h hname hreport =>
      exact .strayCloser (h.congr hown) (hstart ▸ hname) (hstart ▸ hreport.widens hw)

namespace Marked

theorem grow (h : b.Marked t) (hs : b.Seated) (hw : Widens b.nodes.size b b') (hf : Final b b')
    (hopener : ∀ p, b.nodes.size ≤ p → (slot b'.nodes p).kind = .directiveBlock →
      b'.OpensAt t p)
    (hframes : ∀ f ∈ b'.stack, f ∉ b.stack → f.blockRule?.isSome →
      f.kind.Fits t (slot b'.nodes f.node).kind (slot b'.nodes f.node).tokenStart)
    (hmarkers : ∀ c p rule, b.nodes.size ≤ c → (slot b'.nodes c).kind = .directive →
      (slot b'.nodes c).parent = some p → (slot b'.nodes p).kind = .directiveBlock →
      t.HasRule (slot b'.nodes p).tokenStart rule → ∃ role, b'.MarkerOf t rule p c role)
    (hended : ∀ p rule, p ∈ b.openPath ∨ b.nodes.size ≤ p →
      (slot b'.nodes p).kind = .directiveBlock → p ∉ b'.openPath →
      b'.metadata.closedBy? p = none → t.HasRule (slot b'.nodes p).tokenStart rule →
      ∃ c, b'.EndedBy t rule p c) : b'.Marked t := by
  have hown {c : Nat} (hc : (slot b.nodes c).kind = .directive) :
      (slot b'.nodes c).own = (slot b.nodes c).own :=
    hf.own c (lt_size_of_kind (by rw [hc]; nofun)) (hs.not_mem_of_directive hc)
  refine ⟨fun p hk => ?_, fun f hf' hblock => ?_, fun c p rule hc hp hk hrule => ?_,
    fun p rule hk hclosed hreason hrule => ?_⟩
  · rcases Nat.lt_or_ge p b.nodes.size with hlt | hge
    · obtain ⟨hmarker, hstart, hrule⟩ := h.opener p ((hw.kind_eq hlt).symm.trans hk)
      have hown' := hown hmarker.kind_eq
      refine ⟨hmarker.congr hown', ?_, ?_⟩
      · rw [hw.tokenStart_eq hlt, ← hstart]
        exact (congrArg FlatNode.tokenStart hown' :)
      · rw [hw.tokenStart_eq hlt]
        exact hrule
    · exact hopener p hge hk
  · by_cases hold : f ∈ b.stack
    · have hfits := h.frames f hold hblock
      have hlt : f.node < b.nodes.size :=
        lt_size_of_kind (by rw [hs.frames f hold]; cases f.kind <;> nofun)
      rw [hw.kind_eq hlt, hw.tokenStart_eq hlt]
      exact hfits
    · exact hframes f hf' hold hblock
  · rcases Nat.lt_or_ge c b.nodes.size with hlt | hge
    · rw [hw.kind_eq hlt] at hc
      rw [hw.parent_eq hlt] at hp
      have hplt : p < b.nodes.size := (hs.linked.below c p hp).1.trans hlt
      rw [hw.kind_eq hplt] at hk
      rw [hw.tokenStart_eq hplt] at hrule
      obtain ⟨role, hmarker⟩ := h.markers c p rule hc hp hk hrule
      exact ⟨role, hmarker.widens hplt hw (hown hc)⟩
    · exact hmarkers c p rule hge hc hp hk hrule
  · by_cases hold : p < b.nodes.size ∧ p ∉ b.openPath
    · obtain ⟨hlt, hstill⟩ := hold
      rw [hw.kind_eq hlt] at hk
      rw [hw.tokenStart_eq hlt] at hrule
      rw [hw.reason p hlt hstill] at hreason
      obtain ⟨c, hc⟩ := h.ended p rule hk hstill hreason hrule
      exact ⟨c, hc.widens hlt hw (hown hc.marker.kind_eq)⟩
    · refine hended p rule ?_ hk hclosed hreason hrule
      rw [not_and_or, not_lt, not_not] at hold
      exact hold.symm

theorem steady (h : b.Marked t) (hs : b.Seated) (hw : Steady b.nodes.size b b')
    (hf : Final b b') : b'.Marked t := by
  refine h.grow hs hw.toWidens hf (fun p hp hk => absurd hk (hw.fresh p hp))
    (fun f hf' hold hblock => absurd (hw.stack f hf' hblock) hold)
    (fun c p rule hc hkind hp hk _ => ?_) fun p rule hp hk hclosed hreason _ => ?_
  · rcases Nat.lt_or_ge p b.nodes.size with hlt | hge
    · exact absurd hkind (hw.bare c p hc hp hlt)
    · exact absurd hk (hw.fresh p hge)
  · have hlt : p < b.nodes.size := Nat.lt_of_not_le fun hge => hw.fresh p hge hk
    have hopen : p ∈ b.openPath := hp.resolve_right (Nat.not_le_of_lt hlt)
    rw [hw.kind_eq hlt] at hk
    obtain ⟨f, hf', rfl, hblock⟩ := hs.exists_frame hopen hk
    rcases hw.left f hf' hblock with hstill | hsome
    · exact absurd (List.mem_append_left _ (List.mem_map.2 ⟨f, hstill, rfl⟩)) hclosed
    · rw [hreason] at hsome
      cases hsome

end Marked

/-! Directives -/

theorem directiveLeaf_own (b : Builder) (q : Nat) (role : DirectiveRole) :
    Build.Returns (b.directiveLeaf t q role) fun b' =>
      b'.pos = b.pos + t.directiveLength b.pos ∧ b'.nodes.size = b.nodes.size + 1 ∧
      ∀ i, (slot b'.nodes i).own =
        if i = b.nodes.size then t.marker q b.pos role else (slot b.nodes i).own := by
  have hinner : Inner t q b b := .refl
  unfold directiveLeaf
  refine ((leaf_own b q .directive _).and ((ledger_leaf b q rfl _).and
    (hinner.leaf (.inl rfl) rfl _))).bind fun ⟨id, b₁⟩ hleaf => ?_
  obtain ⟨⟨hsize, -, hown⟩, ⟨hpos, -⟩, -, hid⟩ := hleaf
  refine (returns_modify b₁ id _).mono fun b' ⟨hlt, hb'⟩ => ?_
  obtain rfl : id = b.nodes.size := by omega
  subst hb'
  refine ⟨hpos, Array.size_modify.trans hsize, fun i => ?_⟩
  have hi := hown i
  rw [slot_modify hlt]
  split
  · rename_i heq
    rw [if_pos heq] at hi
    exact congrArg (fun m => { m with data := role.data }) hi
  · rename_i hne
    rwa [if_neg hne] at hi

/-- From `b` to `b'` a directive with this role became the last child of the innermost open node. -/
structure Places (t : Tokenized) (b : Builder) (role : DirectiveRole) (b' : Builder) : Prop where
  widens : Widens b.nodes.size b b'
  final : Final b b'
  size : b'.nodes.size = b.nodes.size + 1
  own : (slot b'.nodes b.nodes.size).own = t.marker b.parent b.pos role
  stack : b'.stack = b.stack
  reason : b'.metadata.closedBy? = b.metadata.closedBy?

theorem returns_places (b : Builder) (role : DirectiveRole) :
    Build.Returns (b.directiveLeaf t b.parent role) fun b' =>
      b.Places t role b' ∧ b'.pos = b.pos + t.directiveLength b.pos := by
  have hinner : Inner t b.parent b b := .refl
  refine ((directiveLeaf_own b b.parent role).and (hinner.directiveLeaf (.inl rfl) role)).mono
    fun b' ⟨⟨hpos, hsize, hown⟩, h⟩ => ⟨⟨?_, h.final, hsize, ?_, h.stack_eq, h.closedBy?_eq⟩, hpos⟩
  · exact .inner h (.inl b.parent_mem_openPath) le_rfl
  · rw [hown, if_pos rfl]

namespace Places

variable {role : DirectiveRole} (h : b.Places t role b')
include h

theorem kind_eq : (slot b'.nodes b.nodes.size).kind = .directive :=
  (congrArg FlatNode.kind h.own :)

theorem parent_eq : (slot b'.nodes b.nodes.size).parent = some b.parent :=
  (congrArg FlatNode.parent h.own :)

theorem tokenStart_eq : (slot b'.nodes b.nodes.size).tokenStart = b.pos :=
  (congrArg FlatNode.tokenStart h.own :)

theorem isMarker (htoken : t.kind? b.pos = some .directive) :
    b'.IsMarker t role b.parent b.nodes.size :=
  ⟨by rw [h.tokenStart_eq, h.own], by rw [h.tokenStart_eq, htoken]⟩

theorem eq_of_ge (hi : b.nodes.size ≤ i) (hlt : i < b'.nodes.size) : i = b.nodes.size := by
  rw [h.size] at hlt
  exact le_antisymm (Nat.le_of_lt_succ hlt) hi

theorem report (d : Diagnostic) : b.Places t role (b'.report d) where
  widens := { h.widens with
    logged := h.widens.logged.trans (by
      rw [Builder.report, Array.toList_push]
      exact List.prefix_append _ _) }
  final := h.final.of_nodes rfl (List.Subset.refl _)
  size := h.size
  own := h.own
  stack := h.stack
  reason := h.reason

end Places

namespace Marked

variable (h : b.Marked t) (hs : b.Seated)
include h hs

omit hs in
theorem hasRule {f : Frame} (hf : f ∈ b.stack) (hblock : f.blockRule? = some rule) :
    t.HasRule (slot b.nodes f.node).tokenStart rule := by
  have hfits := h.frames f hf (by rw [hblock]; rfl)
  unfold Frame.blockRule? at hblock
  split at hblock
  · cases hblock
  · rename_i rule' name hkind
    cases hblock
    rw [hkind] at hfits
    exact ⟨name, hfits.2⟩

theorem exists_top (hk : (slot b.nodes b.parent).kind = .directiveBlock)
    (hrule : t.HasRule (slot b.nodes b.parent).tokenStart rule) :
    ∃ f below, b.stack = f :: below ∧ f.node = b.parent ∧ f.blockRule? = some rule := by
  cases hstack : b.stack with
  | nil =>
      have hroot : b.parent = root := by
        unfold parent
        rw [hstack]
        rfl
      rw [hroot] at hk
      cases hs.document.symm.trans hk
  | cons f below =>
      have hnode : f.node = b.parent := by
        unfold parent
        rw [hstack]
        rfl
      have hf : f ∈ b.stack := hstack ▸ List.mem_cons_self
      have hkind := (hs.frames f hf).symm.trans (hnode ▸ hk)
      refine ⟨f, below, rfl, hnode, ?_⟩
      cases hblock : f.blockRule? with
      | none =>
          unfold Frame.blockRule? at hblock
          cases hf' : f.kind <;> rw [hf'] at hkind hblock
          · cases hkind
          · cases hblock
      | some rule' =>
          rw [← hnode] at hrule
          rw [hrule.unique (h.hasRule hf hblock)]

theorem places {role : DirectiveRole} (hp : b.Places t role b')
    (hmarker : ∀ rule, (slot b.nodes b.parent).kind = .directiveBlock →
      t.HasRule (slot b.nodes b.parent).tokenStart rule →
      b'.MarkerOf t rule b.parent b.nodes.size role) : b'.Marked t := by
  have hnew {p : Nat} (hge : b.nodes.size ≤ p)
      (hk : (slot b'.nodes p).kind = .directiveBlock) : False := by
    obtain rfl := hp.eq_of_ge hge (lt_size_of_kind (by rw [hk]; nofun))
    cases hp.kind_eq.symm.trans hk
  refine h.grow hs hp.widens hp.final (fun p hge hk => (hnew hge hk).elim)
    (fun f hf hold _ => absurd (hp.stack ▸ hf) hold) (fun c p rule hc hkind hparent hk hrule => ?_)
    fun p rule hopen hk hclosed _ _ => ?_
  · obtain rfl := hp.eq_of_ge hc (lt_size_of_kind (by rw [hkind]; nofun))
    obtain rfl : b.parent = p := Option.some.inj (hp.parent_eq.symm.trans hparent)
    have hlt : b.parent < b.nodes.size := Nat.lt_of_not_le fun hge => hnew hge hk
    rw [hp.widens.kind_eq hlt] at hk
    rw [hp.widens.tokenStart_eq hlt] at hrule
    exact ⟨role, hmarker rule hk hrule⟩
  · refine absurd ?_ hclosed
    rw [openPath_congr hp.stack]
    exact hopen.resolve_right fun hge => hnew hge hk

theorem terminator {f : Frame} {below : List Frame} (hstack : b.stack = f :: below)
    (ho : b.ledger.Orderly m) (htoken : t.kind? b.pos = some .directive)
    (hblock : f.blockRule? = some rule) (hends : t.EndsBlock rule b.pos) :
    Build.Returns (do
      let b' ← b.directiveLeaf t b.parent .closer
      return (← b'.popFrame b'.pos).2) (·.Marked t) := by
  have hparent : b.parent = f.node := by
    unfold parent
    rw [hstack]
    rfl
  have hf : f ∈ b.stack := hstack ▸ List.mem_cons_self
  have hfkind := hs.frames f hf
  have hreason : b.metadata.closedBy? f.node = none := (ho.frames f hf).1
  have hclosed : f.node ∉ below.map (·.node) ++ [root] := by
    rw [List.mem_append, List.mem_singleton, not_or]
    refine ⟨fun hmem => ?_, fun hroot => ?_⟩
    · obtain ⟨g, hg, heq⟩ := List.mem_map.1 hmem
      exact ho.ne_of_mem_below hstack hg heq
    · rw [hroot, hs.document] at hfkind
      cases hf' : f.kind <;> rw [hf'] at hfkind <;> cases hfkind
  refine (returns_places b .closer).bind fun b₁ ⟨hp, _⟩ => ?_
  have hstack₁ : b₁.stack = f :: below := hp.stack.trans hstack
  have hpop : Build.Returns (b₁.popFrame b₁.pos) fun p => b₁.popFrame b₁.pos = .ok p := fun _ => id
  refine hpop.bind fun ⟨popped, b₂⟩ hb => .ok ?_
  obtain ⟨-, hstack₂, -, hmetadata, -, hlt, hnodes⟩ := returns_popFrame hstack₁ _ _ hb
  have hw : Widens b.nodes.size b b₂ := hp.widens.trans (.popFrame hstack₁ hb)
  have hfinal : Final b b₂ := (hp.final.popFrame _ _ hb).1
  have hsize : b₂.nodes.size = b.nodes.size + 1 := by rw [hnodes, Array.size_modify, hp.size]
  have hflt : f.node < b.nodes.size := lt_size_of_kind (by rw [hfkind]; cases f.kind <;> nofun)
  have hown : (slot b₂.nodes b.nodes.size).own = t.marker f.node b.pos .closer := by
    rw [hnodes, slot_modify hlt, if_neg hflt.ne', hp.own, hparent]
  have hnew {i : Nat} (hge : b.nodes.size ≤ i) (hi : i < b₂.nodes.size) : i = b.nodes.size :=
    hp.eq_of_ge hge (hi.trans_eq (hsize.trans hp.size.symm))
  have hkind : (slot b₂.nodes b.nodes.size).kind = .directive := (congrArg FlatNode.kind hown :)
  have hstart : (slot b₂.nodes b.nodes.size).tokenStart = b.pos :=
    (congrArg FlatNode.tokenStart hown :)
  have hended : b₂.EndedBy t rule f.node b.nodes.size := by
    refine ⟨⟨by rw [hstart, hown], hstart ▸ htoken⟩, hstart ▸ hends, ?_, ?_, fun i hi => ?_⟩
    · unfold openPath
      rw [hstack₂]
      exact hclosed
    · rw [hmetadata, hp.reason]
      exact hreason
    · have := lt_size_of_parent hi
      omega
  have hrule {rule' : BlockRule} (h' : t.HasRule (slot b₂.nodes f.node).tokenStart rule') :
      rule' = rule := by
    rw [hw.tokenStart_eq hflt] at h'
    exact h'.unique (h.hasRule hf hblock)
  refine h.grow hs hw hfinal (fun p hge hk => ?_) (fun g hg hold _ => ?_)
    (fun c p rule' hc hkind' hpar hk hrule' => ?_) fun p rule' hopen hk hstill _ hrule' => ?_
  · obtain rfl := hnew hge (lt_size_of_kind (by rw [hk]; nofun))
    cases hkind.symm.trans hk
  · rw [hstack₂] at hg
    exact absurd (hstack ▸ List.mem_cons_of_mem f hg) hold
  · obtain rfl := hnew hc (lt_size_of_kind (by rw [hkind']; nofun))
    obtain rfl : f.node = p := by
      have hparent₂ : (slot b₂.nodes b.nodes.size).parent = some f.node :=
        (congrArg FlatNode.parent hown :)
      exact Option.some.inj (hparent₂.symm.trans hpar)
    obtain rfl := hrule hrule'
    exact ⟨.closer, .closer hended⟩
  · have hlt : p < b.nodes.size := by
      refine Nat.lt_of_not_le fun hge => ?_
      obtain rfl := hnew hge (lt_size_of_kind (by rw [hk]; nofun))
      cases hkind.symm.trans hk
    have hp' : p ∈ b.openPath := hopen.resolve_right (Nat.not_le_of_lt hlt)
    unfold openPath at hp' hstill
    rw [hstack, List.map_cons, List.cons_append, List.mem_cons] at hp'
    rw [hstack₂] at hstill
    obtain rfl : p = f.node := hp'.resolve_right hstill
    obtain rfl := hrule hrule'
    exact ⟨_, hended⟩

theorem openBlock (htoken : t.kind? b.pos = some .directive) {name : String}
    (hname : t.directiveName b.pos = .ok name)
    (hrule : BlockRule.find? name = some rule) :
    Build.Returns (b.openBlock t rule name) (·.Marked t) := by
  unfold Builder.openBlock
  refine Build.Returns.any.bind fun _ _ => ?_
  refine ((startIn_starts b b.parent .directiveBlock).returns.and
    ((Final.refl b).startIn b.parent .directiveBlock)).bind
    fun ⟨block, b₁⟩ ⟨hstarts, hf₁, _⟩ => ?_
  obtain rfl := hstarts.id_eq
  have hinner : Inner t b.nodes.size b₁ b₁ := .refl
  refine ((directiveLeaf_own b₁ b.nodes.size .opener).and
    (hinner.directiveLeaf (.inl rfl) .opener)).bind fun b₂ ⟨⟨_, hsize, hown⟩, h₂⟩ => .ok ?_
  have hpos₁ : b₁.pos = b.pos := by rw [hstarts.rest]
  have hstack₁ : b₁.stack = b.stack := by rw [hstarts.rest]
  have hblock : (slot b₂.nodes b.nodes.size).own = (slot b₁.nodes b.nodes.size).own := by
    rw [hown, if_neg]
    rw [hstarts.size]
    exact (Nat.lt_succ_self _).ne
  have hkind : (slot b₂.nodes b.nodes.size).kind = .directiveBlock :=
    (congrArg FlatNode.kind hblock :).trans hstarts.kind_eq
  have hstart : (slot b₂.nodes b.nodes.size).tokenStart = b.pos :=
    (congrArg FlatNode.tokenStart hblock :).trans hstarts.tokenStart_eq
  have hmark : (slot b₂.nodes (b.nodes.size + 1)).own = t.marker b.nodes.size b.pos .opener := by
    rw [hown, if_pos hstarts.size.symm, hpos₁]
  have hmstart : (slot b₂.nodes (b.nodes.size + 1)).tokenStart = b.pos :=
    (congrArg FlatNode.tokenStart hmark :)
  have hmarker : b₂.IsMarker t .opener b.nodes.size (b.nodes.size + 1) :=
    ⟨by rw [hmark, hmstart], hmstart ▸ htoken⟩
  have hnew {i : Nat} (hge : b.nodes.size ≤ i) (hi : i < b₂.nodes.size) :
      i = b.nodes.size ∨ i = b.nodes.size + 1 := by
    rw [hsize, hstarts.size] at hi
    omega
  obtain ⟨hnodes, hstack⟩ := nodes_pushFrame b₂ ⟨b.nodes.size, .directive rule name⟩
  have hw := ((Widens.child (n := b.nodes.size) hstarts (.inl b.parent_mem_openPath)).trans
    (.inner h₂ (.inr le_rfl) (hf₁.size))).trans
    (.pushFrame (f := ⟨b.nodes.size, .directive rule name⟩) le_rfl)
  have hf := (hf₁.inner h₂).pushFrame (f := ⟨b.nodes.size, .directive rule name⟩) le_rfl
  refine h.grow hs hw hf (fun p hge hk => ?_) (fun g hg hold _ => ?_)
    (fun c p rule' hc hkind' hpar hk _ => ?_) fun p rule' hopen hk hstill _ _ => ?_
  · rw [hnodes] at hk
    rcases hnew hge (lt_size_of_kind (by rw [hk]; nofun)) with rfl | rfl
    · refine ⟨hmarker.congr (by rw [hnodes]), ?_, rule, ?_⟩
      · rw [hnodes, hmstart, hstart]
      · rw [hnodes, hstart]
        exact ⟨name, hname, hrule⟩
    · cases hmarker.kind_eq.symm.trans hk
  · rw [hstack, List.mem_cons, h₂.stack_eq, hstack₁] at hg
    obtain rfl := hg.resolve_right hold
    rw [hnodes]
    exact ⟨hkind, hstart ▸ hname, hrule⟩
  · rw [hnodes] at hkind' hpar
    rcases hnew hc (lt_size_of_kind (by rw [hkind']; nofun)) with rfl | rfl
    · cases hkind.symm.trans hkind'
    · have hparent : (slot b₂.nodes (b.nodes.size + 1)).parent = some b.nodes.size :=
        (congrArg FlatNode.parent hmark :)
      obtain rfl : b.nodes.size = p := Option.some.inj (hparent.symm.trans hpar)
      exact ⟨.opener, .opener rfl (hmarker.congr (by rw [hnodes]))⟩
  · refine absurd ?_ hstill
    unfold openPath at hopen ⊢
    rw [hstack, List.map_cons, List.cons_append, List.mem_cons, h₂.stack_eq, hstack₁]
    refine hopen.symm.imp_left fun hge => ?_
    rw [hnodes] at hk
    refine (hnew hge (lt_size_of_kind (by rw [hk]; nofun))).resolve_right ?_
    rintro rfl
    cases hmarker.kind_eq.symm.trans hk

end Marked

end Builder
end BladeTree
