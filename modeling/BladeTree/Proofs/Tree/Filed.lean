import BladeTree.Proofs.Tree.Phases
import BladeTree.Proofs.Tree.Upheld

namespace BladeTree
namespace Builder

variable {t : Tokenized} {b b' : Builder} {e : Enclosure} {zone : Zone} {q id i : Nat}
  {kind : NodeKind}

/-! Constructs with delimiters -/

theorem eat_rest (b : Builder) (kind : TokenType) :
    Build.Returns (b.eat t kind) fun (_, b') => b' = { b with pos := b'.pos } ∧ b.pos ≤ b'.pos := by
  unfold eat
  refine .ite (fun _ => ?_) fun _ => .ok ⟨rfl, le_rfl⟩
  refine (returns_bump b).bind fun b' ⟨_, hb'⟩ => .ok ?_
  subst hb'
  exact ⟨rfl, Nat.le_succ _⟩

structure Appends (b : Builder) (q : Nat) (kind : NodeKind) (b' : Builder) : Prop where
  final : Final b b'
  stack : b'.stack = b.stack
  size : b'.nodes.size = b.nodes.size + 1
  origin : (slot b'.nodes b.nodes.size).origin = (kind, b.pos, some q)
  stop : (slot b'.nodes b.nodes.size).tokenEnd = b'.pos

theorem Appends.of_steps {b₁ b₂ b₃ : Builder} (h₁ : b.startIn q kind = .ok (id, b₁))
    (h₂ : b₂ = { b₁ with pos := b₂.pos }) (hle : b₁.pos ≤ b₂.pos)
    (h₃ : b₂.finish id = .ok b₃) : b.Appends q kind b₃ := by
  have hs : b.Starts q kind id b₁ := (startIn_starts b q kind).returns _ h₁
  obtain ⟨hfinal₁, hnew⟩ := (Final.refl b).startIn q kind _ h₁
  obtain ⟨ha, hb₃⟩ := alters_finishAt _ _ _ _ h₃
  have hnodes : b₂.nodes = b₁.nodes := by rw [h₂]
  have hopen : b₂.openPath = b₁.openPath := openPath_congr (by rw [h₂])
  have hfinal₂ : Final b b₂ := hfinal₁.of_nodes hnodes fun i hi => hopen ▸ hi
  have hpos : b₁.pos = b.pos := by rw [hs.rest]
  have hpos' : b₃.pos = b₂.pos := by rw [hb₃]
  obtain rfl := hs.id_eq
  have hself := ha.self
  rw [hnodes] at hself
  refine ⟨hfinal₂.finishAt (.inr hnew) _ _ h₃, ?_, ?_, ?_, ?_⟩
  · rw [hb₃, h₂, hs.rest]
  · rw [ha.size, hnodes, hs.size]
  · rw [hself]
    exact congrArg (fun core => (core.1, core.2.1, core.2.2.1)) hs.new
  · have hend : (slot b₃.nodes b.nodes.size).tokenEnd = b.pos + (b₂.pos - b.pos) := by
      rw [hself, ← hs.tokenStart_eq]
      rfl
    rw [hend, hpos', Nat.add_sub_cancel' (hpos ▸ hle)]

theorem ReadsDelimited.appends {content stopType : TokenType}
    (h : ReadsDelimited t q kind content stopType b b') : b.Appends q kind b' := by
  induction h with
  | @read id b₁ b₂ b₃ b₄ b₅ ate closed h₁ h₂ h₃ h₄ h₅ =>
      obtain ⟨-, hb₂⟩ := returns_bump _ _ h₂
      obtain ⟨hb₃, hle₃⟩ := eat_rest _ _ _ h₃
      obtain ⟨hb₄, hle₄⟩ := eat_rest _ _ _ h₄
      have hpos₂ : b₂.pos = b₁.pos + 1 := by rw [hb₂]
      refine .of_steps h₁ ?_ (by omega) h₅
      rw [hb₄, hb₃, hb₂]
  | report _ _ hb ih =>
      obtain ⟨span, -, rfl⟩ := returns_report _ _ _ _ _ _ _ hb
      exact ⟨ih.final.of_nodes rfl (List.Subset.refl _), ih.stack, ih.size, ih.origin, ih.stop⟩

/-- From `b` to `b'` a construct was read into one new node, from its first token on. The text goes
on in the zone. -/
structure Encloses (t : Tokenized) (e : Enclosure) (zone : Zone) (q : Nat) (b b' : Builder) :
    Prop where
  appends : b.Appends q e.nodeKind b'
  takes : Takes t (fun kind => kind = e.opening ∨ kind = e.content ∨ kind = e.closing)
    (· = e.nodeKind) b b'
  opens : t.kind? b.pos = some e.opening
  follows : t.Follows (.between zone) b'.pos

section Constructs

variable (hk : t.kind? b.pos = some e.opening) (hfollows : t.Follows (.opened e zone) (b.pos + 1))
include hfollows

theorem ReadsDelimited.follows
    (h : ReadsDelimited t q e.nodeKind e.content e.closing b b') :
    t.Follows (.between zone) b'.pos := by
  induction h with
  | @read id b₁ b₂ b₃ b₄ b₅ ate closed h₁ h₂ h₃ h₄ h₅ =>
      have hs : b.Starts q e.nodeKind id b₁ := (startIn_starts b q e.nodeKind).returns _ h₁
      obtain ⟨-, hb₂⟩ := returns_bump _ _ h₂
      obtain ⟨-, hb₅⟩ := alters_finishAt _ _ _ _ h₅
      have hpos₂ : b₂.pos = b.pos + 1 := by rw [hb₂, hs.rest]
      have hpos₅ : b₅.pos = b₄.pos := by rw [hb₅]
      have hcontent := Phase.next?_of_continue? (Phase.continue?_content e zone)
      rw [← hpos₂] at hfollows
      have hread := follows_eat hfollows hcontent _ h₃
      rw [hpos₅]
      refine follows_closing ?_ _ h₄
      cases ate with
      | true => exact .inl hread
      | false => exact .inr hread
  | report _ _ hb ih =>
      obtain ⟨span, -, rfl⟩ := returns_report _ _ _ _ _ _ _ hb
      exact ih

include hk

theorem ReadsDelimited.encloses
    (h : ReadsDelimited t q e.nodeKind e.content e.closing b b') : Encloses t e zone q b b' := by
  have htakes : Takes t (fun kind => kind = e.opening ∨ kind = e.content ∨ kind = e.closing)
      (· = e.nodeKind) b b := .refl b
  exact ⟨h.appends, htakes.delimitedPart hk (.inl rfl) rfl (.inr (.inl rfl)) (.inr (.inr rfl)) h,
    hk, h.follows hfollows⟩

theorem encloses_echo (q : Nat) (hcontent : e.content = .echoContent) (delimiter : String) :
    Build.Returns (b.echo t q e.nodeKind e.closing delimiter) (Encloses t e zone q b) := by
  have hread := reads_echo (t := t) b q e.nodeKind e.closing delimiter
  rw [← hcontent] at hread
  exact hread.mono fun _ h => h.encloses hk hfollows

theorem encloses_delimited (q : Nat) (endName : Option String) :
    Build.Returns (b.delimited t q e.nodeKind e.content e.closing endName) (Encloses t e zone q b) :=
  (reads_delimited b q _ _ _ endName).mono fun _ h => h.encloses hk hfollows

end Constructs

theorem encloses_verbatim (hk : t.kind? b.pos = some .verbatimStart)
    (hfollows : t.Follows (.opened .verbatim zone) (b.pos + 1)) (q : Nat) :
    Build.Returns (b.verbatim t q) (Encloses t .verbatim zone q b) :=
  (reads_verbatim b q).mono fun _ h => h.encloses (e := .verbatim) hk hfollows

/-! Where delimiters are filed -/

/-- Token `i` belongs to the node `id`, which is finished and begins with the opening token. -/
structure FiledIn (t : Tokenized) (b : Builder) (e : Enclosure) (id i : Nat) : Prop where
  kind : (slot b.nodes id).kind = e.nodeKind
  closed : id ∉ b.openPath
  opens : t.kind? (slot b.nodes id).tokenStart = some e.opening
  start : (slot b.nodes id).tokenStart ≤ i
  stop : i < (slot b.nodes id).tokenEnd

/-- The nodes of text hold text, and the delimiters that were read are in nodes of their own. -/
structure Filed (t : Tokenized) (b : Builder) : Prop where
  text : ∀ id, (slot b.nodes id).kind = .text → id ∉ b.openPath ∧
    ∀ i, (slot b.nodes id).tokenStart ≤ i → i < (slot b.nodes id).tokenEnd → t.kind? i = some .text
  delimiter : ∀ i kind e, i < b.pos → t.kind? i = some kind → Enclosure.of? kind = some e →
    ∃ id, b.FiledIn t e id i

theorem FiledIn.keep (h : b.FiledIn t e id i) (hf : Final b b') : b'.FiledIn t e id i := by
  have hlt : id < b.nodes.size := by
    apply lt_size_of_kind
    rw [h.kind]
    exact e.nodeKind_ne.1
  have hown := hf.own id hlt h.closed
  have hkind : (slot b'.nodes id).kind = (slot b.nodes id).kind := (congrArg FlatNode.kind hown :)
  have hstart : (slot b'.nodes id).tokenStart = (slot b.nodes id).tokenStart :=
    (congrArg FlatNode.tokenStart hown :)
  have hend : (slot b'.nodes id).tokenEnd = (slot b.nodes id).tokenEnd :=
    (congrArg FlatNode.tokenEnd hown :)
  exact ⟨hkind.trans h.kind, fun hopen => h.closed (hf.opened id hopen hlt), hstart ▸ h.opens,
    hstart ▸ h.start, hend ▸ h.stop⟩

namespace Filed

variable (h : b.Filed t)
include h

theorem keep (hf : Final b b')
    (hkind : ∀ id < b.nodes.size, (slot b'.nodes id).kind = (slot b.nodes id).kind)
    (htext : ∀ id, b.nodes.size ≤ id → (slot b'.nodes id).kind = .text → id ∉ b'.openPath ∧
      ∀ i, (slot b'.nodes id).tokenStart ≤ i → i < (slot b'.nodes id).tokenEnd →
        t.kind? i = some .text)
    (hdelimiter : ∀ i kind e, b.pos ≤ i → i < b'.pos → t.kind? i = some kind →
      Enclosure.of? kind = some e → ∃ id, b'.FiledIn t e id i) : b'.Filed t where
  text id hk := by
    rcases Nat.lt_or_ge id b.nodes.size with hold | hnew
    · obtain ⟨hclosed, hrun⟩ := h.text id ((hkind id hold).symm.trans hk)
      have hown := hf.own id hold hclosed
      have hstart : (slot b'.nodes id).tokenStart = (slot b.nodes id).tokenStart :=
        (congrArg FlatNode.tokenStart hown :)
      have hend : (slot b'.nodes id).tokenEnd = (slot b.nodes id).tokenEnd :=
        (congrArg FlatNode.tokenEnd hown :)
      exact ⟨fun hopen => hclosed (hf.opened id hopen hold), hstart ▸ hend ▸ hrun⟩
    · exact htext id hnew hk
  delimiter i kind e hi hk he := by
    rcases Nat.lt_or_ge i b.pos with hold | hnew
    · obtain ⟨id, hid⟩ := h.delimiter i kind e hold hk he
      exact ⟨id, hid.keep hf⟩
    · exact hdelimiter i kind e hnew hi hk he

theorem quiet (hf : Final b b')
    (ht : Takes t (fun kind => Enclosure.of? kind = none) (· ≠ .text) b b') : b'.Filed t := by
  refine h.keep hf ht.kind (fun id hnew hk => ?_) fun i kind e hi hlt hk he => ?_
  · have hlt : id < b'.nodes.size := lt_size_of_kind (by rw [hk]; nofun)
    exact absurd hk (ht.fresh id hnew hlt)
  · obtain ⟨kind', hk', hnone⟩ := ht.each i hi hlt
    cases hk.symm.trans hk'
    cases he.symm.trans hnone

theorem encloses (hopen : ∀ id ∈ b.openPath, id < b.nodes.size) (hr : Encloses t e zone q b b') :
    b'.Filed t := by
  refine h.keep hr.appends.final hr.takes.kind (fun id hnew hk => ?_) fun i kind e' hi hlt hk he => ?_
  · have hlt : id < b'.nodes.size := lt_size_of_kind (by rw [hk]; nofun)
    exact absurd ((hr.takes.fresh id hnew hlt).symm.trans hk) e.nodeKind_ne.2.1
  · obtain ⟨kind', hk', hcases⟩ := hr.takes.each i hi hlt
    cases hk.symm.trans hk'
    obtain ⟨hopens, hcontent, hcloses⟩ := e.of?_eq
    have heq : e' = e := by
      rcases hcases with rfl | rfl | rfl
      · exact Option.some.inj (he.symm.trans hopens)
      · cases he.symm.trans hcontent
      · exact Option.some.inj (he.symm.trans hcloses)
    subst heq
    have hkind := congrArg (·.1) hr.appends.origin
    have hstart := congrArg (·.2.1) hr.appends.origin
    have hclosed : b.nodes.size ∉ b'.openPath := by
      rw [openPath_congr hr.appends.stack]
      exact fun hmem => (hopen _ hmem).false
    exact ⟨_, hkind, hclosed, (congrArg t.kind? hstart).trans hr.opens, hstart.trans_le hi,
      hlt.trans_eq hr.appends.stop.symm⟩

end Filed
end Builder
end BladeTree
