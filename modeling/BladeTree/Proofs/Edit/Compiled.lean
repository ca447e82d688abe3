import BladeTree.Proofs.Edit.Recorded
import BladeTree.Proofs.Edit.Stripped
import BladeTree.Proofs.Edit.WrittenOut
import BladeTree.Proofs.Text.Glob

namespace BladeTree

theorem flatMap_filter {α β : Type} (p : α → Bool) (f : α → List β) (as : List α) :
    (as.filter p).flatMap f = as.flatMap fun a => if p a then f a else [] := by
  induction as with
  | nil => rfl
  | cons a as ih =>
      rw [List.filter_cons, List.flatMap_cons]
      split
      · rw [List.flatMap_cons, ih]
      · rw [List.nil_append, ih]

/-- What is put around an element for one of its attributes. -/
def AttributeDirective.surround (a : AttributeDirective) (value : Option String) : Surround :=
  ⟨NewNode.directiveText a.directive (value.map WhiteSpace.trim), NewNode.endDirective a.directive,
    true⟩

namespace Document

section Definitions

variable (handlers : List AttributeDirective) (d : Document)

def handler? (id c : Nat) : Option AttributeDirective :=
  if d.kind id = .element ∧ d.kind c = .attr then
    handlers.find? (·.name == d.attributeName c)
  else none

/-- The directives for the attributes of an element, in the order of the attributes. -/
def directives (id : Nat) : List Surround :=
  (d.children id).filterMap fun c =>
    (d.handler? handlers id c).map (·.surround (d.attributeValue? c))

def claimedNames (id : Nat) : List String :=
  (d.children id).filterMap fun c => (d.handler? handlers id c).map (·.name)

mutual

/-- A node with all elements in it compiled: without the attributes that became directives, and with
these around it, the first of them outermost. -/
def compiled : Tree → List Piece
  | .node id children =>
    (d.directives handlers id).map (·.before) ++
      d.stripped (fun c => (d.handler? handlers id c).isSome) (d.startTagEnd id)
        (d.node id).tokenStart (d.node id).tokenEnd (compiledAll children) ++
      (d.directives handlers id).reverse.map (·.after)

def compiledAll : List Tree → List Written
  | [] => []
  | t :: rest => ⟨t.id, compiled t⟩ :: compiledAll rest

end

def compileCalls (id : Nat) : List EditCall :=
  (d.children id).reverse.flatMap fun c =>
    (d.handler? handlers id c).elim [] (·.calls (d.attributeValue? c))

end Definitions

end Document

namespace NodeEdits

def compiling (names : List String) (ss : List Surround) : NodeEdits :=
  { removing names with surrounds := ss }

theorem foldl_calls (handler : Nat → Option AttributeDirective) (value : Nat → Option String)
    (cs : List Nat) (names : List String) (ss : List Surround) :
    (cs.flatMap fun c => (handler c).elim [] (·.calls (value c))).foldl EditCall.record
      (compiling names ss) =
      compiling (names ++ cs.filterMap fun c => (handler c).map (·.name))
        (ss ++ cs.filterMap fun c => (handler c).map (·.surround (value c))) := by
  induction cs generalizing names ss with
  | nil =>
      rw [List.filterMap_nil, List.filterMap_nil, List.append_nil, List.append_nil]
      rfl
  | cons c cs ih =>
      rw [List.flatMap_cons, List.foldl_append]
      cases hc : handler c with
      | none =>
          rw [List.filterMap_cons_none (by rw [hc]; rfl), List.filterMap_cons_none (by rw [hc]; rfl)]
          exact ih names ss
      | some a =>
          have hstep : (a.calls (value c)).foldl EditCall.record (compiling names ss) =
              compiling (names ++ [a.name]) (ss ++ [a.surround (value c)]) := rfl
          rw [Option.elim_some, hstep, ih, List.append_assoc, List.append_assoc,
            List.filterMap_cons_some (by rw [hc]; rfl), List.filterMap_cons_some (by rw [hc]; rfl)]
          rfl

end NodeEdits

/-- What the recipe leaves of a document: each node has its directives and loses the attributes that
they come from, both from the last to the first. -/
def Edits.Compiles (es : Edits) (handlers : List AttributeDirective) (d : Document) : Prop :=
  ∀ id, es.get? id = if d.directives handlers id = [] then .none
    else some (.compiling (d.claimedNames handlers id).reverse (d.directives handlers id).reverse)

namespace Document

variable {o : ParseOptions} {text : String} {handlers : List AttributeDirective} {d : Document}
  {id : Nat} {ws : List Written}

theorem records_compile (handlers : List AttributeDirective) (d : Document) :
    (Recipe.compileAttributeDirectives handlers).visitor.Records d (d.compileCalls handlers) := by
  refine Recipe.records (fun _ => nofun) ?_
  intro s hdocument
  subst hdocument
  rw [Recipe.elementCalls, compileCalls]
  by_cases hid : s.isElement
  · have hkind : s.document.kind s.id = .element := by simpa [Site.isElement, Site.kind] using hid
    rw [if_pos hid, Recipe.attributeDirectiveCalls, attributes, childrenOfKind,
      ← List.filter_reverse, flatMap_filter]
    apply List.flatMap_congr
    intro c _
    simp only [handler?, hkind, true_and, decide_eq_true_eq]
    split
    · cases handlers.find? (·.name == s.document.attributeName c) with
      | none => rfl
      | some a => rfl
    · rfl
  · have hkind : s.document.kind s.id ≠ .element := by simpa [Site.isElement, Site.kind] using hid
    rw [if_neg hid, eq_comm, List.flatMap_eq_nil_iff]
    intro c _
    rw [handler?, if_neg fun h => hkind h.1]
    rfl

theorem handler?_eq_some {c : Nat} {a : AttributeDirective} (h : d.handler? handlers id c = some a) :
    d.kind id = .element ∧ d.kind c = .attr ∧ a ∈ handlers ∧ a.name = d.attributeName c := by
  rw [handler?] at h
  split at h
  · rename_i hkinds
    exact ⟨hkinds.1, hkinds.2, List.mem_of_find?_eq_some h, eq_of_beq (List.find?_some h :)⟩
  · cases h

theorem keepsElement_of_mem_compileCalls {c : EditCall} (h : c ∈ d.compileCalls handlers id) :
    d.kind id = .element ∧ c.KeepsElement := by
  obtain ⟨x, -, hc⟩ := List.mem_flatMap.1 h
  cases hx : d.handler? handlers id x with
  | none =>
      rw [hx] at hc
      cases hc
  | some a =>
      rw [hx, Option.elim_some, AttributeDirective.calls] at hc
      refine ⟨(handler?_eq_some hx).1, ?_⟩
      rcases List.mem_cons.1 hc with rfl | hc
      · exact ⟨nofun, fun _ => rfl⟩
      · rw [List.mem_singleton.1 hc]
        exact ⟨nofun, fun _ => rfl⟩

theorem compiles_visit (hl : d.outline.Linked) (hpre : d.outline.Preordered)
    (handlers : List AttributeDirective) :
    (d.visit [(Recipe.compileAttributeDirectives handlers).visitor]).edits.Compiles handlers d := by
  intro id
  have hnil : d.compileCalls handlers id = [] ↔ d.directives handlers id = [] := by
    rw [compileCalls, directives, List.flatMap_eq_nil_iff, List.filterMap_eq_nil_iff]
    simp only [List.mem_reverse, Option.map_eq_none_iff]
    apply forall_congr'
    intro c
    apply imp_congr_right
    intro _
    cases d.handler? handlers id c with
    | none => exact iff_of_true rfl rfl
    | some a => exact iff_of_false (List.cons_ne_nil _ _) (Option.some_ne_none a)
  have hcalls : (d.compileCalls handlers id).foldl EditCall.record .empty =
      .compiling (d.claimedNames handlers id).reverse (d.directives handlers id).reverse := by
    rw [claimedNames, directives, ← List.filterMap_reverse, ← List.filterMap_reverse]
    exact NodeEdits.foldl_calls (d.handler? handlers id) d.attributeValue? _ [] []
  rw [get?_visit hl hpre (records_compile handlers d) (fun _ _ => keepsElement_of_mem_compileCalls),
    hcalls]
  exact if_congr hnil rfl rfl

/-! What is written -/

theorem writeEdited_compiling {names : List String} (hid : d.kind id = .element)
    (hnonempty : names ≠ []) (ss : List Surround) (ws : List Written) :
    d.writeEdited (.compiling names ss) id ws =
      ss.reverse.map (·.before) ++ d.editElement (.removing names) id ws ++ ss.map (·.after) := by
  have hchanges : (NodeEdits.compiling names ss).changesStartTag := by
    simp [NodeEdits.changesStartTag, NodeEdits.compiling, NodeEdits.removing, hnonempty]
  have hbody : d.writeBody (.compiling names ss) id ws = d.editElement (.removing names) id ws := by
    rw [writeBody, writeCore]
    exact if_pos ⟨hid, hchanges⟩
  rw [writeEdited, hbody]
  simp [NodeEdits.compiling, NodeEdits.removing, NodeEdits.empty, NewNode.piecesOf]

section Writer

variable (hnames : ∀ a ∈ handlers, Glob.IsLiteral a.name)
include hnames

theorem losesPart_compiling {w : Written} (hw : w.id ∈ d.children id)
    (hid : d.kind id = .element) :
    d.losesPart (.removing (d.claimedNames handlers id).reverse) (.child w) =
      (d.handler? handlers id w.id).isSome := by
  rw [losesPart_child, Bool.eq_iff_iff, Bool.and_eq_true, beq_iff_eq, NodeEdits.removesAttribute,
    List.any_eq_true, Option.isSome_iff_exists]
  constructor
  · rintro ⟨hkind, name, hname, hmatch⟩
    obtain ⟨c, -, hc⟩ := List.mem_filterMap.1 (List.mem_reverse.1 hname)
    obtain ⟨a, ha, rfl⟩ := Option.map_eq_some_iff.1 hc
    obtain ⟨-, -, hmem, -⟩ := handler?_eq_some ha
    have hown : a.name = d.attributeName w.id := (hnames a hmem).globMatch_iff.1 hmatch
    rw [handler?, if_pos ⟨hid, hkind⟩, ← Option.isSome_iff_exists, List.find?_isSome]
    exact ⟨a, hmem, beq_iff_eq.2 hown⟩
  · rintro ⟨a, ha⟩
    obtain ⟨-, hkind, hmem, hname⟩ := handler?_eq_some ha
    have hclaimed : a.name ∈ d.claimedNames handlers id :=
      List.mem_filterMap.2 ⟨w.id, hw, by rw [ha]; rfl⟩
    exact ⟨hkind, a.name, List.mem_reverse.2 hclaimed, (hnames a hmem).globMatch_iff.2 hname⟩

variable (h : parse o text = .ok d) (hx : ∀ x ∈ o.lexerExtensions, x.OnBoundaries (.ofString text))
include h hx

variable {es : Edits} (hes : es.Compiles handlers d)
include hes

theorem alike_compiled_node (id : Nat) : Piece.Alike (d.writtenOut es id)
    ((d.directives handlers id).map (·.before) ++
      d.stripped (fun c => (d.handler? handlers id c).isSome) (d.startTagEnd id)
        (d.node id).tokenStart (d.node id).tokenEnd (d.childrenOut es id) ++
      (d.directives handlers id).reverse.map (·.after)) := by
  obtain ⟨hw, hg, hwf, -⟩ := layout_of_parse h hx
  have hf := hwf.forward
  have hids : (d.childrenOut es id).map (·.id) = d.children id := by
    rw [childrenOut, map_id_writeAll, children]
    cases (d.node id).firstChild with
    | none => rfl
    | some child => exact map_id_forest hf child
  by_cases hnil : d.directives handlers id = []
  · have hnone : ∀ w ∈ d.childrenOut es id, (d.handler? handlers id w.id).isSome = false := by
      intro w hw
      have hmem : w.id ∈ d.children id := hids ▸ List.mem_map_of_mem hw
      have hno := List.filterMap_eq_nil_iff.1 hnil w.id hmem
      rw [Option.map_eq_none_iff.1 hno]
      rfl
    rw [writtenOut_of_none hf (by rw [hes, if_pos hnil]), hnil, stripped_eq_interleave hnone]
    simp only [List.map_nil, List.reverse_nil, List.nil_append, List.append_nil]
    exact .refl _
  · obtain ⟨s, hs⟩ := List.exists_mem_of_ne_nil _ hnil
    obtain ⟨c, hc, hsome⟩ := List.mem_filterMap.1 hs
    obtain ⟨a, ha, -⟩ := Option.map_eq_some_iff.1 hsome
    have hid := (handler?_eq_some ha).1
    have hclaimed : a.name ∈ d.claimedNames handlers id :=
      List.mem_filterMap.2 ⟨c, hc, by rw [ha]; rfl⟩
    have hgoes : ∀ w ∈ d.childrenOut es id, _ = (d.handler? handlers id w.id).isSome :=
      fun w hw => losesPart_compiling hnames (hids ▸ List.mem_map_of_mem hw) hid
    have hsolid : d.Solid id := solid_of_parse h (by rw [hid]; decide)
    rw [writtenOut_of_some hf (by rw [hes, if_neg hnil]),
      writeEdited_compiling hid (List.ne_nil_of_mem (List.mem_reverse.2 hclaimed)),
      List.reverse_reverse]
    refine ((Piece.Alike.refl _).append ?_).append (.refl _)
    exact alike_editElement_removing hw hwf hsolid hids hgoes

/-- The writer puts out the same as if the document were compiled from the leaves up. -/
theorem alike_compiled (id : Nat) :
    Piece.Alike (d.writtenOut es id) (d.compiled handlers (d.tree id)) := by
  have hf := (wellFormed_of_parse h).forward
  refine tree_induction hf
    (P := fun id => Piece.Alike (d.writtenOut es id) (d.compiled handlers (d.tree id)))
    (Q := fun id => List.Forall₂ Written.Alike (d.writeAll es (fun _ => true) (d.forest id))
      (d.compiledAll handlers (d.forest id)))
    ?_ ?_ id
  · intro id ih
    have hchildren : List.Forall₂ Written.Alike (d.childrenOut es id)
        (d.compiledAll handlers ((d.node id).firstChild.elim [] d.forest)) := by
      rw [childrenOut]
      cases hchild : (d.node id).firstChild with
      | none => exact .nil
      | some child => exact ih child hchild
    have hnode := alike_compiled_node hnames h hx hes id
    rw [tree_eq hf, compiled]
    exact hnode.trans (((Piece.Alike.refl _).append (alike_stripped hchildren)).append (.refl _))
  · intro id hid ih
    rw [forest_eq hf, writeAll, compiledAll]
    refine .cons ⟨rfl, hid⟩ ?_
    cases hs : (d.node id).nextSibling with
    | none => exact .nil
    | some next => exact ih next hs

end Writer

/-- The recipe turns every element with attributes that it takes care of into nested directives with
the element in the middle, in the order of the attributes. All that is added besides are spaces that
keep directives apart. -/
theorem follow_compileAttributeDirectives (hnames : ∀ a ∈ handlers, Glob.IsLiteral a.name)
    (h : parse o text = .ok d) (hx : ∀ x ∈ o.lexerExtensions, x.OnBoundaries (.ofString text)) :
    Piece.Separated false (d.compiled handlers (d.tree Builder.root))
      (d.follow (.compileAttributeDirectives handlers)) := by
  obtain ⟨hw, hg, hwf, -⟩ := layout_of_parse h hx
  have hes := compiles_visit hg.linked hg.preordered handlers
  rw [follow, transform, edit_eq_join hw hg hwf.covers.2, (alike_compiled hnames h hx hes _).join_eq]
  exact Output.separated_join _

end Document

theorem AttributeDirective.isLiteral_standard :
    ∀ a ∈ AttributeDirective.standard, Glob.IsLiteral a.name := by
  simp only [standard, List.map_cons, List.map_nil, List.forall_mem_cons, named, Glob.IsLiteral]
  decide

/-- Two attributes of one name around an element with a bare one. -/
theorem Document.follow_compileAttributeDirectives_nested : ∃ d,
    parse (.ofDirectives []) "<p #if=\"a\" #if=\"b\"><b #auth>x</b></p>" = .ok d ∧
      Piece.Separated false (d.compiled AttributeDirective.standard (d.tree Builder.root))
        (d.follow (.compileAttributeDirectives AttributeDirective.standard)) := by
  have hread : (parse (.ofDirectives [])
      "<p #if=\"a\" #if=\"b\"><b #auth>x</b></p>").toBool := by cbv
  obtain ⟨d, hd⟩ := exists_eq_ok_of_toBool hread
  exact ⟨d, hd, follow_compileAttributeDirectives AttributeDirective.isLiteral_standard hd
    fun _ hx => absurd hx List.not_mem_nil⟩

end BladeTree
