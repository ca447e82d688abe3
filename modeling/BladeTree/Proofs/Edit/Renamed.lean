import BladeTree.Extension.Scripted
import BladeTree.Proofs.Document.TagSpelling
import BladeTree.Proofs.Edit.Recorded
import BladeTree.Proofs.Edit.Stripped
import BladeTree.Proofs.Edit.Unwrap
import BladeTree.Proofs.Edit.Wrap
import BladeTree.Proofs.Tree.Containers

namespace BladeTree

def NodeEdits.renaming (name : String) : NodeEdits := { empty with newName := some name }

def ElementPart.map (f : Written → Written) : ElementPart → ElementPart
  | child w => child (f w)
  | own token => own token

namespace Document

section Definitions

variable (d : Document)

def isTagName (id : Nat) : Bool := d.kind id == .elementName || d.kind id == .closingElementName

/-- The name or the closing tag of an element whose name has the pattern `tag`. -/
def isNameOf (tag : String) (id : Nat) : Bool :=
  d.isTagName id && (d.node id).parent.any (d.isNamed tag)

def namesOf (tag : String) : List Nat := (List.range d.nodes.size).filter (d.isNameOf tag)

/-- A name in a start tag is exchanged as a whole, a closing tag only up to the end of its name. -/
def renamedName (name : String) (id : Nat) : String :=
  if d.kind id = .closingElementName then d.renamedClosingTag id name else name

def renamed (isName : Nat → Bool) (name : String) (w : Written) : Written :=
  if isName w.id then ⟨w.id, [.plain (d.renamedName name w.id)]⟩ else w

def renameCalls (tag name : String) (id : Nat) : List EditCall :=
  if d.isNamed tag id then [.renameTag name] else []

end Definitions

variable {o : ParseOptions} {text tag name : String} {d : Document} {es : Edits} {id c : Nat}
  {ws : List Written}

/-! One element -/

@[simp] theorem id_renamed (isName : Nat → Bool) (name : String) (w : Written) :
    (d.renamed isName name w).id = w.id := by
  unfold renamed
  split <;> rfl

theorem elementParts_map {f : Written → Written} (hf : ∀ w, (f w).id = w.id) (pos stop : Nat)
    (ws : List Written) :
    d.elementParts pos stop (ws.map f) = (d.elementParts pos stop ws).map (·.map f) := by
  fun_induction elementParts d pos stop ws with
  | case1 w rest hlt ih =>
      rw [List.map_cons, elementParts, dif_pos hlt, hf, if_pos rfl, ih, List.map_cons]
      rfl
  | case2 pos hlt w rest hstart ih =>
      rw [List.map_cons, elementParts, dif_pos hlt, hf, if_neg hstart, ← List.map_cons, ih,
        List.map_cons]
      rfl
  | case3 pos hlt ih =>
      rw [List.map_nil, elementParts, dif_pos hlt, List.map_cons, ← ih]
      rfl
  | case4 pos ws hge => rw [elementParts.eq_def, dif_neg hge, List.map_nil]

theorem isTagName_iff :
    d.isTagName id ↔ d.kind id = .elementName ∨ d.kind id = .closingElementName := by
  rw [isTagName, Bool.or_eq_true, beq_iff_eq, beq_iff_eq]

theorem editPart_renaming (name : String) (tagEnd : Nat) (p : ElementPart) :
    d.editPart (.renaming name) tagEnd p =
      d.editPart (.removing []) tagEnd (p.map (d.renamed d.isTagName name)) := by
  cases p with
  | own token => rfl
  | child w =>
      have hkept (w : Written) := editPart_child (d := d)
        (show (NodeEdits.removing []).newName = none from rfl) tagEnd w
      rw [ElementPart.map, hkept, id_renamed, renamed]
      by_cases hname : d.isTagName w.id
      · rw [if_pos hname, renamedName]
        rcases isTagName_iff.1 hname with hk | hk
        · rw [editPart, hk]
          rfl
        · rw [editPart, hk]
          rfl
      · rw [if_neg hname]
        rw [isTagName_iff, not_or] at hname
        rw [editPart]
        split
        case h_1 hk _ => exact absurd hk hname.1
        case h_2 hk _ => exact absurd hk hname.2
        case h_3 hk => exact (if_pos hk).symm
        case h_4 hk _ _ => exact (if_neg hk).symm

theorem editElement_renaming (name : String) (id : Nat) (ws : List Written) :
    d.editElement (.renaming name) id ws =
      d.editElement (.removing []) id (ws.map (d.renamed d.isTagName name)) := by
  have hbefore (p : ElementPart) : d.isBeforeTagEnd (d.startTagEnd id)
      (p.map (d.renamed d.isTagName name)) = d.isBeforeTagEnd (d.startTagEnd id) p := by
    cases p with
    | own token => rfl
    | child w => unfold isBeforeTagEnd partStart ElementPart.map; simp only [id_renamed]
  have hspan (ps : List ElementPart) :
      (ps.map (·.map (d.renamed d.isTagName name))).span (d.isBeforeTagEnd (d.startTagEnd id)) =
        ((ps.span (d.isBeforeTagEnd (d.startTagEnd id))).1.map (·.map (d.renamed d.isTagName name)),
          (ps.span (d.isBeforeTagEnd (d.startTagEnd id))).2.map
            (·.map (d.renamed d.isTagName name))) := by
    simp only [List.span_eq_takeWhile_dropWhile, List.takeWhile_map, List.dropWhile_map,
      Function.comp_def, hbefore]
  unfold editElement
  simp only
  rw [elementParts_map (id_renamed _ _), hspan, d.newAttributes_eq_nil rfl rfl, d.newAttributes_eq_nil rfl rfl, List.map_map,
    List.map_map, funext (editPart_renaming (d := d) name (d.startTagEnd id))]
  rfl

theorem alike_editElement_renaming (hw : d.toTokenized.Whole) (hwf : d.WellFormed)
    (hsolid : d.Solid id) (hids : ws.map (·.id) = d.children id) (name : String) :
    Piece.Alike (d.editElement (.renaming name) id ws)
      (d.interleave (d.node id).tokenStart (d.node id).tokenEnd
        (ws.map (d.renamed d.isTagName name))) := by
  have hids' : (ws.map (d.renamed d.isTagName name)).map (·.id) = d.children id := by
    rw [List.map_map, ← hids]
    exact List.map_congr_left fun w _ => id_renamed _ _ w
  have halike : Piece.Alike
      (d.editElement (.removing []) id (ws.map (d.renamed d.isTagName name)))
      (d.stripped (fun _ => false) (d.startTagEnd id) (d.node id).tokenStart (d.node id).tokenEnd
        (ws.map (d.renamed d.isTagName name))) :=
    alike_editElement_removing hw hwf hsolid hids' fun _ _ => Bool.and_false _
  rw [stripped_eq_interleave fun _ _ => rfl] at halike
  rw [editElement_renaming]
  exact halike

/-! The recipe -/

theorem records_renameTag (d : Document) (tag name : String) :
    (Recipe.renameTag tag name).visitor.Records d (d.renameCalls tag name) := by
  refine Recipe.records (fun _ => nofun) fun s hdocument => ?_
  rw [Recipe.elementCalls, isElementLike_eq, hdocument, renameCalls]

theorem kind_of_isNamed (h : d.isNamed tag id) : d.kind id = .element :=
  eq_of_beq (Bool.and_eq_true_iff.1 h).1

theorem get?_visit_renameTag (hl : d.outline.Linked) (hpre : d.outline.Preordered)
    (tag name : String) (id : Nat) :
    (d.visit [(Recipe.renameTag tag name).visitor]).edits.get? id =
      if d.isNamed tag id then some (.renaming name) else none := by
  have hcalls (id : Nat) (c : EditCall) (hc : c ∈ d.renameCalls tag name id) :
      d.kind id = .element ∧ c.KeepsElement := by
    unfold renameCalls at hc
    split at hc
    · rename_i hnamed
      rw [List.mem_singleton.1 hc]
      exact ⟨kind_of_isNamed hnamed, nofun, fun _ => rfl⟩
    · cases hc
  rw [get?_visit hl hpre (records_renameTag d tag name) hcalls, renameCalls]
  split
  · exact if_neg (List.cons_ne_nil _ _)
  · exact if_pos rfl

/-! The names by themselves -/

def nameEdits (d : Document) (tag name : String) : Edits :=
  ⟨Array.ofFn fun i : Fin d.nodes.size =>
    if d.isNameOf tag i then some (.replacing [.text (d.renamedName name i)]) else none⟩

theorem isNameOf_child {p : Nat} (hp : (d.node c).parent = some p) :
    d.isNameOf tag c = (d.isTagName c && d.isNamed tag p) := by
  rw [isNameOf, hp, Option.any_some]

theorem exists_parent_of_isNameOf (h : d.isNameOf tag c) :
    ∃ p, (d.node c).parent = some p ∧ d.isTagName c ∧ d.isNamed tag p := by
  obtain ⟨hname, hany⟩ := Bool.and_eq_true_iff.1 h
  obtain ⟨p, hp, hnamed⟩ := (Option.any_eq_true _ _).1 hany
  exact ⟨p, hp, hname, hnamed⟩

theorem lt_size_of_isNameOf (h : d.isNameOf tag id) : id < d.nodes.size := by
  obtain ⟨-, -, hname, -⟩ := exists_parent_of_isNameOf h
  refine lt_size_of_kind fun hdocument => ?_
  rcases isTagName_iff.1 hname with hk | hk
  · cases hdocument.symm.trans hk
  · cases hdocument.symm.trans hk

theorem get?_nameEdits (d : Document) (tag name : String) (id : Nat) :
    (d.nameEdits tag name).get? id =
      if d.isNameOf tag id then some (.replacing [.text (d.renamedName name id)]) else none := by
  unfold nameEdits Edits.get?
  rw [Array.getElem?_ofFn]
  split
  · rfl
  · rename_i hge
    rw [if_neg fun hname => hge (lt_size_of_isNameOf hname)]
    rfl

theorem writeEdited_replacing_text (text : String) (id : Nat) (ws : List Written) :
    d.writeEdited (.replacing [.text text]) id ws = [.plain text] := by
  rw [writeEdited_replacing, NewNode.piecesOf, NewNode.piecesOf, NewNode.pieces, List.append_nil]

theorem isNameOf_ancestor (hl : d.outline.Linked)
    (hcontained : ∀ c p, (d.node c).parent = some p → (d.kind p).isContainer) (tag : String)
    {p : Nat} (hp : p ∈ d.ancestors c) : d.isNameOf tag p = false := by
  obtain ⟨habove, hne⟩ := (mem_ancestors_iff hl p c).1 hp
  obtain ⟨x, hx, -⟩ := habove.cases_head.resolve_left hne
  have hkind := hcontained x p hx
  by_contra hname
  obtain ⟨-, -, hname, -⟩ := exists_parent_of_isNameOf (eq_true_of_ne_false hname)
  rcases isTagName_iff.1 hname with hk | hk
  · rw [hk] at hkind
    cases hkind
  · rw [hk] at hkind
    cases hkind

theorem topmost_nameEdits (hl : d.outline.Linked)
    (hcontained : ∀ c p, (d.node c).parent = some p → (d.kind p).isContainer) (tag name : String) :
    d.topmost (d.nameEdits tag name) = d.namesOf tag := by
  refine List.filter_congr fun id _ => ?_
  rw [Bool.eq_iff_iff, isTopmost_iff, get?_nameEdits]
  constructor
  · rintro ⟨hsome, -⟩
    by_contra hname
    rw [if_neg hname] at hsome
    cases hsome
  · intro hname
    refine ⟨by rw [if_pos hname]; rfl, fun p hp => ?_⟩
    rw [get?_nameEdits, isNameOf_ancestor hl hcontained tag hp]
    rfl

section Written

variable (hw : d.toTokenized.Whole) (hwf : d.WellFormed)
  (hsolid : ∀ id, d.kind id ≠ .attr → d.Solid id)
  (hes : ∀ id, es.get? id = if d.isNamed tag id then some (.renaming name) else none)

theorem map_id_childrenOut (hf : d.Forward) (es : Edits) (id : Nat) :
    (d.childrenOut es id).map (·.id) = d.children id := by
  rw [childrenOut, map_id_writeAll]
  unfold children
  cases (d.node id).firstChild with
  | none => rfl
  | some first => exact map_id_forest hf first

include hw hwf hsolid hes

theorem alike_writtenOut_renaming (id : Nat) : Piece.Alike (d.writtenOut es id)
    (d.interleave (d.node id).tokenStart (d.node id).tokenEnd
      ((d.childrenOut es id).map (d.renamed (d.isNameOf tag) name))) := by
  have hids := map_id_childrenOut hwf.forward es id
  have hparent (w : Written) (hw : w ∈ d.childrenOut es id) : (d.node w.id).parent = some id :=
    (mem_children_iff hwf).1 (hids ▸ List.mem_map_of_mem hw)
  by_cases hnamed : d.isNamed tag id
  · have hkind := kind_of_isNamed hnamed
    have hsame : (d.childrenOut es id).map (d.renamed (d.isNameOf tag) name) =
        (d.childrenOut es id).map (d.renamed d.isTagName name) := by
      refine List.map_congr_left fun w hw => ?_
      rw [renamed, renamed, isNameOf_child (hparent w hw), hnamed, Bool.and_true]
    rw [writtenOut_of_some hwf.forward (by rw [hes, if_pos hnamed]),
      writeEdited_of_inStartTag ⟨rfl, rfl, rfl, rfl, rfl⟩ hkind, hsame]
    exact alike_editElement_renaming hw hwf (hsolid id (by rw [hkind]; nofun)) hids name
  · have hsame : (d.childrenOut es id).map (d.renamed (d.isNameOf tag) name) =
        d.childrenOut es id := by
      refine (List.map_congr_left fun w hw => ?_).trans (List.map_id _)
      rw [renamed, isNameOf_child (hparent w hw), Bool.eq_false_of_not_eq_true hnamed,
        Bool.and_false, if_neg Bool.false_ne_true]
      rfl
    rw [writtenOut_of_none hwf.forward (by rw [hes, if_neg hnamed]), hsame]
    exact .refl _

theorem alike_writtenOut_nameEdits (id : Nat) (hid : d.isNameOf tag id = false) :
    Piece.Alike (d.writtenOut es id) (d.writtenOut (d.nameEdits tag name) id) := by
  have hf := hwf.forward
  revert hid
  refine tree_induction hf
    (P := fun id => d.isNameOf tag id = false →
      Piece.Alike (d.writtenOut es id) (d.writtenOut (d.nameEdits tag name) id))
    (Q := fun id => List.Forall₂ Written.Alike
      ((d.writeAll es (fun _ => true) (d.forest id)).map (d.renamed (d.isNameOf tag) name))
      (d.writeAll (d.nameEdits tag name) (fun _ => true) (d.forest id)))
    ?_ ?_ id
  · intro id ih hid
    have hchildren : List.Forall₂ Written.Alike
        ((d.childrenOut es id).map (d.renamed (d.isNameOf tag) name))
        (d.childrenOut (d.nameEdits tag name) id) := by
      rw [childrenOut, childrenOut]
      cases hchild : (d.node id).firstChild with
      | none => exact .nil
      | some child => exact ih child hchild
    have hnone : (d.nameEdits tag name).get? id = none := by
      rw [get?_nameEdits, hid]
      rfl
    rw [writtenOut_of_none hf hnone]
    exact (alike_writtenOut_renaming hw hwf hsolid hes id).trans (alike_interleave hchildren _ _)
  · intro id hid ih
    rw [forest_eq hf, writeAll, writeAll, List.map_cons]
    refine .cons ⟨id_renamed _ _ _, ?_⟩ ?_
    · rw [renamed, id_tree]
      by_cases hname : d.isNameOf tag id
      · have hedit : (d.nameEdits tag name).get? id =
            some (.replacing [.text (d.renamedName name id)]) := by
          rw [get?_nameEdits, if_pos hname]
        have hwrite : d.write (d.nameEdits tag name) (fun _ => true) (d.tree id) =
            [.plain (d.renamedName name id)] :=
          (writtenOut_of_some hf hedit).trans (writeEdited_replacing_text _ _ _)
        rw [if_pos hname, hwrite]
        exact .refl _
      · rw [if_neg hname]
        exact hid (Bool.eq_false_of_not_eq_true hname)
    · cases hs : (d.node id).nextSibling with
      | none => exact .nil
      | some next => exact ih next hs

end Written

theorem isContainer_of_parse (h : parse o text = .ok d) (c p : Nat)
    (hp : (d.node c).parent = some p) : (d.kind p).isContainer := by
  obtain ⟨lexed, b, -, hb, rfl⟩ := exists_build_of_parse h
  exact Builder.contained_build b hb c p hp

/-- The output is the source with other text in place of the names of the elements that match, one
after another, and of nothing else. Without extensions a closing tag is `</`, the name and other
text, and the name is all that is exchanged. -/
theorem follow_renameTag (h : parse o text = .ok d)
    (hx : ∀ x ∈ o.lexerExtensions, x.OnBoundaries (.ofString text)) (tag name : String) :
    d.follow (.renameTag tag name) = d.replacing (d.renamedName name) 0 (d.namesOf tag) ∧
      d.InOrder 0 (d.namesOf tag) ∧
      (o.lexerExtensions = [] → o.treeExtensions = [] →
        ∀ c ∈ d.namesOf tag, d.kind c = .closingElementName →
          ∃ old rest, d.textOfKind? c .tagName = some old ∧ d.text c = "</" ++ old ++ rest ∧
            d.renamedName name c = "</" ++ name ++ rest) := by
  obtain ⟨hw, hg, hwf, -⟩ := layout_of_parse h hx
  have hcontained := isContainer_of_parse h
  have hes := get?_visit_renameTag hg.linked hg.preordered tag name
  have htop := topmost_nameEdits hg.linked hcontained tag name
  have hsolid (id : Nat) (hid : d.kind id ≠ .attr) : d.Solid id := solid_of_parse h hid
  have hroot : d.isNameOf tag Builder.root = false := by
    refine Bool.eq_false_of_not_eq_true fun hname => ?_
    obtain ⟨p, hp, -⟩ := exists_parent_of_isNameOf hname
    exact Nat.not_lt_zero p (hwf.parent _ p hp).1
  have hpieces (id : Nat) (hid : id ∈ d.namesOf tag) :
      d.pieces (d.nameEdits tag name) id = [.plain (d.renamedName name id)] := by
    rw [pieces, tree_eq hwf.forward, write, get?_nameEdits, if_pos (List.mem_filter.1 hid).2]
    exact writeEdited_replacing_text _ _ _
  refine ⟨?_, htop ▸ (laid_root hw hg hwf.covers.2 _).inOrder, ?_⟩
  · calc d.follow (.renameTag tag name)
      _ = d.edit (d.nameEdits tag name) := by
          rw [follow, transform, edit_eq_join hw hg hwf.covers.2, edit_eq_join hw hg hwf.covers.2]
          exact (alike_writtenOut_nameEdits hw hwf hsolid hes _ hroot).join_eq
      _ = d.replacing (d.renamedName name) 0 (d.namesOf tag) := by
          rw [edit_eq_replacing hw hg hwf.covers.2, htop]
          · refine replacing_congr fun id hid => ?_
            rw [hpieces id hid, concat_plain]
          · rw [htop]
            intro id hid p hp
            rw [hpieces id hid] at hp
            rw [List.mem_singleton.1 hp]
            rfl
  · intro hlexer htree c hc hk
    obtain ⟨p, hp, -, hnamed⟩ := exists_parent_of_isNameOf (List.mem_filter.1 hc).2
    obtain ⟨old, rest, hold, htext, hnew⟩ :=
      exists_text_closing_of_parse hlexer htree h (kind_of_isNamed hnamed) hp hk
    exact ⟨old, rest, hold, htext, (if_pos hk).trans (hnew name)⟩

/-- An element inside of another one, each with its closing tag. -/
theorem follow_renameTag_nested : ∃ d,
    parse (.ofDirectives []) "<b><b>x</b ></b>" = .ok d ∧
      d.namesOf "b" = [2, 4, 6, 7] ∧
      d.follow (.renameTag "b" "i") = d.replacing (d.renamedName "i") 0 (d.namesOf "b") ∧
      d.InOrder 0 (d.namesOf "b") ∧
      ∃ old rest, d.textOfKind? 6 .tagName = some old ∧ d.text 6 = "</" ++ old ++ rest ∧
        d.renamedName "i" 6 = "</" ++ "i" ++ rest := by
  have hread : (parse (.ofDirectives [])
      "<b><b>x</b ></b>").toOption.map (fun d => (d.namesOf "b", d.kind 6)) =
        some ([2, 4, 6, 7], .closingElementName) := by cbv
  obtain ⟨d, hd, hnames⟩ := Option.map_eq_some_iff.1 hread
  simp only [Prod.mk.injEq] at hnames
  have hparse := eq_ok_of_toOption hd
  obtain ⟨hfollow, horder, hclosing⟩ :=
    follow_renameTag hparse (fun _ hx => absurd hx List.not_mem_nil) "b" "i"
  exact ⟨d, hparse, hnames.1, hfollow, horder,
    hclosing rfl rfl 6 (by rw [hnames.1]; decide) hnames.2⟩

/-- Reads `[` as the start of a closing tag with a slash and a name of one byte. -/
def bracketTags : LexerScript where
  name := "x"
  priority := 0
  triggers := ascii "["
  types := []
  lead := ""
  scope := .anywhere
  parts := [⟨.raw TokenType.lessThan.id, .take 1⟩, ⟨.raw TokenType.slash.id, .take 1⟩,
    ⟨.raw TokenType.tagName.id, .take 1⟩]
  claims := true
  minTokens := none

def bracketOptions : ParseOptions :=
  { ParseOptions.ofDirectives [] with lexerExtensions := [bracketTags.extension] }

/-- The start of a closing tag is written anew, too, so that it changes where an extension reads
other text as such. -/
theorem follow_renameTag_bracket : ∃ d,
    parse bracketOptions "<a>x[/a" = .ok d ∧ d.closingTag? 1 = some 4 ∧ d.text 4 = "[/a" ∧
      d.textOfKind? 4 .tagName = some "a" ∧ d.follow (.renameTag "a" "b") = "<b>x</b" ∧
      d.follow (.renameTag "a" "b") ≠ "<b>x[/b" := by
  have hread : (parse bracketOptions "<a>x[/a").toOption.map (fun d => (d.closingTag? 1, d.text 4,
      d.textOfKind? 4 .tagName, d.follow (.renameTag "a" "b"))) =
        some (some 4, "[/a", some "a", "<b>x</b") := by cbv
  obtain ⟨d, hd, hall⟩ := Option.map_eq_some_iff.1 hread
  simp only [Prod.mk.injEq] at hall
  obtain ⟨hclosing, htext, hname, hfollow⟩ := hall
  exact ⟨d, eq_ok_of_toOption hd, hclosing, htext, hname, hfollow, hfollow ▸ by decide⟩

end Document
end BladeTree
