import BladeTree.Proofs.Document.Implied
import BladeTree.Proofs.Edit.Parts
import BladeTree.Proofs.Tree.ElementEnds

namespace BladeTree

/-- The ways in which an element ends: with a closing tag, without one or with its start tag. -/
inductive ElementEnd where
  | paired
  | synthetic
  | empty
  deriving DecidableEq, Repr

namespace Document

variable {o : ParseOptions} {text : String} {d : Document} {b : Builder} {id c e pos stop : Nat}
  {cs : List Nat}

/-- What shows that the element `id` ended so. -/
def Ends (d : Document) (id : Nat) : ElementEnd → Prop
  | .paired => d.hasFlag id .paired ∧ d.closedBy? id = none ∧
      ∃ c name, (d.node id).lastChild = some c ∧ d.childrenOfKind id .closingElementName = [c] ∧
        d.textOfKind? c .tagName = some name ∧ sameName (d.elementName id) name
  | .synthetic => d.hasFlag id .syntheticClose ∧ d.childrenOfKind id .closingElementName = [] ∧
      ∃ reason, d.closedBy? id = some reason ∧
        (d.hasFlag id .unclosedStartTag ↔ reason = .unterminatedStartTag)
  | .empty => (d.hasFlag id .void ∨ d.hasFlag id .selfClosing) ∧ d.closedBy? id = none ∧
      d.childrenOfKind id .closingElementName = [] ∧ d.content id = []

theorem Ends.unique {a a' : ElementEnd} (h : d.Ends id a) (h' : d.Ends id a') : a = a' := by
  cases a with
  | paired =>
      obtain ⟨-, hreason, c, -, -, hclosing, -⟩ := h
      cases a' with
      | paired => rfl
      | synthetic =>
          obtain ⟨-, -, reason, hreason', -⟩ := h'
          cases hreason.symm.trans hreason'
      | empty =>
          obtain ⟨-, -, hnone, -⟩ := h'
          cases hclosing.symm.trans hnone
  | synthetic =>
      obtain ⟨-, hnone, reason, hreason, -⟩ := h
      cases a' with
      | paired =>
          obtain ⟨-, hreason', -⟩ := h'
          cases hreason.symm.trans hreason'
      | synthetic => rfl
      | empty =>
          obtain ⟨-, hreason', -⟩ := h'
          cases hreason.symm.trans hreason'
  | empty =>
      obtain ⟨-, hreason, hnone, -⟩ := h
      cases a' with
      | paired =>
          obtain ⟨-, -, c, -, -, hclosing, -⟩ := h'
          cases hclosing.symm.trans hnone
      | synthetic =>
          obtain ⟨-, -, reason, hreason', -⟩ := h'
          cases hreason.symm.trans hreason'
      | empty => rfl

/-! Closing tags -/

theorem childrenOfKind_closing_eq_nil (hw : d.WellFormed)
    (h : ∀ c, (d.node c).parent = some id → d.kind c ≠ .closingElementName) :
    d.childrenOfKind id .closingElementName = [] := by
  unfold childrenOfKind
  rw [List.filter_eq_nil_iff]
  intro c hc
  rw [decide_eq_true_iff]
  exact h c ((mem_children_iff hw).1 hc)

theorem childrenOfKind_closing_eq_singleton (hw : d.WellFormed)
    (hc : (d.node c).parent = some id ∧ d.kind c = .closingElementName)
    (honly : ∀ x, (d.node x).parent = some id → d.kind x = .closingElementName → x = c) :
    d.childrenOfKind id .closingElementName = [c] := by
  have hnodup : (d.childrenOfKind id .closingElementName).Nodup := (nodup_children hw id).filter _
  rw [← List.perm_singleton, List.perm_ext_iff_of_nodup hnodup (List.nodup_singleton _)]
  intro x
  unfold childrenOfKind
  rw [List.mem_filter, mem_children_iff hw, decide_eq_true_iff, List.mem_singleton]
  constructor
  · exact fun ⟨hp, hk⟩ => honly x hp hk
  · rintro rfl
    exact hc

theorem textOfKind?_closing {name : String} {n : Nat}
    (hnamed : ∀ i, d.kind? i = some .slash → d.kind? (i + 1) = some .tagName)
    (htag : d.toTokenized.ClosingTagAt (d.node c).tokenStart name) (hn : 3 ≤ n)
    (hcount : (d.node c).tokenCount = n) : d.textOfKind? c .tagName = some name := by
  have hk := hnamed _ htag.slash
  obtain ⟨u, hu, hkind⟩ := Option.map_eq_some_iff.1 hk
  have htext := htag.named
  unfold Tokenized.text Tokenized.token at htext
  rw [hu] at htext
  have hlt : (d.node c).tokenStart + 1 + 1 < (d.node c).tokenEnd := by
    unfold FlatNode.tokenEnd
    omega
  unfold textOfKind?
  rw [tokenOfKind?_eq (by omega) hlt hu hkind fun j hle hj => ?_]
  · exact congrArg some (Except.ok.inj htext)
  · obtain rfl | rfl : j = (d.node c).tokenStart ∨ j = (d.node c).tokenStart + 1 := by omega
    · rw [htag.opens]
      nofun
    · rw [htag.slash]
      nofun

/-! Start tags -/

theorem kind?_endsTag_iff : (∃ kind, d.kind? e = some kind ∧ kind.endsTag) ↔
    d.kind? e = some .greaterThan ∨ d.kind? e = some .selfClose := by
  constructor
  · rintro ⟨kind, hk, hends⟩
    cases kind with
    | greaterThan => exact .inl hk
    | selfClose => exact .inr hk
    | _ => cases hends
  · rintro (hk | hk)
    · exact ⟨_, hk, rfl⟩
    · exact ⟨_, hk, rfl⟩

theorem startTagEndFrom_eq_succ (hpos : pos ≤ e) (hstop : e < stop)
    (hends : ∃ kind, d.kind? e = some kind ∧ kind.endsTag)
    (hfree : ∀ j, pos ≤ j → j < e → ∃ kind, d.kind? j = some kind ∧ kind.endsTag = false)
    (hcs : ∀ c ∈ cs, e < (d.node c).tokenStart ∨
      (d.node c).tokenStart < (d.node c).tokenEnd ∧ (d.node c).tokenEnd ≤ e) :
    d.startTagEndFrom stop cs pos = e + 1 := by
  fun_induction startTagEndFrom d stop cs pos with
  | case1 cs pos hlt child hchild ih =>
      obtain ⟨hhead, hstart⟩ := Option.filter_eq_some_iff.1 hchild
      have hstart := of_decide_eq_true hstart
      have hend := (hcs child (List.mem_of_head? hhead)).resolve_left (by omega)
      refine ih (by omega) (fun j hj hje => hfree j ?_ hje)
        fun c hc => hcs c (List.mem_of_mem_tail hc)
      exact (Nat.le_succ pos).trans ((Nat.le_max_right _ _).trans hj)
  | case2 cs pos hlt hnone hkind =>
      obtain ⟨kind, hk, hkind⟩ := kind?_endsTag_iff.2 hkind
      obtain hlt | rfl := hpos.lt_or_eq
      · obtain ⟨kind', hk', hkind'⟩ := hfree pos le_rfl hlt
        obtain rfl : kind = kind' := Option.some.inj (hk.symm.trans hk')
        cases hkind.symm.trans hkind'
      · rfl
  | case3 cs pos hlt hnone hkind ih =>
      have hne : pos ≠ e := by
        rintro rfl
        exact hkind (kind?_endsTag_iff.1 hends)
      exact ih (Nat.lt_of_le_of_ne hpos hne) (fun j hj => hfree j ((Nat.le_succ _).trans hj)) hcs
  | case4 cs pos hge => exact absurd (hpos.trans_lt hstop) hge

theorem content_eq_nil (hw : d.WellFormed) (hsolid : d.Solid id) (hnodes : d.nodes = b.nodes)
    (h : b.TagEndsAt d.toTokenized id e) (hend : (d.node id).tokenEnd = e + 1) :
    d.content id = [] := by
  obtain ⟨hstart, hends, hfree, hchild⟩ := h
  rw [← hnodes] at hstart hfree hchild
  have hinside {c : Nat} (hc : c ∈ d.children id) :
      (d.node c).tokenStart < (d.node c).tokenEnd ∧ (d.node c).tokenEnd ≤ e + 1 := by
    have hp := (mem_children_iff hw).1 hc
    exact ⟨hsolid c hp, hend ▸ (hw.inside c id hp).2⟩
  have htag : d.startTagEnd id = e + 1 := by
    unfold startTagEnd
    refine startTagEndFrom_eq_succ hstart (by omega) hends hfree fun c hc => .inr ?_
    obtain ⟨hlt, hle⟩ := hinside hc
    have hbefore := (hchild c ((mem_children_iff hw).1 hc)).resolve_left fun hlt' => by
      have : e < (d.node c).tokenStart := hlt'
      omega
    exact ⟨hlt, hbefore.2⟩
  unfold content
  rw [List.filter_eq_nil_iff]
  intro c hc
  obtain ⟨hlt, hle⟩ := hinside hc
  unfold isContent
  rw [htag, Bool.and_eq_true, decide_eq_true_eq]
  omega

/-! Elements -/

theorem exists_ends_of_finished (hw : d.WellFormed) (hsolid : d.Solid id)
    (hnamed : ∀ i, d.kind? i = some .slash → d.kind? (i + 1) = some .tagName)
    (hnodes : d.nodes = b.nodes) (hmetadata : d.metadata = b.metadata)
    (h : b.Finished d.toTokenized id) : ∃ a, d.Ends id a := by
  have hreason {x : Option ClosedBy} (hr : b.metadata.closedBy? id = x) : d.closedBy? id = x := by
    unfold closedBy?
    rw [hmetadata, hr]
  have hflag {data : Int32} (hd : (slot b.nodes id).data = data) (flag : ElementFlag) :
      d.hasFlag id flag = flag.isIn data := by
    rw [← hnodes] at hd
    unfold hasFlag FlatNode.hasFlag
    exact congrArg flag.isIn hd
  have hbare (h : b.Bare id) : d.childrenOfKind id .closingElementName = [] := by
    unfold Builder.Bare at h
    rw [← hnodes] at h
    exact childrenOfKind_closing_eq_nil hw h
  cases h with
  | paired c hd hr hpairs =>
      obtain ⟨-, ⟨n, hn, hown⟩, ⟨opened, name, htitled, htag, hsame⟩, hlast, honly⟩ := hpairs
      rw [← hnodes] at hown htag hlast honly
      have hp : (d.node c).parent = some id := (congrArg FlatNode.parent hown :)
      have hk : d.kind c = .closingElementName := (congrArg FlatNode.kind hown :)
      refine ⟨.paired, ?_, hreason hr, c, name, ?_,
        childrenOfKind_closing_eq_singleton hw ⟨hp, hk⟩ honly,
        textOfKind?_closing hnamed htag hn (congrArg FlatNode.tokenCount hown :), ?_⟩
      · rw [hflag hd]
        decide
      · rw [(hw.lastChild id).eq_some_iff]
        exact ⟨hp, hlast⟩
      · rw [(hw.elementName_eq hnodes htitled).2]
        exact hsame
  | synthetic reason hd hr hne hnone =>
      refine ⟨.synthetic, ?_, hbare hnone, reason, hreason hr, iff_of_false ?_ hne⟩
      · rw [hflag hd]
        decide
      · rw [hflag hd]
        decide
  | broken hd hr hnone =>
      refine ⟨.synthetic, ?_, hbare hnone, _, hreason hr, iff_of_true ?_ rfl⟩
      · rw [hflag hd]
        decide
      · rw [hflag hd]
        decide
  | empty e hflags hr hnone htag hend =>
      rw [← hnodes] at hflags hend
      exact ⟨.empty, hflags, hreason hr, hbare hnone, content_eq_nil hw hsolid hnodes htag hend⟩

/-- Without extensions every element ends in one way, and in one only. -/
theorem existsUnique_ends_of_parse (hlexer : o.lexerExtensions = []) (htree : o.treeExtensions = [])
    (h : parse o text = .ok d) (hid : d.kind id = .element) : ∃! a, d.Ends id a := by
  have hsolid : d.Solid id := solid_of_parse h (by rw [hid]; nofun)
  obtain ⟨lexed, b, hlex, hb, hd⟩ := exists_build_of_parse h
  have hsound := lexed_sound hlex
  have hw := wellFormed_of_parse h
  have hnodes : d.nodes = b.nodes := by rw [hd]
  have hmetadata : d.metadata = b.metadata := by rw [hd]
  have ht : d.toTokenized = lexed.tokenized o (.ofString text) := by rw [hd]
  have hnamed (i : Nat) (hi : d.kind? i = some .slash) : d.kind? (i + 1) = some .tagName := by
    rw [ht] at hi ⊢
    exact hsound.kind?_succ_of_slash hlexer hi
  have hfinished := Builder.finished_build htree b hb id (hnodes ▸ hid)
  rw [← ht] at hfinished
  obtain ⟨a, ha⟩ := exists_ends_of_finished hw hsolid hnamed hnodes hmetadata hfinished
  exact ⟨a, ha, fun a' ha' => ha'.unique ha⟩

theorem existsUnique_ends_parse_mixed : ∃ d,
    parse (.ofDirectives ["if", "endif"])
      "<p>a<BR><b>c</B>" = .ok d ∧ d.kind 1 = .element ∧ ∃! a, d.Ends 1 a := by
  have hread : (parse (.ofDirectives ["if", "endif"])
      "<p>a<BR><b>c</B>").toOption.map (·.kind 1) = some .element := by cbv
  obtain ⟨d, hd, hkind⟩ := Option.map_eq_some_iff.1 hread
  have hparse := eq_ok_of_toOption hd
  exact ⟨d, hparse, hkind, existsUnique_ends_of_parse rfl rfl hparse hkind⟩

end Document
end BladeTree
