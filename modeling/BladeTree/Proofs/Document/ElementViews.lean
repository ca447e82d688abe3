import BladeTree.Proofs.Document.ElementEnd
import BladeTree.Proofs.Tree.Divided

namespace BladeTree

theorem exists_concat_of_pairwise_lt {l : List Nat} (hl : l.Pairwise (· < ·)) {c : Nat}
    (hc : c ∈ l) (hle : ∀ x ∈ l, x ≤ c) : ∃ init, l = init ++ [c] ∧ ∀ x ∈ init, x < c := by
  obtain ⟨init, last, rfl⟩ := List.eq_nil_or_concat' l |>.resolve_left (List.ne_nil_of_mem hc)
  have hlt := (List.pairwise_append.1 hl).2.2
  have hlast : c = last := by
    rcases List.mem_append.1 hc with hinit | hsingle
    · have hbefore := hlt c hinit last List.mem_cons_self
      exact absurd (hle last (List.mem_append_right _ List.mem_cons_self)) (by omega)
    · exact List.mem_singleton.1 hsingle
  exact ⟨init, hlast ▸ rfl, fun x hx => hlast ▸ hlt x hx last List.mem_cons_self⟩

namespace Document

variable {o : ParseOptions} {text : String} {d : Document} {b : Builder} {id c e pos stop : Nat}
  {ids cs : List Nat}

/-! Siblings that have all tokens -/

theorem Placed.le_start (h : d.Placed stop pos (ids.map d.plainWritten)) (hc : c ∈ ids) :
    pos ≤ (d.node c).tokenStart := by
  induction ids generalizing pos with
  | nil => cases hc
  | cons first ids ih =>
      obtain ⟨hpos, hsolid, -, hrest⟩ := Placed.cons_iff.1 h
      rcases List.mem_cons.1 hc with rfl | hc
      · exact hpos
      · exact hpos.trans (hsolid.le.trans (ih hrest hc))

theorem Placed.filter (h : d.Placed stop pos (ids.map d.plainWritten)) (p : Nat → Bool) {q : Nat}
    (hq : q ≤ stop) (hp : ∀ c ∈ ids, p c → q ≤ (d.node c).tokenStart) :
    d.Placed stop q ((ids.filter p).map d.plainWritten) := by
  induction ids generalizing pos q with
  | nil => exact .nil hq
  | cons first ids ih =>
      obtain ⟨-, hsolid, hend, hrest⟩ := Placed.cons_iff.1 h
      rw [List.filter_cons]
      split
      · rename_i hfirst
        refine Placed.cons_iff.2 ⟨hp first List.mem_cons_self hfirst, hsolid, hend, ?_⟩
        exact ih hrest hend fun c hc _ => hrest.le_start hc
      · exact ih hrest hq fun c hc => hp c (List.mem_cons_of_mem _ hc)

theorem Placed.join_texts (hw : d.toTokenized.Whole)
    (h : d.Placed stop pos (ids.map d.plainWritten))
    (hcovered : ∀ j, pos ≤ j → j < stop →
      ∃ c ∈ ids, (d.node c).tokenStart ≤ j ∧ j < (d.node c).tokenEnd) :
    String.join (ids.map d.text) = d.textBetween pos stop := by
  induction ids generalizing pos with
  | nil =>
      have hle : stop ≤ pos := by
        by_contra hlt
        obtain ⟨c, hc, -⟩ := hcovered pos le_rfl (Nat.lt_of_not_le hlt)
        cases hc
      obtain rfl : pos = stop := le_antisymm h.le hle
      rw [List.map_nil, String.join_nil, Tokenized.textBetween, d.source.slice_self]
  | cons first ids ih =>
      obtain ⟨hpos, hsolid, hend, hrest⟩ := Placed.cons_iff.1 h
      have hstart : (d.node first).tokenStart = pos := by
        obtain ⟨c, hc, hle, -⟩ := hcovered pos le_rfl (hpos.trans_lt (hsolid.trans_le hend))
        rcases List.mem_cons.1 hc with rfl | hc
        · exact le_antisymm hle hpos
        · exact absurd (hrest.le_start hc) (by omega)
      have hjoin := ih hrest fun j hj hlt => by
        obtain ⟨c, hc, hcj⟩ := hcovered j (by omega) hlt
        rcases List.mem_cons.1 hc with rfl | hc
        · exact absurd hcj.2 (Nat.not_lt_of_le hj)
        · exact ⟨c, hc, hcj⟩
      rw [List.map_cons, String.join_cons, hjoin, Document.text, tokenText_eq hw hsolid.le, hstart,
        hw.textBetween_append (hstart ▸ hsolid.le) hend]

/-! The closing tag -/

theorem content_append_closingTag? (hw : d.WellFormed)
    (hlast : ∀ c x, (d.node c).parent = some id → d.kind c = .closingElementName →
      (d.node x).parent = some id → x ≤ c)
    (hafter : ∀ c, (d.node c).parent = some id → d.kind c = .closingElementName →
      d.startTagEnd id ≤ (d.node c).tokenStart) :
    d.content id ++ (d.closingTag? id).toList =
      (d.children id).filter fun x => d.startTagEnd id ≤ (d.node x).tokenStart := by
  have hother {l : List Nat} (hl : ∀ x ∈ l, d.kind x ≠ .closingElementName) :
      l.filter (d.isContent (d.startTagEnd id)) =
        l.filter fun x => d.startTagEnd id ≤ (d.node x).tokenStart := by
    refine List.filter_congr fun x hx => ?_
    unfold isContent
    rw [bne_iff_ne.2 (hl x hx), Bool.and_true]
  unfold content closingTag? childOfKind?
  cases hc : (d.children id).find? (d.kind · = .closingElementName) with
  | none =>
      rw [Option.toList_none, List.append_nil]
      refine hother fun x hx => ?_
      simpa using List.find?_eq_none.1 hc x hx
  | some c =>
      have hmem := List.mem_of_find?_eq_some hc
      have hp := (mem_children_iff hw).1 hmem
      have hk : d.kind c = .closingElementName := by simpa using List.find?_some hc
      obtain ⟨init, hinit, hlt⟩ := exists_concat_of_pairwise_lt (pairwise_children hw id) hmem
        fun x hx => hlast c x hp hk ((mem_children_iff hw).1 hx)
      have hnone : ∀ x ∈ init, d.kind x ≠ .closingElementName := fun x hx hkx => by
        have hpx := (mem_children_iff hw).1 (hinit ▸ List.mem_append_left [c] hx)
        exact absurd (hlast x c hpx hkx hp) (Nat.not_le_of_lt (hlt x hx))
      have hself : d.isContent (d.startTagEnd id) c = false := by
        unfold isContent
        rw [hk]
        exact Bool.and_false _
      rw [hinit, List.filter_append, List.filter_append, hother hnone, List.filter_singleton,
        List.filter_singleton, hself, decide_eq_true (hafter c hp hk)]
      exact congrArg (· ++ [c]) (List.append_nil _)

/-! The parts of an element -/

structure Divides (d : Document) (id e : Nat) : Prop where
  start : (d.node id).tokenStart ≤ e
  stop : e < (d.node id).tokenEnd
  ends : ∃ kind, d.kind? e = some kind ∧ kind.endsTag
  free : ∀ j, (d.node id).tokenStart ≤ j → j < e → ∃ kind, d.kind? j = some kind ∧
    kind.endsTag = false
  child : ∀ c, (d.node c).parent = some id →
    e < (d.node c).tokenStart ∨ (d.node c).tokenEnd ≤ e
  content : ∀ j, e < j → j < (d.node id).tokenEnd → ∃ c, (d.node c).parent = some id ∧
    e < (d.node c).tokenStart ∧ (d.node c).tokenStart ≤ j ∧ j < (d.node c).tokenEnd
  attr : ∀ c, (d.node c).parent = some id → d.kind c = .attr → (d.node c).tokenEnd ≤ e
  closing : ∀ c, (d.node c).parent = some id → d.kind c = .closingElementName →
    e < (d.node c).tokenStart

theorem divides_of_finished (hw : d.WellFormed) (hnodes : d.nodes = b.nodes) (hs : b.stack = [])
    (hid : d.kind id = .element) (hend : (d.node id).tokenEnd ≤ b.pos)
    (h : b.Divides d.toTokenized id e) : d.Divides id e := by
  have hne : id ≠ Builder.root := by
    rintro rfl
    cases hw.document.symm.trans hid
  have hspans {i j : Nat} (hi : i ≠ Builder.root) :
      b.Spans i j ↔ (d.node i).tokenStart ≤ j ∧ j < (d.node i).tokenEnd := by
    rw [Builder.spans_of_closed hs hi, ← hnodes]
    rfl
  have hchild {c : Nat} (hp : (d.node c).parent = some id) : c ≠ Builder.root := by
    rintro rfl
    exact absurd (hw.parent _ _ hp).1 (Nat.not_lt_zero id)
  obtain ⟨⟨hstart, hends, hfree, hchildren⟩, -, hstop, hcontent, hattr, hclosing⟩ := h
  rw [← hnodes] at hstart hfree hchildren hcontent hattr hclosing
  refine ⟨hstart, ((hspans hne).1 hstop).2, hends, hfree,
    fun c hp => (hchildren c hp).imp_right And.right, fun j hej hj => ?_, fun c hp hk => ?_,
    hclosing⟩
  · obtain ⟨c, hp, hec, hcj⟩ := hcontent j hej (hj.trans_le hend)
      ((hspans hne).2 ⟨hstart.trans hej.le, hj⟩)
    exact ⟨c, hp, hec, (hspans (hchild hp)).1 hcj⟩
  · exact ((hchildren c hp).resolve_left (Nat.not_lt_of_le (hattr c hp hk))).2

theorem Divides.startTagEnd_eq (h : d.Divides id e) (hw : d.WellFormed) (hsolid : d.Solid id) :
    d.startTagEnd id = e + 1 := by
  unfold startTagEnd
  refine startTagEndFrom_eq_succ h.start h.stop h.ends h.free fun c hc => ?_
  have hp := (mem_children_iff hw).1 hc
  exact (h.child c hp).imp_right fun hend => ⟨hsolid c hp, hend⟩

theorem Divides.join_texts (h : d.Divides id e) (hwhole : d.toTokenized.Whole) (hw : d.WellFormed)
    (hsolid : d.Solid id) :
    String.join (((d.children id).filter fun x => e + 1 ≤ (d.node x).tokenStart).map d.text) =
      d.textBetween (e + 1) (d.node id).tokenEnd := by
  have hplaced := placed_children hw hsolid (h.start.trans h.stop.le)
  refine (hplaced.filter _ h.stop fun c _ hc => of_decide_eq_true hc).join_texts hwhole ?_
  intro j hj hlt
  obtain ⟨c, hp, hafter, hcj⟩ := h.content j hj hlt
  exact ⟨c, List.mem_filter.2 ⟨(mem_children_iff hw).2 hp, decide_eq_true hafter⟩, hcj⟩

theorem Divides.views_eq_text (h : d.Divides id e) (hwhole : d.toTokenized.Whole)
    (hw : d.WellFormed) (hsolid : d.Solid id)
    (hlast : ∀ c x, (d.node c).parent = some id → d.kind c = .closingElementName →
      (d.node x).parent = some id → x ≤ c) :
    d.startTag id ++ String.join ((d.content id).map d.text) ++ (d.closingTag? id).elim "" d.text =
      d.text id := by
  have htag := h.startTagEnd_eq hw hsolid
  have hclosing : (d.closingTag? id).elim "" d.text =
      String.join ((d.closingTag? id).toList.map d.text) := by
    cases d.closingTag? id with
    | none => rfl
    | some c => simp
  have hparts := content_append_closingTag? hw hlast
    fun c hp hk => htag.trans_le (h.closing c hp hk)
  have hle : (d.node id).tokenStart ≤ e + 1 := h.start.trans (Nat.le_succ e)
  calc d.startTag id ++ String.join ((d.content id).map d.text) ++
        (d.closingTag? id).elim "" d.text
      = d.startTag id ++ String.join ((d.content id ++ (d.closingTag? id).toList).map d.text) := by
        rw [hclosing, List.map_append, String.join_append, String.append_assoc]
    _ = d.textBetween (d.node id).tokenStart (e + 1) ++
          d.textBetween (e + 1) (d.node id).tokenEnd := by
        rw [hparts, htag, h.join_texts hwhole hw hsolid, startTag, htag, tokenText_eq hwhole hle]
    _ = d.text id := by
        rw [hwhole.textBetween_append hle h.stop, text, tokenText_eq hwhole (hle.trans h.stop)]

theorem startTagEndFrom_eq_stop
    (hfree : ∀ j, pos ≤ j → j < stop → ∃ kind, d.kind? j = some kind ∧ kind.endsTag = false) :
    d.startTagEndFrom stop cs pos = stop := by
  fun_induction startTagEndFrom d stop cs pos with
  | case1 cs pos hlt child hchild ih =>
      exact ih fun j hj => hfree j ((Nat.le_succ pos).trans ((Nat.le_max_right _ _).trans hj))
  | case2 cs pos hlt hnone hkind =>
      obtain ⟨kind, hk, hends⟩ := kind?_endsTag_iff.2 hkind
      obtain ⟨kind', hk', hfree'⟩ := hfree pos le_rfl hlt
      obtain rfl : kind = kind' := Option.some.inj (hk.symm.trans hk')
      cases hends.symm.trans hfree'
  | case3 cs pos hlt hnone hkind ih => exact ih fun j hj => hfree j ((Nat.le_succ pos).trans hj)
  | case4 cs pos hge => rfl

theorem startTagEnd_of_broken (hnodes : d.nodes = b.nodes) (h : b.Broken d.toTokenized id) :
    d.startTagEnd id = (d.node id).tokenEnd := by
  have hfree := h.breaksOff
  unfold Builder.BreaksOff at hfree
  rw [← hnodes] at hfree
  exact startTagEndFrom_eq_stop hfree

theorem views_eq_text_of_broken (hw : d.WellFormed) (hsolid : d.Solid id)
    (hnodes : d.nodes = b.nodes) (h : b.Broken d.toTokenized id) :
    d.startTag id ++ String.join ((d.content id).map d.text) ++ (d.closingTag? id).elim "" d.text =
      d.text id := by
  have htag := startTagEnd_of_broken hnodes h
  have hcontent : d.content id = [] := by
    unfold content
    rw [List.filter_eq_nil_iff]
    intro c hc
    have hp := (mem_children_iff hw).1 hc
    have hlt := (hsolid c hp).trans_le (hw.inside c id hp).2
    unfold isContent
    rw [htag, Bool.and_eq_true, decide_eq_true_eq]
    exact fun hcontent => absurd hcontent.1 (Nat.not_le_of_lt hlt)
  have hclosing : d.closingTag? id = none := by
    have hbare := h.bare
    unfold Builder.Bare at hbare
    rw [← hnodes] at hbare
    unfold closingTag? childOfKind?
    rw [List.find?_eq_none]
    intro c hc
    rw [decide_eq_true_iff]
    exact hbare c ((mem_children_iff hw).1 hc)
  rw [hcontent, hclosing, startTag, htag, List.map_nil, String.join_nil, String.append_empty]
  exact String.append_empty

/-- Without extensions an element is the text of its start tag, of its content and of its closing
tag, and its attributes are in the start tag. -/
theorem views_partition_of_parse (hlexer : o.lexerExtensions = []) (htree : o.treeExtensions = [])
    (h : parse o text = .ok d) (hid : d.kind id = .element) :
    d.startTag id ++ String.join ((d.content id).map d.text) ++ (d.closingTag? id).elim "" d.text =
        d.text id ∧
      ∀ c, (d.node c).parent = some id → d.kind c = .attr →
        (d.node id).tokenStart ≤ (d.node c).tokenStart ∧
          (d.node c).tokenEnd ≤ d.startTagEnd id := by
  have hsolid : d.Solid id := solid_of_parse h (by rw [hid]; nofun)
  obtain ⟨lexed, b, hlex, hb, hd⟩ := exists_build_of_parse h
  have hsound := lexed_sound hlex
  have hw := wellFormed_of_parse h
  have hnodes : d.nodes = b.nodes := by rw [hd]
  have ht : d.toTokenized = lexed.tokenized o (.ofString text) := by rw [hd]
  have hwhole : d.toTokenized.Whole := by
    rw [ht]
    refine hsound.tokenized_whole ?_
    rw [hlexer]
    exact fun _ => nofun
  obtain ⟨hdivided, hstack, hend⟩ := Builder.divided_build htree b hb
  have hfinished := Builder.finished_build htree b hb id (hnodes ▸ hid)
  rw [← ht] at hdivided hfinished
  rw [← hnodes] at hend
  have hlast (c x : Nat) (hp : (d.node c).parent = some id) (hk : d.kind c = .closingElementName)
      (hx : (d.node x).parent = some id) : x ≤ c := by
    unfold kind at hk
    unfold node at hp hk hx
    rw [hnodes] at hp hk hx
    exact hfinished.le_closing hp hk hx
  have hlt : id < d.nodes.size := lt_size_of_kind fun hdocument => by
    cases hid.symm.trans hdocument
  rcases hdivided id (hnodes ▸ hid) with ⟨e, he⟩ | hbroken
  · have hdiv := divides_of_finished hw hnodes hstack hid (hend id hlt) he
    refine ⟨hdiv.views_eq_text hwhole hw hsolid hlast, fun c hp hk => ⟨(hw.inside c id hp).1, ?_⟩⟩
    rw [hdiv.startTagEnd_eq hw hsolid]
    exact (hdiv.attr c hp hk).trans (Nat.le_succ e)
  · refine ⟨views_eq_text_of_broken hw hsolid hnodes hbroken, fun c hp _ => ?_⟩
    rw [startTagEnd_of_broken hnodes hbroken]
    exact hw.inside c id hp

theorem views_partition_parse_mixed : ∃ d,
    parse (.ofDirectives ["if", "endif"])
      "<p a='>' {{ b>c }}>t<br/><i>{{ d }}</P>" = .ok d ∧ d.kind 1 = .element ∧
      d.startTag 1 ++ String.join ((d.content 1).map d.text) ++
          (d.closingTag? 1).elim "" d.text = d.text 1 ∧
        ∀ c, (d.node c).parent = some 1 → d.kind c = .attr →
          (d.node 1).tokenStart ≤ (d.node c).tokenStart ∧
            (d.node c).tokenEnd ≤ d.startTagEnd 1 := by
  have hread : (parse (.ofDirectives ["if", "endif"])
      "<p a='>' {{ b>c }}>t<br/><i>{{ d }}</P>").toOption.map (·.kind 1) =
        some .element := by cbv
  obtain ⟨d, hd, hkind⟩ := Option.map_eq_some_iff.1 hread
  have hparse := eq_ok_of_toOption hd
  exact ⟨d, hparse, hkind, views_partition_of_parse rfl rfl hparse hkind⟩

end Document
end BladeTree
