import BladeTree.Proofs.Document.Depth
import BladeTree.Proofs.Token.Lexer.Reachable
import Mathlib

namespace BladeTree

def DepthLimits.greatest : DepthLimits := ⟨0xFFFFFFFF, 0xFFFFFFFF, 0xFFFFFFFF⟩

/-! Limits do not bear on tokens. -/

theorem Lexer.run_withLimits (o : ParseOptions) (l : DepthLimits) (s : Source) :
    Lexer.run (o.withLimits l) s = Lexer.run o s := by
  have hsame (x : Lexer) (b : UInt8) : x.step (o.withLimits l) s b = x.step o s b := rfl
  funext idle x
  fun_induction Lexer.run o s idle x with
  | case1 idle x h f hstep =>
      exact Lexer.run_eq_error (s.byte?_of_lt h) ((hsame ..).trans hstep)
  | case2 idle x h next hstep hp ih =>
      rw [Lexer.run_of_byte (s.byte?_of_lt h) ((hsame ..).trans hstep), if_pos hp, ih]
  | case3 idle x h next hstep hp he ih =>
      rw [Lexer.run_of_byte (s.byte?_of_lt h) ((hsame ..).trans hstep), if_neg hp, if_pos he, ih]
  | case4 idle x h next hstep hp he =>
      rw [Lexer.run_of_byte (s.byte?_of_lt h) ((hsame ..).trans hstep), if_neg hp, if_neg he]
  | case5 idle x h => rw [Lexer.run, dif_neg h]

theorem lex_withLimits (o : ParseOptions) (l : DepthLimits) (s : Source) :
    lex (o.withLimits l) s = lex o s := by
  unfold lex
  rw [Lexer.run_withLimits]

theorem Tiles.add_le_start {start stop i : Nat} {tokens : List Token} {u : Token}
    (h : Tiles start tokens stop) (hsolid : ∀ t ∈ tokens, t.start < t.stop)
    (hu : tokens[i]? = some u) : start + i ≤ u.start := by
  induction tokens generalizing start i with
  | nil => cases hu
  | cons t ts ih =>
      obtain ⟨rfl, -, htail⟩ := h
      have ht := hsolid t List.mem_cons_self
      cases i with
      | zero =>
          obtain rfl : t = u := Option.some.inj hu
          exact le_rfl
      | succ i =>
          have := ih htail (fun t' ht' => hsolid t' (List.mem_cons_of_mem _ ht')) hu
          omega

theorem Source.utf8ByteSize_slice_le (s : Source) (start stop : Nat) :
    (s.slice start stop).utf8ByteSize ≤ stop - start := by
  unfold slice String.fromUTF8?
  split
  · rw [Option.getD_some, ← String.size_toByteArray]
    change (s.bytes.extract start stop).size ≤ stop - start
    rw [ByteArray.size_extract]
    omega
  · exact Nat.zero_le _

namespace Tokenized

variable {t : Tokenized} {i : Nat} {name : String}

theorem exists_token_of_text (h : t.text i = .ok name) :
    ∃ u, t.tokens[i]? = some u ∧ name = u.text t.source := by
  unfold text token at h
  cases hu : t.tokens[i]? with
  | none =>
      rw [hu] at h
      cases h
  | some u =>
      rw [hu] at h
      cases h
      exact ⟨u, rfl, rfl⟩

theorem utf8ByteSize_directiveName_le (h : t.directiveName i = .ok name) :
    ∃ u, t.tokens[i]? = some u ∧ name.utf8ByteSize ≤ u.stop - u.start := by
  unfold directiveName at h
  cases htext : t.text i with
  | error e =>
      rw [htext] at h
      cases h
  | ok text =>
      obtain ⟨u, hu, rfl⟩ := exists_token_of_text htext
      rw [htext] at h
      have hsize : (u.text t.source).utf8ByteSize ≤ u.stop - u.start :=
        t.source.utf8ByteSize_slice_le u.start u.stop
      refine ⟨u, hu, ?_⟩
      cases hdrop : (u.text t.source).dropPrefix? "@" with
      | none =>
          rw [Builder.ok_bind, hdrop] at h
          cases h
          exact hsize
      | some rest =>
          have htext := String.eq_append_of_dropPrefix?_string_eq_some hdrop
          rw [Builder.ok_bind, hdrop] at h
          cases h
          rw [htext, String.utf8ByteSize_append] at hsize
          exact (Nat.le_add_left _ _).trans hsize

end Tokenized

theorem BlockRule.two_le_of_find? {name : String} {rule : BlockRule}
    (h : BlockRule.find? name = some rule) : 2 ≤ name.utf8ByteSize := by
  have htable : ∀ rule ∈ table, 2 ≤ rule.name.utf8ByteSize := by decide
  have hname : rule.name = name := by simpa using List.find?_some h
  exact hname ▸ htable rule (List.mem_of_find?_eq_some h)

namespace Builder

variable {t : Tokenized} {b : Builder} {l : DepthLimits}

theorem add_two_le_of_holds (hg : t.Grammatical)
    (hplace : ∀ (i : Nat) (u : Token), t.tokens[i]? = some u → i ≤ u.start) {f : Frame}
    (h : f.Holds t b.nodes) : (slot b.nodes f.node).tokenStart + 2 ≤ t.source.size := by
  obtain ⟨id, kind⟩ := f
  cases kind with
  | element name =>
      obtain ⟨u, hu, -⟩ := Tokenized.exists_token_of_text h.fits.2
      have hle := hplace _ u hu
      have hsolid := hg.solid _ u hu
      simp only at hle ⊢
      omega
  | directive rule name =>
      obtain ⟨u, hu, hsize⟩ := Tokenized.utf8ByteSize_directiveName_le h.fits.2.1
      have htwo := BlockRule.two_le_of_find? h.fits.2.2
      have hle := hplace _ u hu
      have hsolid := hg.solid _ u hu
      simp only at hle ⊢
      omega

theorem Framed.blocker?_eq_none (hb : b.Framed t) (hg : t.Grammatical)
    (hplace : ∀ (i : Nat) (u : Token), t.tokens[i]? = some u → i ≤ u.start)
    (hl : ∀ counter, t.source.size ≤ l.get counter) (id : Nat) :
    (b.document t).blocker? l id = none := by
  unfold Document.blocker?
  split
  · rename_i hopens
    obtain ⟨f, rfl, hholds, hdepth⟩ :=
      hb.opened id (FlatNode.lt_size_of_opensFrame hopens) hopens
    have hroom := add_two_le_of_holds hg hplace hholds
    refine List.find?_eq_none.2 fun counter _ => ?_
    have := hdepth counter
    have := hl counter
    simp only [Bool.and_eq_true, decide_eq_true_eq, not_and]
    omega
  · rfl

end Builder

namespace Document

def withLimits (d : Document) (l : DepthLimits) : Document :=
  { d with toTokenized := d.toTokenized.withLimits l }

/-- No node is nested as deep as the limits forbid. -/
structure Within (d : Document) (l : DepthLimits) : Prop where
  directives : ∀ id < d.nodes.size,
    (id :: d.ancestors id).countP (d.isCounted .directives) < l.directives
  conditions : ∀ id < d.nodes.size,
    (id :: d.ancestors id).countP (d.isCounted .conditions) < l.conditions
  elements : ∀ id < d.nodes.size, d.kind id = .element →
    (d.ancestors id).countP (d.isCounted .elements) < l.elements

variable {d : Document} {l : DepthLimits} {counter : DepthCounter} {id : Nat}

theorem depth_lt_of_blocker?_eq_none (h : d.blocker? l id = none) (hopens : (d.node id).opensFrame)
    (hc : d.isCounted counter id) : d.depth counter id + 1 < l.get counter := by
  unfold blocker? at h
  rw [if_pos hopens] at h
  have hall : counter ∈ DepthCounter.all := by cases counter <;> decide
  have := List.find?_eq_none.1 h counter hall
  simp only [hc, Bool.true_and, decide_eq_true_eq] at this
  omega

theorem Within.congr {d' : Document} (h : d.Within l) (hs : d.source = d'.source)
    (ht : d.tokens = d'.tokens) (hn : d.nodes = d'.nodes) : d'.Within l := by
  have hnode (id : Nat) : d.node id = d'.node id := congrArg (Array.getD · id _) hn
  have hshape (id : Nat) : ∀ j ≤ id, (d.node j).shape = (d'.node j).shape :=
    fun j _ => congrArg _ (hnode j)
  have hancestors (id : Nat) : d.ancestors id = d'.ancestors id :=
    ancestors_congr fun j _ => congrArg _ (hnode j)
  have hcounted (counter : DepthCounter) : d.isCounted counter = d'.isCounted counter :=
    funext fun id => isCounted_congr hs ht (hshape id) counter le_rfl
  have hkind (id : Nat) : d.kind id = d'.kind id := congrArg _ (hnode id)
  obtain ⟨hdirectives, hconditions, helements⟩ := h
  simp only [hancestors, hcounted, hkind, hn] at hdirectives hconditions helements
  exact ⟨hdirectives, hconditions, helements⟩

theorem ancestors_cases (d : Document) (id : Nat) :
    d.ancestors id = [] ∨ ∃ p < id, (d.node id).parent = some p ∧
      d.ancestors id = p :: d.ancestors p := by
  fun_cases ancestors d id with
  | case1 p hp hlt => exact .inr ⟨p, hlt, hp, rfl⟩
  | case2 => exact .inl rfl
  | case3 => exact .inl rfl

theorem countP_lt_of_blocker? (hcounted : ∀ id, d.isCounted counter id → (d.node id).opensFrame)
    (hl : 1 ≤ l.get counter) (hnone : ∀ id, d.blocker? l id = none) (id : Nat) :
    (id :: d.ancestors id).countP (d.isCounted counter) < l.get counter := by
  induction id using Nat.strong_induction_on with
  | _ id ih =>
      by_cases hc : d.isCounted counter id
      · rw [List.countP_cons_of_pos hc]
        exact depth_lt_of_blocker?_eq_none (hnone id) (hcounted id hc) hc
      · rw [List.countP_cons_of_neg hc]
        rcases d.ancestors_cases id with hempty | ⟨p, hlt, -, hcons⟩
        · rw [hempty]
          exact hl
        · rw [hcons]
          exact ih p hlt

end Document

namespace Builder

variable {t : Tokenized} {b : Builder} {l : DepthLimits}

theorem Framed.within (hb : b.Framed t) (hdoc : (slot b.nodes root).kind = .document)
    (hl : ∀ counter, 1 ≤ l.get counter) (hnone : ∀ id, (b.document t).blocker? l id = none) :
    (b.document t).Within l := by
  have hblock (id : Nat) (hkind : (b.document t).kind id = .directiveBlock) :
      ((b.document t).node id).opensFrame := by
    have hkind : ((b.document t).node id).kind = .directiveBlock := hkind
    unfold FlatNode.opensFrame
    rw [hkind]
    rfl
  have hdirectives (id : Nat) (hc : (b.document t).isCounted .directives id) :=
    hblock id (beq_iff_eq.1 hc)
  have hconditions (id : Nat) (hc : (b.document t).isCounted .conditions id) :
      ((b.document t).node id).opensFrame := by
    refine hblock id ?_
    by_contra hne
    simp only [Document.isCounted, Document.blockRule?, hne, if_false, Option.any_none] at hc
    cases hc
  have helements (id : Nat) (hid : id < b.nodes.size) (hframe : (slot b.nodes id).kind.isFrame) :
      (b.document t).depth .elements id < l.elements := by
    induction id using Nat.strong_induction_on with
    | _ id ih =>
        unfold Document.depth
        rcases (b.document t).ancestors_cases id with hempty | ⟨p, hlt, hp, hcons⟩
        · rw [hempty]
          exact hl .elements
        · obtain ⟨p', hp', hopens⟩ := hb.parent id hid hframe
          obtain rfl : p = p' := Option.some.inj (hp.symm.trans hp')
          rw [hcons]
          rcases hopens with rfl | hopens
          · have hcounted : (b.document t).isCounted .elements root = false := by
              unfold Document.isCounted
              rw [show (b.document t).kind root = .document from hdoc]
              rfl
            have hempty : (b.document t).ancestors root = [] :=
              ((b.document t).ancestors_cases root).resolve_right fun hroot =>
                absurd hroot.choose_spec.1 (Nat.not_lt_zero _)
            rw [hempty, List.countP_cons_of_neg (by simp [hcounted])]
            exact hl .elements
          · by_cases hc : (b.document t).isCounted .elements p
            · rw [List.countP_cons_of_pos hc]
              exact Document.depth_lt_of_blocker?_eq_none (hnone p) hopens hc
            · rw [List.countP_cons_of_neg hc]
              exact ih p hlt (hlt.trans hid) (FlatNode.isFrame_of_opensFrame hopens)
  exact ⟨fun id _ => Document.countP_lt_of_blocker? hdirectives (hl .directives) hnone id,
    fun id _ => Document.countP_lt_of_blocker? hconditions (hl .conditions) hnone id,
    fun id hid hkind => helements id hid (by
      rw [show (slot b.nodes id).kind = .element from hkind]
      rfl)⟩

theorem blocker?_of_not_opensFrame {id : Nat} (h : ¬ (slot b.nodes id).opensFrame) :
    (b.document t).blocker? l id = none := by
  unfold Document.blocker?
  exact if_neg h

theorem admitNew_initial (hroot : ¬ (slot b.nodes root).opensFrame) :
    ((∀ id, (b.document t).blocker? l id = none) ∧ admitNew t l initial b = .ok ()) ∨
      ∃ id counter, (b.document t).blocker? l id = some counter ∧
        (∀ earlier < id, (b.document t).blocker? l earlier = none) ∧
        admitNew t l initial b = .error (.depthLimit counter (l.get counter)
          (t.offset (slot b.nodes id).tokenStart)) := by
  have hrange {id : Nat} (h : (slot b.nodes id).opensFrame) :
      id ∈ List.range' initial.nodes.size (b.nodes.size - initial.nodes.size) := by
    have hlt := FlatNode.lt_size_of_opensFrame h
    have hpos : id ≠ 0 := by
      rintro rfl
      exact hroot h
    refine List.mem_range'_1.2 ⟨Nat.pos_of_ne_zero hpos, ?_⟩
    have : initial.nodes.size = 1 := rfl
    omega
  unfold admitNew
  cases hfirst : (List.range' initial.nodes.size (b.nodes.size - initial.nodes.size)).findSome?
      ((b.document t).depthError? l) with
  | none =>
      refine .inl ⟨fun id => ?_, rfl⟩
      by_cases hopens : (slot b.nodes id).opensFrame
      · exact Option.map_eq_none_iff.1 (List.findSome?_eq_none_iff.1 hfirst id (hrange hopens))
      · exact blocker?_of_not_opensFrame hopens
  | some e =>
      obtain ⟨before, id, after, hsplit, he, hbefore⟩ := List.findSome?_eq_some_iff.1 hfirst
      obtain ⟨counter, hcounter, rfl⟩ := Option.map_eq_some_iff.1 he
      refine .inr ⟨id, counter, hcounter, fun earlier hlt => ?_, rfl⟩
      by_cases hopens : (slot b.nodes earlier).opensFrame
      · have hsorted : (List.range' initial.nodes.size
            (b.nodes.size - initial.nodes.size)).Pairwise (· < ·) :=
          List.pairwise_lt_range'
        have hmem := hrange hopens
        rw [hsplit] at hsorted hmem
        have hafter := (List.pairwise_cons.1 (List.pairwise_append.1 hsorted).2.1).1
        rcases List.mem_append.1 hmem with hmem | hmem
        · exact Option.map_eq_none_iff.1 (hbefore earlier hmem)
        · rcases List.mem_cons.1 hmem with rfl | hmem
          · exact absurd hlt (Nat.lt_irrefl _)
          · exact absurd hlt (Nat.lt_asymm (hafter earlier hmem))
      · exact blocker?_of_not_opensFrame hopens

end Builder

namespace Document

variable {o : ParseOptions} {text : String}

/-- What comes of reading under limits `l`, where `r` is the document that is read without: the same
document, which larger limits do not change and in which nothing is nested too deep, or the error
of the first node of `r` that reaches a limit by opening a frame. -/
def ReadUnder (o : ParseOptions) (text : String) (r : Document) (l : DepthLimits) : Prop :=
  match parse (o.withLimits l) text with
  | .ok d => d = r.withLimits l ∧
      (∀ l', (∀ counter, l.get counter ≤ l'.get counter) →
        parse (o.withLimits l') text = .ok (r.withLimits l')) ∧
      ((∀ counter, 1 ≤ l.get counter) → d.Within l)
  | .error e => ∃ id counter, r.blocker? l id = some counter ∧
      (∀ earlier < id, r.blocker? l earlier = none) ∧
      e = .depthLimit counter (l.get counter) (r.offset (r.node id).tokenStart)

theorem blocker?_mono {d : Document} {l l' : DepthLimits}
    (hle : ∀ counter, l.get counter ≤ l'.get counter) {id : Nat} (h : d.blocker? l id = none) :
    d.blocker? l' id = none := by
  unfold blocker? at h ⊢
  split
  · rename_i hopens
    rw [if_pos hopens] at h
    refine List.find?_eq_none.2 fun counter hcounter => ?_
    have hno := List.find?_eq_none.1 h counter hcounter
    simp only [Bool.and_eq_true, decide_eq_true_eq, not_and] at hno ⊢
    exact fun hc hreached => hno hc ((hle counter).trans hreached)
  · rfl

/-- Reading under limits refines reading without: without extensions there is one document, that
of the greatest limits unless the source is too long for them, from which all limits only decide
whether it comes. -/
theorem parse_withLimits (ho : o.lexerExtensions = []) (ho' : o.treeExtensions = [])
    (text : String) :
    ∃ r, (text.utf8ByteSize < 2 ^ 32 → parse (o.withLimits .greatest) text = .ok r) ∧
      ∀ l, ReadUnder o text r l := by
  obtain ⟨lexed, hlex, hsound⟩ := exists_lex_of_nil ho (.ofString text)
  let t := lexed.tokenized o (.ofString text)
  have hg : t.Grammatical := hsound.grammatical ho
  obtain ⟨b, hframed, hdoc, hbuild⟩ := Builder.exists_build hg ho'
  let r : Document := ⟨t.withLimits .greatest, lexed.errors, b.nodes, b.metadata, b.diagnostics⟩
  have hparse (l : DepthLimits) : parse (o.withLimits l) text =
      (fun _ => r.withLimits l) <$> Builder.admitNew t l .initial b := by
    rw [parse_eq_of_lex ((lex_withLimits o l _).trans hlex)]
    change _ <$> Builder.build (t.withLimits l) = _
    rw [hbuild]
    cases Builder.admitNew t l .initial b <;> rfl
  have hroot : ¬ (slot b.nodes Builder.root).opensFrame := by
    unfold FlatNode.opensFrame
    rw [hdoc]
    exact Bool.false_ne_true
  have hr (l : DepthLimits) (id : Nat) : (b.document t).blocker? l id = r.blocker? l id := by
    have hs : (b.document t).source = r.source := rfl
    have ht : (b.document t).tokens = r.tokens := rfl
    exact blocker?_congr hs ht (fun _ _ => rfl) l
  have hok (l : DepthLimits) (hnone : ∀ id, r.blocker? l id = none) :
      parse (o.withLimits l) text = .ok (r.withLimits l) := by
    rcases Builder.admitNew_initial (t := t) (l := l) hroot with ⟨-, h⟩ | ⟨id, counter, h, -⟩
    · rw [hparse, h]
      rfl
    · cases (hnone id).symm.trans ((hr l id).symm.trans h)
  refine ⟨r, fun hsize => hok .greatest fun id => ?_, fun l => ?_⟩
  · have hplace (i : Nat) (u : Token) (hu : t.tokens[i]? = some u) : i ≤ u.start := by
      rw [← Array.getElem?_toList] at hu
      have := hsound.tiles.add_le_start (fun u hu => hsound.solid ho u (Array.mem_toList_iff.1 hu)) hu
      omega
    rw [← hr]
    refine hframed.blocker?_eq_none hg hplace (fun counter => ?_) id
    have : t.source.size = text.utf8ByteSize := String.size_toByteArray
    cases counter <;> simp only [DepthLimits.get, DepthLimits.greatest] <;> omega
  · unfold ReadUnder
    have hcases := Builder.admitNew_initial (t := t) (l := l) hroot
    simp only [hr] at hcases
    rcases hcases with ⟨hnone, -⟩ | ⟨id, counter, h, hearlier, he⟩
    · rw [hok l hnone]
      refine ⟨rfl, fun l' hle => hok l' fun id => blocker?_mono hle (hnone id), fun hl => ?_⟩
      exact (hframed.within hdoc hl fun id => (hr l id).trans (hnone id)).congr rfl rfl rfl
    · rw [hparse, he]
      exact ⟨id, counter, h, hearlier, rfl⟩

theorem parse_withLimits_nested :
    ∃ r, parse (ParseOptions.standard.withLimits .greatest) "<b>@if(a)<i><br></b>" = .ok r ∧
      ∀ l, ReadUnder .standard "<b>@if(a)<i><br></b>" r l := by
  obtain ⟨r, hr, hall⟩ := parse_withLimits (o := .standard) rfl rfl "<b>@if(a)<i><br></b>"
  exact ⟨r, hr (by decide), hall⟩

end Document
end BladeTree
