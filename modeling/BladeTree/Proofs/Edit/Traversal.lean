import BladeTree.Proofs.Document.Blocks
import BladeTree.Proofs.Edit.Visit

namespace BladeTree

/-- When one of the visitors, told by its place in their list, is called. -/
structure Moment where
  visitor : Nat
  event : VisitEvent
  id : Nat
  depth : Nat
  deriving DecidableEq, Repr

namespace Moment

def each (count : Nat) (event : VisitEvent) (id depth : Nat) : List Moment :=
  (List.range count).map (⟨·, event, id, depth⟩)

/-- What a moment has in common with no other moment of a visit. -/
def key (m : Moment) : Nat × VisitEvent × Nat := (m.visitor, m.event, m.id)

variable {count id depth : Nat} {event : VisitEvent} {m : Moment}

theorem mem_each_iff : m ∈ each count event id depth ↔
    m.visitor < count ∧ m.event = event ∧ m.id = id ∧ m.depth = depth := by
  rw [each, List.mem_map]
  constructor
  · rintro ⟨i, hi, rfl⟩
    exact ⟨List.mem_range.1 hi, rfl, rfl, rfl⟩
  · rintro ⟨hlt, rfl, rfl, rfl⟩
    exact ⟨m.visitor, List.mem_range.2 hlt, rfl⟩

theorem nodup_each : ((each count event id depth).map key).Nodup := by
  rw [each, List.map_map]
  refine List.nodup_range.map fun i j hij => ?_
  exact (Prod.mk.inj hij).1

end Moment

/-- A visitor being called, and what it asks for. -/
structure Turn extends Moment where
  calls : List VisitCall

def Turn.skips (id : Nat) (t : Turn) : Bool :=
  t.event == .enter && t.id == id && t.calls.any (· matches .skipChildren)

namespace Session

variable (d : Document)

def after (s : Session) (t : Turn) : Session := t.calls.foldl (apply d t.event t.id t.depth) s

/-- The turns of visitors at a node, the first of which is the visitor `first`. -/
def turnsAt (event : VisitEvent) (id depth : Nat) : Nat → List Visitor → Session → List Turn
  | _, [], _ => []
  | first, v :: rest, s =>
    let t : Turn := ⟨⟨first, event, id, depth⟩, v.calls (s.site d event id depth)⟩
    t :: turnsAt event id depth (first + 1) rest (s.after d t)

def turns (visitors : List Visitor) : List VisitStep → Session → List Turn
  | [], _ => []
  | .enter (.node id children) depth :: rest, s =>
    let (skips, next) := visit d .enter id depth visitors s
    turnsAt d .enter id depth 0 visitors s ++
      if skips then turns visitors (.leave id depth :: rest) next
      else turns visitors
        (VisitStep.enterAll (depth + 1) children ++ .leave id depth :: rest) next
  | .leave id depth :: rest, s =>
    turnsAt d .leave id depth 0 visitors s ++
      turns visitors rest (visit d .leave id depth visitors s).2
termination_by steps => VisitStep.weights steps
decreasing_by
  · simp only [VisitStep.weights, List.foldr_cons, VisitStep.weight, Tree.size]
    omega
  · rw [VisitStep.weights_append, VisitStep.weights_enterAll]
    simp only [VisitStep.weights, List.foldr_cons, VisitStep.weight, Tree.size]
    omega
  · simp only [VisitStep.weights, List.foldr_cons, VisitStep.weight]
    omega

/-- Turns at each of which the visitor asks for what it asks for in the session that the turns
before have left. -/
def Played (visitors : List Visitor) : Session → List Turn → Prop
  | _, [] => True
  | s, t :: ts =>
    (∃ v, visitors[t.visitor]? = some v ∧ t.calls = v.calls (s.site d t.event t.id t.depth)) ∧
      Played visitors (s.after d t) ts

variable {d} {visitors : List Visitor} {s : Session}

theorem played_append {ts ts' : List Turn} : Played d visitors s (ts ++ ts') ↔
    Played d visitors s ts ∧ Played d visitors (ts.foldl (after d) s) ts' := by
  induction ts generalizing s with
  | nil => exact (true_and _).symm.to_iff
  | cons t ts ih => exact (and_congr_right' ih).trans and_assoc.symm

section At

variable (event : VisitEvent) (id depth : Nat) (s : Session)

theorem foldl_turnsAt (first : Nat) (vs : List Visitor) :
    (turnsAt d event id depth first vs s).foldl (after d) s = (visit d event id depth vs s).2 := by
  induction vs generalizing first s with
  | nil => rfl
  | cons v rest ih => exact ih _ (first + 1)

theorem skips_visit (first : Nat) (vs : List Visitor) : (visit d .enter id depth vs s).1 =
    (turnsAt d .enter id depth first vs s).any (·.skips id) := by
  induction vs generalizing first s with
  | nil => rfl
  | cons v rest ih =>
      let t : Turn := ⟨⟨first, .enter, id, depth⟩, v.calls (s.site d .enter id depth)⟩
      have ht : t.skips id = t.calls.any (· matches .skipChildren) := by
        rw [Turn.skips, beq_self_eq_true, beq_self_eq_true, Bool.true_and, Bool.true_and]
      rw [turnsAt, List.any_cons, Bool.or_comm, ht, ← ih (s.after d t) (first + 1)]
      rfl

theorem played_turnsAt {first : Nat} {vs : List Visitor} (hvs : visitors.drop first = vs) :
    Played d visitors s (turnsAt d event id depth first vs s) := by
  induction vs generalizing first s with
  | nil => exact trivial
  | cons v rest ih =>
      have hfirst : visitors[first]? = some v := by
        rw [← Nat.add_zero first, ← List.getElem?_drop, hvs]
        rfl
      refine ⟨⟨v, hfirst, rfl⟩, ih _ ?_⟩
      rw [← List.drop_drop, hvs]
      rfl

theorem moments_turnsAt (first : Nat) (vs : List Visitor) :
    (turnsAt d event id depth first vs s).map Turn.toMoment =
      (List.range' first vs.length).map (⟨·, event, id, depth⟩) := by
  induction vs generalizing first s with
  | nil => rfl
  | cons v rest ih => exact congrArg (_ :: ·) (ih _ (first + 1))

end At

/-- The session after a run is the one that its turns leave, each being played in its place. -/
theorem played_turns (visitors : List Visitor) (steps : List VisitStep) (s : Session) :
    Played d visitors s (turns d visitors steps s) ∧
      run d visitors steps s = (turns d visitors steps s).foldl (after d) s := by
  fun_induction run d visitors steps s with
  | case1 s =>
      rw [turns]
      exact ⟨trivial, rfl⟩
  | case2 id children depth rest s next hvisit ih =>
      have hnext := foldl_turnsAt (d := d) .enter id depth s 0 visitors
      rw [hvisit] at hnext
      rw [turns]
      simp only [hvisit, if_true, List.foldl_append, hnext, played_append]
      exact ⟨⟨played_turnsAt .enter id depth s rfl, ih.1⟩, ih.2⟩
  | case3 id children depth rest s skips next hvisit hskips ih =>
      have hnext := foldl_turnsAt (d := d) .enter id depth s 0 visitors
      rw [hvisit] at hnext
      simp only [turns, hvisit, if_neg hskips, List.foldl_append, hnext, played_append]
      exact ⟨⟨played_turnsAt .enter id depth s rfl, ih.1⟩, ih.2⟩
  | case4 id depth rest s ih =>
      simp only [turns, List.foldl_append, foldl_turnsAt, played_append]
      exact ⟨⟨played_turnsAt .leave id depth s rfl, ih.1⟩, ih.2⟩

theorem turns_append (steps rest : List VisitStep) (s : Session) :
    turns d visitors (steps ++ rest) s =
      turns d visitors steps s ++ turns d visitors rest (run d visitors steps s) := by
  fun_induction run d visitors steps s with
  | case1 s => rw [turns, List.nil_append, List.nil_append]
  | case2 id children depth tail s next hvisit ih =>
      rw [List.cons_append] at ih ⊢
      simp only [turns, hvisit, if_true] at ih ⊢
      rw [ih]
      simp only [List.append_assoc]
  | case3 id children depth tail s skips next hvisit hskips ih =>
      rw [List.append_assoc, List.cons_append] at ih
      rw [List.cons_append]
      simp only [turns, hvisit, if_neg hskips]
      rw [ih, List.append_assoc]
  | case4 id depth tail s ih =>
      rw [List.cons_append]
      simp only [turns]
      rw [ih, List.append_assoc]

theorem turns_enter (id depth : Nat) (children : List Tree) (s : Session) :
    turns d visitors [.enter (.node id children) depth] s =
      turnsAt d .enter id depth 0 visitors s ++
        ((if (visit d .enter id depth visitors s).1 then [] else
          turns d visitors (VisitStep.enterAll (depth + 1) children)
            (visit d .enter id depth visitors s).2) ++
        turnsAt d .leave id depth 0 visitors (run d visitors
          (if (visit d .enter id depth visitors s).1 then [] else
            VisitStep.enterAll (depth + 1) children) (visit d .enter id depth visitors s).2)) := by
  have hleave (s : Session) : turns d visitors [.leave id depth] s =
      turnsAt d .leave id depth 0 visitors s := by
    rw [turns, turns, List.append_nil]
  rw [turns]
  by_cases hskips : (visit d .enter id depth visitors s).1
  · simp only [if_pos hskips, hleave, run, List.nil_append]
  · simp only [if_neg hskips, turns_append, hleave]

end Session

namespace Document

/-- The order in which a recursive visit calls visitors at a node and below it, where nothing below
the nodes in `skips` is visited. -/
def walk (d : Document) (visitors : Nat) (skips : Nat → Bool) (id depth : Nat) : List Moment :=
  Moment.each visitors .enter id depth ++
    ((if skips id then [] else (d.children id).flatMap fun c =>
      if _h : id < c ∧ c < d.nodes.size then walk d visitors skips c (depth + 1) else []) ++
    Moment.each visitors .leave id depth)
termination_by d.nodes.size - id

variable {d : Document}

theorem walk_eq (hw : d.WellFormed) (visitors : Nat) (skips : Nat → Bool) (id depth : Nat) :
    d.walk visitors skips id depth = Moment.each visitors .enter id depth ++
      ((if skips id then [] else
        (d.children id).flatMap fun c => d.walk visitors skips c (depth + 1)) ++
      Moment.each visitors .leave id depth) := by
  rw [walk]
  congr 3
  refine List.flatMap_congr fun c hc => ?_
  exact if_pos (hw.parent c id ((mem_children_iff hw).1 hc))

theorem depth_of_mem_walk (hw : d.WellFormed) {visitors : Nat} {skips : Nat → Bool}
    {id depth : Nat} {m : Moment} (hm : m ∈ d.walk visitors skips id depth) :
    m.depth + (d.ancestors id).length = depth + (d.ancestors m.id).length := by
  induction hn : d.nodes.size - id using Nat.strong_induction_on generalizing id depth with
  | _ n ih =>
      rw [walk_eq hw] at hm
      have hown {event : VisitEvent} (h : m ∈ Moment.each visitors event id depth) :
          m.depth + (d.ancestors id).length = depth + (d.ancestors m.id).length := by
        obtain ⟨-, -, rfl, rfl⟩ := Moment.mem_each_iff.1 h
        rfl
      rcases List.mem_append.1 hm with h | h
      · exact hown h
      · rcases List.mem_append.1 h with h | h
        · split at h
          · cases h
          · obtain ⟨c, hc, hmc⟩ := List.mem_flatMap.1 h
            have hp : (d.node c).parent = some id := (mem_children_iff hw).1 hc
            obtain ⟨hlt, hsize⟩ := hw.parent c id hp
            have hc := ih (d.nodes.size - c) (by omega) hmc rfl
            rw [ancestors_eq hw.forward hp, List.length_cons] at hc
            omega
        · exact hown h

end Document

namespace Turn

variable {ts : List Turn} {x : Nat}

theorem any_skips_eq_false (h : ∀ t ∈ ts, t.id ≠ x) : ts.any (·.skips x) = false := by
  refine List.any_eq_false.2 fun t ht hskips => h t ht ?_
  rw [skips, Bool.and_eq_true, Bool.and_eq_true, beq_iff_eq] at hskips
  exact eq_of_beq hskips.1.2

theorem any_skips_eq_false_of_leave (h : ∀ t ∈ ts, t.event = .leave) :
    ts.any (·.skips x) = false := by
  refine List.any_eq_false.2 fun t ht hskips => ?_
  rw [skips, h t ht] at hskips
  cases hskips

def AllAt (ts : List Turn) (count : Nat) (event : VisitEvent) (id depth : Nat) : Prop :=
  ts.map Turn.toMoment = Moment.each count event id depth

theorem AllAt.mem {count id depth : Nat} {event : VisitEvent}
    (h : AllAt ts count event id depth) : ∀ t ∈ ts, t.event = event ∧ t.id = id := by
  intro t ht
  obtain ⟨-, hevent, hid, -⟩ := Moment.mem_each_iff.1 (h ▸ List.mem_map_of_mem ht)
  exact ⟨hevent, hid⟩

end Turn

/-- Turns at the nodes `id … last` only, none of them a second time, in the order of a recursive
visit. -/
structure Walks (ts : List Turn) (id last : Nat) (walk : (Nat → Bool) → List Moment) : Prop where
  within : ∀ t ∈ ts, id ≤ t.id ∧ t.id ≤ last
  nodup : ((ts.map Turn.toMoment).map Moment.key).Nodup
  moments : ∀ skips : Nat → Bool, (∀ x, id ≤ x → x ≤ last → skips x = ts.any (·.skips x)) →
    ts.map Turn.toMoment = walk skips

namespace Walks

variable {ts ts' : List Turn} {id stop last depth : Nat} {walk walk' : (Nat → Bool) → List Moment}

theorem nil : Walks [] id last fun _ => [] := ⟨nofun, List.nodup_nil, fun _ _ => rfl⟩

theorem nodup_append (h : ((ts.map Turn.toMoment).map Moment.key).Nodup)
    (h' : ((ts'.map Turn.toMoment).map Moment.key).Nodup)
    (hne : ∀ t ∈ ts, ∀ t' ∈ ts', t.event = t'.event → t.id ≠ t'.id) :
    (((ts ++ ts').map Turn.toMoment).map Moment.key).Nodup := by
  rw [List.map_append, List.map_append]
  refine h.append h' fun k hk hk' => ?_
  simp only [List.map_map, List.mem_map] at hk hk'
  obtain ⟨t, ht, rfl⟩ := hk
  obtain ⟨t', ht', heq⟩ := hk'
  obtain ⟨hevent, hid⟩ := Prod.mk.inj (Prod.mk.inj heq).2
  exact hne t ht t' ht' hevent.symm hid.symm

theorem append (h : Walks ts id stop walk) (h' : Walks ts' (stop + 1) last walk')
    (hidstop : id ≤ stop) (hstoplast : stop ≤ last) :
    Walks (ts ++ ts') id last fun skips => walk skips ++ walk' skips := by
  have hwithin := h.within
  have hwithin' := h'.within
  refine ⟨fun t ht => ?_, nodup_append h.nodup h'.nodup fun t ht t' ht' _ => ?_,
    fun skips hskips => ?_⟩
  · rcases List.mem_append.1 ht with ht | ht
    · exact ⟨(hwithin t ht).1, (hwithin t ht).2.trans hstoplast⟩
    · exact ⟨by linarith [(hwithin' t ht).1], (hwithin' t ht).2⟩
  · linarith [(hwithin t ht).2, (hwithin' t' ht').1]
  · rw [List.map_append, h.moments skips fun x hx hxstop => ?_,
      h'.moments skips fun x hx hxlast => ?_]
    · have hfirst : ts.any (·.skips x) = false :=
        Turn.any_skips_eq_false fun t ht => by linarith [(hwithin t ht).2]
      rw [hskips x (by omega) hxlast, List.any_append, hfirst, Bool.false_or]
    · have hrest : ts'.any (·.skips x) = false :=
        Turn.any_skips_eq_false fun t ht => by linarith [(hwithin' t ht).1]
      rw [hskips x hx (by omega), List.any_append, hrest, Bool.or_false]

theorem around {count : Nat} {entering leaving : List Turn} (hle : id ≤ last)
    (hentering : Turn.AllAt entering count .enter id depth)
    (hleaving : Turn.AllAt leaving count .leave id depth)
    (hskip : entering.any (·.skips id) → ts = [])
    (h : ¬ entering.any (·.skips id) → Walks ts (id + 1) last walk) :
    Walks (entering ++ (ts ++ leaving)) id last fun skips =>
      Moment.each count .enter id depth ++ ((if skips id then [] else walk skips) ++
        Moment.each count .leave id depth) := by
  obtain ⟨hwithin, hnodup⟩ : (∀ t ∈ ts, id + 1 ≤ t.id ∧ t.id ≤ last) ∧
      ((ts.map Turn.toMoment).map Moment.key).Nodup := by
    by_cases hany : entering.any (·.skips id)
    · rw [hskip hany]
      exact ⟨nofun, List.nodup_nil⟩
    · exact ⟨(h hany).within, (h hany).nodup⟩
  refine ⟨?_, ?_, fun skips hskips => ?_⟩
  · simp only [List.mem_append]
    rintro t (ht | ht | ht)
    · exact ⟨(hentering.mem t ht).2.ge, (hentering.mem t ht).2.le.trans hle⟩
    · exact ⟨by linarith [(hwithin t ht).1], (hwithin t ht).2⟩
    · exact ⟨(hleaving.mem t ht).2.ge, (hleaving.mem t ht).2.le.trans hle⟩
  · refine nodup_append (hentering ▸ Moment.nodup_each) (nodup_append hnodup
      (hleaving ▸ Moment.nodup_each) fun t ht t' ht' _ => ?_) fun t ht t' ht' hevent => ?_
    · linarith [(hwithin t ht).1, (hleaving.mem t' ht').2]
    · rcases List.mem_append.1 ht' with ht' | ht'
      · linarith [(hwithin t' ht').1, (hentering.mem t ht).2]
      · rw [(hentering.mem t ht).1, (hleaving.mem t' ht').1] at hevent
        cases hevent
  · have hleave (x : Nat) : leaving.any (·.skips x) = false :=
      Turn.any_skips_eq_false_of_leave fun t ht => (hleaving.mem t ht).1
    have hid : skips id = entering.any (·.skips id) := by
      have hbelow : ts.any (·.skips id) = false :=
        Turn.any_skips_eq_false fun t ht => by linarith [(hwithin t ht).1]
      rw [hskips id le_rfl hle, List.any_append, List.any_append, hbelow, hleave, Bool.or_false,
        Bool.or_false]
    have hmoments : ts.map Turn.toMoment = if skips id then [] else walk skips := by
      split
      case isTrue hyes => rw [hskip (hid ▸ hyes), List.map_nil]
      case isFalse hno =>
        refine (h (hid ▸ hno)).moments skips fun x hx hxlast => ?_
        have hown : entering.any (·.skips x) = false :=
          Turn.any_skips_eq_false fun t ht => by linarith [(hentering.mem t ht).2]
        rw [hskips x (by omega) hxlast, List.any_append, List.any_append, hown, hleave,
          Bool.or_false, Bool.false_or]
    rw [List.map_append, List.map_append, hentering, hleaving, hmoments]

end Walks

namespace Session

theorem allAt_turnsAt (d : Document) (event : VisitEvent) (id depth : Nat) (vs : List Visitor)
    (s : Session) :
    Turn.AllAt (turnsAt d event id depth 0 vs s) vs.length event id depth := by
  rw [Turn.AllAt, moments_turnsAt, Moment.each, List.range_eq_range']

end Session

def Visitor.outside : Visitor := ⟨fun s => if s.isElement then [.skipChildren] else []⟩

namespace Document

variable {d : Document}

theorem walks_turns (visitors : List Visitor) (hw : d.WellFormed) (hl : d.outline.Linked)
    (hpre : d.outline.Preordered) {id last : Nat} (hlast : last < d.nodes.size)
    (habove : ∀ x, d.outline.Above id x ↔ id ≤ x ∧ x ≤ last) :
    ∀ depth s, Walks (Session.turns d visitors [.enter (d.tree id) depth] s) id last
      (d.walk visitors.length · id depth) := by
  refine preorder_induction hl hpre
    (P := fun id last => ∀ depth s,
      Walks (Session.turns d visitors [.enter (d.tree id) depth] s) id last
        (d.walk visitors.length · id depth))
    (Q := fun _ id last => ∀ depth s,
      Walks (Session.turns d visitors (VisitStep.enterAll depth (d.forest id)) s) id last
        fun skips => (d.siblingsFrom id).flatMap (d.walk visitors.length skips · depth))
    ?_ ?_ hlast habove
  · intro id last hle hlast habove hchild ih depth s
    simp only [walk_eq hw _ _ id, children]
    rw [tree_eq hw.forward, Session.turns_enter, Session.skips_visit id depth s 0 visitors, hchild]
    refine Walks.around hle (Session.allAt_turnsAt d .enter id depth visitors s)
      (Session.allAt_turnsAt d .leave id depth visitors _) (fun hskip => if_pos hskip)
      fun hno => ?_
    rw [if_neg hno]
    by_cases hlt : id < last
    · rw [if_pos hlt] at hchild ⊢
      exact ih hlt ((hl.first id).of_eq_some hchild) (depth + 1) _
    · rw [if_neg hlt, Option.elim_none, VisitStep.enterAll, List.map_nil, Session.turns]
      exact .nil
  · intro p id stop last hidstop hstoplast hp hid hnext ih depth s
    rw [forest_eq hw.forward, siblingsFrom_eq hw.forward, VisitStep.enterAll, List.map_cons,
      ← List.singleton_append, Session.turns_append, ← VisitStep.enterAll]
    simp only [List.flatMap_cons]
    refine (hid depth s).append ?_ hidstop hstoplast
    rw [hnext]
    by_cases hmore : stop < last
    · rw [if_pos hmore] at hnext ⊢
      obtain ⟨-, q, hq, hpnext⟩ := (hl.next id).of_eq_some hnext
      obtain rfl : p = q := Option.some.inj (hp.symm.trans hq)
      exact ih hmore hpnext depth _
    · rw [if_neg hmore, Option.elim_none, VisitStep.enterAll, List.map_nil, Session.turns]
      exact .nil

def turns (d : Document) (visitors : List Visitor) : List Turn :=
  Session.turns d visitors [.enter (d.tree Builder.root) 0] (.start d)

/-- Visitors are called in the order of a recursive visit, whatever they ask to skip: at each node
once on the way down and once on the way up, unless it lies below a skipped one. The edits and notes
of a visit are those of its turns. -/
theorem moments_turns_of_parse {o : ParseOptions} {text : String}
    (h : parse o text = .ok d) (visitors : List Visitor) :
    Session.Played d visitors (.start d) (d.turns visitors) ∧
      d.visit visitors = (d.turns visitors).foldl (Session.after d) (.start d) ∧
      (d.turns visitors).map Turn.toMoment =
        d.walk visitors.length (fun id => (d.turns visitors).any (·.skips id)) Builder.root 0 ∧
      (((d.turns visitors).map Turn.toMoment).map Moment.key).Nodup ∧
      ∀ t ∈ d.turns visitors, t.depth = (d.ancestors t.id).length := by
  have hw := wellFormed_of_parse h
  obtain ⟨lexed, b, -, hbuilt, hd⟩ := exists_built_of_parse h
  have hg : (BladeTree.outline d.nodes).Growing [] d.size := by
    rw [hd]
    exact hbuilt.growing
  have hl : d.outline.Linked := hg.linked
  obtain ⟨hplayed, hvisit⟩ := Session.played_turns (d := d) visitors
    [.enter (d.tree Builder.root) 0] (.start d)
  have hwalks := walks_turns visitors hw hl hg.preordered
    (Nat.sub_lt hl.nonempty Nat.one_pos) (above_root_iff hl) 0 (.start d)
  have hmoments := hwalks.moments _ fun x _ _ => rfl
  refine ⟨hplayed, hvisit, hmoments, hwalks.nodup, fun t ht => ?_⟩
  have hdepth := depth_of_mem_walk hw (hmoments ▸ List.mem_map_of_mem ht)
  have hroot : d.ancestors Builder.root = [] := by
    rw [ancestors, (hw.orphan Builder.root hw.nonempty).2 rfl]
  rwa [hroot, List.length_nil, Nat.add_zero, Nat.zero_add] at hdepth

theorem moments_turns_outside : ∃ d,
    parse (.ofDirectives []) "<a><b></b></a>c" = .ok d ∧
      d.walk 2 (fun id => (d.turns [⟨fun _ => []⟩, .outside]).any (·.skips id)) Builder.root 0 =
        [⟨0, .enter, 0, 0⟩, ⟨1, .enter, 0, 0⟩, ⟨0, .enter, 1, 1⟩, ⟨1, .enter, 1, 1⟩,
          ⟨0, .leave, 1, 1⟩, ⟨1, .leave, 1, 1⟩, ⟨0, .enter, 7, 1⟩, ⟨1, .enter, 7, 1⟩,
          ⟨0, .leave, 7, 1⟩, ⟨1, .leave, 7, 1⟩, ⟨0, .leave, 0, 0⟩, ⟨1, .leave, 0, 0⟩] := by
  have hread : (parse (.ofDirectives []) "<a><b></b></a>c").toOption.map
        (fun d => (d.turns [⟨fun _ => []⟩, .outside]).map Turn.toMoment) = some
        [⟨0, .enter, 0, 0⟩, ⟨1, .enter, 0, 0⟩, ⟨0, .enter, 1, 1⟩, ⟨1, .enter, 1, 1⟩,
          ⟨0, .leave, 1, 1⟩, ⟨1, .leave, 1, 1⟩, ⟨0, .enter, 7, 1⟩, ⟨1, .enter, 7, 1⟩,
          ⟨0, .leave, 7, 1⟩, ⟨1, .leave, 7, 1⟩, ⟨0, .leave, 0, 0⟩, ⟨1, .leave, 0, 0⟩] := by cbv
  obtain ⟨d, hd, hmoments⟩ := Option.map_eq_some_iff.1 hread
  have hparse := eq_ok_of_toOption hd
  exact ⟨d, hparse, (moments_turns_of_parse hparse [⟨fun _ => []⟩, .outside]).2.2.1 ▸ hmoments⟩

end Document
end BladeTree
