import BladeTree.Edit.Scripted
import BladeTree.Edit.Recipe
import BladeTree.Proofs.Edit.Request

namespace BladeTree

/-! Visitors whose calls are known before the run -/

namespace Visitor

variable {d : Document} {v : Visitor}

/-- The calls do not depend on what is removed already. -/
def SeesSource (v : Visitor) (d : Document) : Prop :=
  ∀ s : Site, s.document = d → ∀ removed, v.calls { s with removed } = v.calls s

def Descends (v : Visitor) (d : Document) : Prop :=
  ∀ s : Site, s.document = d → s.event = .enter → .skipChildren ∉ v.calls s

def requestsAt (v : Visitor) (s : Site) : List Request := (v.calls s).filterMap (·.request? s.id)

theorem seesSource_ofRules (rules : List VisitRule) : (ofRules rules).SeesSource d :=
  fun _ _ _ => rfl

end Visitor

namespace Recipe

variable {d : Document} {r : Recipe}

theorem seesSource_visitor (r : Recipe) : r.visitor.SeesSource d := by
  intro s _ removed
  cases r with
  | _ => rfl

theorem descends_visitor (hr : ∀ pattern, r ≠ .removeDirective pattern) :
    r.visitor.Descends d := by
  intro s _ hevent hskip
  have hcalls : r.visitor.calls s = (r.elementCalls s).map .edit := by
    cases r with
    | removeDirective pattern => exact absurd rfl (hr pattern)
    | _ => exact if_pos hevent
  rw [hcalls, List.mem_map] at hskip
  obtain ⟨c, -, hc⟩ := hskip
  cases hc

end Recipe

mutual

def Tree.sites (d : Document) (depth : Nat) : Tree → List Site
  | .node id children =>
    ⟨d, .enter, id, depth, false⟩ :: sitesAll d (depth + 1) children ++
      [⟨d, .leave, id, depth, false⟩]

def Tree.sitesAll (d : Document) (depth : Nat) : List Tree → List Site
  | [] => []
  | t :: rest => t.sites d depth ++ sitesAll d depth rest

end

def VisitStep.sites (d : Document) : VisitStep → List Site
  | enter tree depth => tree.sites d depth
  | leave id depth => [⟨d, .leave, id, depth, false⟩]

theorem VisitStep.sites_enterAll (d : Document) (depth : Nat) (ts : List Tree) :
    (enterAll depth ts).flatMap (sites d) = Tree.sitesAll d depth ts := by
  induction ts with
  | nil => rfl
  | cons t ts ih =>
      rw [enterAll, List.map_cons, List.flatMap_cons, ← enterAll, ih, Tree.sitesAll, sites]

namespace Session

variable {d : Document} {visitors : List Visitor}

theorem requestsAt_eq (hsees : ∀ v ∈ visitors, v.SeesSource d) (event : VisitEvent)
    (id depth : Nat) (s : Session) : requestsAt d event id depth visitors s =
      visitors.flatMap (·.requestsAt ⟨d, event, id, depth, false⟩) := by
  induction visitors generalizing s with
  | nil => rfl
  | cons v rest ih =>
      obtain ⟨hv, hrest⟩ := List.forall_mem_cons.1 hsees
      rw [requestsAt, ih hrest, List.flatMap_cons, Visitor.requestsAt,
        ← hv ⟨d, event, id, depth, false⟩ rfl (s.edits.isGone d id)]
      rfl

theorem visit_enter_eq_false (hdescends : ∀ v ∈ visitors, v.Descends d) (id depth : Nat)
    (s : Session) : (visit d .enter id depth visitors s).1 = false := by
  induction visitors generalizing s with
  | nil => rfl
  | cons v rest ih =>
      obtain ⟨hv, hrest⟩ := List.forall_mem_cons.1 hdescends
      rw [visit]
      simp only [ih hrest, Bool.false_or]
      rw [List.any_eq_false]
      intro c hc hmatch
      cases c with
      | skipChildren => exact hv _ rfl rfl hc
      | edit | note => cases hmatch

theorem requests_eq (hsees : ∀ v ∈ visitors, v.SeesSource d)
    (hdescends : ∀ v ∈ visitors, v.Descends d) (steps : List VisitStep) (s : Session) :
    requests d visitors steps s =
      (steps.flatMap (VisitStep.sites d)).flatMap fun site =>
        visitors.flatMap (·.requestsAt site) := by
  fun_induction requests d visitors steps s with
  | case1 s => rfl
  | case2 id children depth rest s skips next hvisit ih ih' =>
      have hskips : skips = false := by
        rw [← visit_enter_eq_false hdescends id depth s, hvisit]
      rw [if_neg (by rw [hskips]; nofun), ih', requestsAt_eq hsees]
      simp only [List.flatMap_append, List.flatMap_cons, VisitStep.sites_enterAll, VisitStep.sites,
        Tree.sites, List.flatMap_nil, List.append_assoc, List.cons_append]
  | case3 s id depth rest ih =>
      rw [ih, requestsAt_eq hsees]
      rfl

end Session

theorem Document.requests_eq {d : Document} {visitors : List Visitor}
    (hsees : ∀ v ∈ visitors, v.SeesSource d) (hdescends : ∀ v ∈ visitors, v.Descends d) :
    d.requests visitors = ((d.tree Builder.root).sites d 0).flatMap fun site =>
      visitors.flatMap (·.requestsAt site) := by
  rw [requests, Session.requests_eq hsees hdescends, List.flatMap_singleton, VisitStep.sites]

/-! Edits that do not touch one another -/

namespace Edits

variable {d : Document} {es ea eb : Edits} {id x : Nat} {c : EditCall}

/-- No node has edits of both, and neither takes away a node around one with edits of the other. -/
structure Independent (ea eb : Edits) (d : Document) : Prop where
  disjoint : ∀ x, (ea.get? x).isSome → eb.get? x = .none
  left : ∀ x, (ea.get? x).isSome → ∀ p ∈ d.ancestors x, eb.isReplaced p = false
  right : ∀ x, (eb.get? x).isSome → ∀ p ∈ d.ancestors x, ea.isReplaced p = false

theorem Independent.symm (h : ea.Independent eb d) : eb.Independent ea d where
  disjoint x hx := by
    rw [← Option.not_isSome_iff_eq_none]
    intro hxa
    rw [h.disjoint x hxa] at hx
    cases hx
  left := h.right
  right := h.left

/-- What is edited or replaced stays so. -/
structure Within (es es' : Edits) : Prop where
  edited : ∀ x, (es.get? x).isSome → (es'.get? x).isSome
  replaced : ∀ x, es.isReplaced x → es'.isReplaced x

theorem within_replay (es : Edits) (d : Document) (rs : List Request) :
    es.Within (es.replay d rs) := by
  induction rs generalizing es with
  | nil => exact ⟨fun _ h => h, fun _ h => h⟩
  | cons r rs ih =>
      constructor
      · intro x hx
        exact (ih _).edited x (isSome_get?_apply hx)
      · intro x hx
        exact (ih _).replaced x (isReplaced_apply hx)

theorem Independent.of_within {fa : Edits} (h : fa.Independent eb d) (ha : ea.Within fa) :
    ea.Independent eb d where
  disjoint x hx := h.disjoint x (ha.edited x hx)
  left x hx := h.left x (ha.edited x hx)
  right x hx p hp := by
    have hfree := h.right x hx p hp
    rw [Bool.eq_false_iff] at hfree ⊢
    exact fun hreplaced => hfree (ha.replaced p hreplaced)

theorem accepts_of_within (h : es.Within ea) {t : EditCall.Target}
    (haccepts : ea.accepts d id t) : es.accepts d id t := by
  have hinside : ea.isInsideReplaced d id = false → es.isInsideReplaced d id = false := by
    simp only [isInsideReplaced, List.any_eq_false]
    exact fun hfree p hp hreplaced => hfree p hp (h.replaced p hreplaced)
  have hgone : ea.isGone d id = false → es.isGone d id = false := by
    simp only [isGone, Bool.or_eq_false_iff]
    rintro ⟨hown, habove⟩
    exact ⟨Bool.eq_false_iff.2 fun hreplaced => Bool.eq_false_iff.1 hown (h.replaced id hreplaced),
      hinside habove⟩
  cases t with
  | live => simpa only [accepts, Bool.not_eq_true'] using hgone (by simpa [accepts] using haccepts)
  | place =>
      simpa only [accepts, Bool.not_eq_true'] using hinside (by simpa [accepts] using haccepts)
  | startTag =>
      simp only [accepts, Bool.and_eq_true, Bool.not_eq_true'] at haccepts ⊢
      exact ⟨haccepts.1, hgone haccepts.2⟩
  | nothing => cases haccepts

/-- The edits of both, each at its own nodes. -/
structure Joins (es ea eb : Edits) : Prop where
  left : es.slots.size = ea.slots.size
  right : es.slots.size = eb.slots.size
  get : ∀ x, es.get? x = (ea.get? x).or (eb.get? x)

theorem Joins.symm (h : es.Joins ea eb) (hindependent : ea.Independent eb d) :
    es.Joins eb ea where
  left := h.right
  right := h.left
  get x := by
    rw [h.get]
    cases hx : ea.get? x with
    | none => rw [Option.none_or, Option.or_none]
    | some e => rw [hindependent.disjoint x (by rw [hx]; rfl), Option.or_none, Option.none_or]

theorem Joins.eq {es' : Edits} (h : es.Joins ea eb) (h' : es'.Joins ea eb) : es = es' :=
  ext_get? (h.left.trans h'.left.symm) fun x => (h.get x).trans (h'.get x).symm

theorem Joins.within (h : es.Joins ea eb) : ea.Within es := by
  have hget {x : Nat} (hx : (ea.get? x).isSome) : es.get? x = ea.get? x := by
    rw [h.get, Option.or_of_isSome hx]
  constructor
  · intro x hx
    rwa [hget hx]
  · intro x hx
    have hsome : (ea.get? x).isSome := by
      rw [isReplaced] at hx
      obtain ⟨e, he, -⟩ := (Option.any_eq_true _ _).1 hx
      rw [he]
      rfl
    rwa [isReplaced, hget hsome]

theorem Joins.isReplaced_of_left (h : es.Joins ea eb) (hx : eb.isReplaced x = false) :
    es.isReplaced x = ea.isReplaced x := by
  rw [isReplaced, isReplaced, h.get]
  cases ea.get? x with
  | none => exact hx
  | some e => rfl

theorem Joins.apply (h : es.Joins ea eb) (hindependent : (ea.apply d id c).Independent eb d) :
    (es.apply d id c).Joins (ea.apply d id c) eb := by
  refine ⟨by rw [size_apply, size_apply, h.left], by rw [size_apply, h.right], fun x => ?_⟩
  by_cases htaken : ea.accepts d id c.target ∧ id < ea.slots.size
  · obtain ⟨haccepts, hid⟩ := htaken
    have hedited : ((ea.apply d id c).get? id).isSome := by
      rw [get?_apply, if_pos ⟨rfl, hid, haccepts⟩]
      rfl
    have hfree : eb.get? id = .none := hindependent.disjoint id hedited
    have hown : es.get? id = ea.get? id := by rw [h.get, hfree, Option.or_none]
    have hsame : es.accepts d id c.target = ea.accepts d id c.target := by
      apply accepts_congr
      intro p hp
      apply h.isReplaced_of_left
      rcases List.mem_cons.1 hp with rfl | hp
      · rw [isReplaced, hfree]
        rfl
      · exact hindependent.left id hedited p hp
    rw [get?_apply, get?_apply, hsame, h.left, hown, h.get x]
    split
    · rfl
    · rfl
  · have htaken' : ¬ (es.accepts d id c.target ∧ id < es.slots.size) := by
      rintro ⟨haccepts, hid⟩
      exact htaken ⟨accepts_of_within h.within haccepts, h.left ▸ hid⟩
    rw [apply_eq_self htaken, apply_eq_self htaken', h.get x]

theorem Joins.replay (h : es.Joins ea eb) {rs : List Request}
    (hindependent : (ea.replay d rs).Independent eb d) :
    (es.replay d rs).Joins (ea.replay d rs) eb := by
  induction rs generalizing es ea with
  | nil => exact h
  | cons r rs ih =>
      exact ih (h.apply (hindependent.of_within (within_replay _ d rs))) hindependent

theorem Joins.replay_flatMap {α : Type} (h : es.Joins ea eb) (as bs : α → List Request)
    (xs : List α)
    (hindependent : (ea.replay d (xs.flatMap as)).Independent (eb.replay d (xs.flatMap bs)) d) :
    (es.replay d (xs.flatMap fun x => as x ++ bs x)).Joins (ea.replay d (xs.flatMap as))
      (eb.replay d (xs.flatMap bs)) := by
  induction xs generalizing es ea eb with
  | nil => exact h
  | cons x xs ih =>
      simp only [List.flatMap_cons, replay_append] at hindependent ⊢
      have hfirst : (ea.replay d (as x)).Independent (eb.replay d (bs x)) d :=
        ((hindependent.of_within (within_replay _ d _)).symm.of_within (within_replay _ d _)).symm
      have hleft : (es.replay d (as x)).Joins (ea.replay d (as x)) eb :=
        h.replay (hfirst.symm.of_within (within_replay eb d (bs x))).symm
      have hboth := (hleft.symm (hfirst.symm.of_within (within_replay eb d (bs x))).symm).replay
        hfirst.symm
      exact ih (hboth.symm hfirst.symm) hindependent

end Edits

namespace Document

variable {d : Document} {a b : Visitor}

/-- The edits of two independent visitors in one run are those of each in a run of its own. -/
theorem joins_visit (hsees : ∀ v ∈ [a, b], v.SeesSource d) (hdescends : ∀ v ∈ [a, b], v.Descends d)
    (hindependent : (d.visit [a]).edits.Independent (d.visit [b]).edits d) :
    (d.visit [a, b]).edits.Joins (d.visit [a]).edits (d.visit [b]).edits := by
  have halone {v : Visitor} (hv : v ∈ [a, b]) : d.requests [v] =
      ((d.tree Builder.root).sites d 0).flatMap v.requestsAt := by
    rw [requests_eq (List.forall_mem_singleton.2 (hsees v hv))
      (List.forall_mem_singleton.2 (hdescends v hv))]
    simp only [List.flatMap_singleton]
  have hboth : d.requests [a, b] = ((d.tree Builder.root).sites d 0).flatMap fun site =>
      a.requestsAt site ++ b.requestsAt site := by
    rw [requests_eq hsees hdescends]
    simp only [List.flatMap_cons, List.flatMap_nil, List.append_nil]
  have hnone : (Edits.none d).Joins (.none d) (.none d) :=
    ⟨rfl, rfl, fun x => by rw [Edits.get?_none, Option.none_or]⟩
  simp only [edits_visit_eq, hboth, halone List.mem_cons_self,
    halone (List.mem_cons_of_mem a List.mem_cons_self)] at hindependent ⊢
  exact hnone.replay_flatMap _ _ _ hindependent

/-- Which of two independent visitors comes first makes no difference. -/
theorem transform_comm (hsees : ∀ v ∈ [a, b], v.SeesSource d)
    (hdescends : ∀ v ∈ [a, b], v.Descends d)
    (hindependent : (d.visit [a]).edits.Independent (d.visit [b]).edits d) :
    d.transform [a, b] = d.transform [b, a] := by
  have hswap {v : Visitor} (hv : v ∈ [b, a]) : v ∈ [a, b] := by
    simpa [or_comm] using hv
  have hab := joins_visit hsees hdescends hindependent
  have hba := joins_visit (fun v hv => hsees v (hswap hv)) (fun v hv => hdescends v (hswap hv))
    hindependent.symm
  rw [transform, transform, hab.eq (hba.symm hindependent.symm)]

theorem eq_of_isSome_get?_apply {id x : Nat} {c : EditCall}
    (h : (((Edits.none d).replay d [⟨id, c⟩]).get? x).isSome) : x = id := by
  by_contra hne
  rw [Edits.replay, List.foldl_cons, List.foldl_nil, Edits.get?_apply_of_ne hne,
    Edits.get?_none] at h
  cases h

def wrapsBold : Visitor := (Recipe.wrapElements "b" (.block "if" (some "a") [])).visitor

def marksItalic : Visitor := (Recipe.addClass "i" ["x"]).visitor

theorem transform_comm_nested : ∃ d,
    parse (.ofDirectives []) "<b><i></i></b>" = .ok d ∧
      d.requests [wrapsBold] = [⟨1, .wrapWith (.block "if" (some "a") [])⟩] ∧
      d.requests [marksItalic] = [⟨3, .addClass "x"⟩] ∧
      d.transform [wrapsBold, marksItalic] = d.transform [marksItalic, wrapsBold] := by
  have hread : (parse (.ofDirectives [])
      "<b><i></i></b>").toOption.map (fun d => (d.requests [wrapsBold], d.requests [marksItalic],
        (d.ancestors 1).any (d.visit [marksItalic]).edits.isReplaced,
        (d.ancestors 3).any (d.visit [wrapsBold]).edits.isReplaced)) =
      some ([⟨1, .wrapWith (.block "if" (some "a") [])⟩], [⟨3, .addClass "x"⟩], false, false) := by
    cbv
  obtain ⟨d, hd, hall⟩ := Option.map_eq_some_iff.1 hread
  simp only [Prod.mk.injEq, List.any_eq_false, Bool.not_eq_true] at hall
  obtain ⟨hwraps, hmarks, hleft, hright⟩ := hall
  have hone {x : Nat} (hx : ((d.visit [wrapsBold]).edits.get? x).isSome) : x = 1 := by
    rw [edits_visit_eq, hwraps] at hx
    exact eq_of_isSome_get?_apply hx
  have hthree {x : Nat} (hx : ((d.visit [marksItalic]).edits.get? x).isSome) : x = 3 := by
    rw [edits_visit_eq, hmarks] at hx
    exact eq_of_isSome_get?_apply hx
  refine ⟨d, eq_ok_of_toOption hd, hwraps, hmarks, transform_comm ?_ ?_ ⟨?_, ?_, ?_⟩⟩
  · exact List.forall_mem_cons.2 ⟨Recipe.seesSource_visitor _,
      List.forall_mem_singleton.2 (Recipe.seesSource_visitor _)⟩
  · rw [List.forall_mem_cons, List.forall_mem_singleton]
    constructor
    · apply Recipe.descends_visitor
      intro pattern heq
      cases heq
    · apply Recipe.descends_visitor
      intro pattern heq
      cases heq
  · intro x hx
    rw [← Option.not_isSome_iff_eq_none]
    intro hx'
    have hboth : (1 : Nat) = 3 := (hone hx).symm.trans (hthree hx')
    omega
  · intro x hx
    rw [hone hx]
    exact hleft
  · intro x hx
    rw [hthree hx]
    exact hright

end Document
end BladeTree
