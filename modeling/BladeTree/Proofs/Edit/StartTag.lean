import BladeTree.Proofs.Edit.Attributes
import BladeTree.Proofs.Edit.Output

namespace BladeTree

/-- What remains of a list without what is dropped and without a blank right before it. -/
def remaining {α : Type} (drops blank : α → Bool) : List α → List α
  | [] => []
  | p :: rest =>
    if drops p || blank p && rest.head?.any drops then remaining drops blank rest
    else p :: remaining drops blank rest

def beforeBlank {α : Type} (blank : α → Bool) (ps : List α) : List α :=
  if ps.getLast?.any blank then ps.dropLast else ps

def lastBlank {α : Type} (blank : α → Bool) (ps : List α) : List α :=
  (ps.getLast?.filter blank).toList

section Remaining

variable {α β : Type} {drops blank : α → Bool}

theorem remaining_map (f : β → α) (ps : List β) :
    remaining drops blank (ps.map f) = (remaining (drops ∘ f) (blank ∘ f) ps).map f := by
  induction ps with
  | nil => rfl
  | cons p rest ih =>
      rw [List.map_cons, remaining, remaining, ih, List.head?_map, Option.any_map,
        apply_ite (List.map f)]
      rfl

theorem lastBlank_cases (blank : α → Bool) (ps : List α) :
    ps.getLast?.any blank = false ∧ beforeBlank blank ps = ps ∧ lastBlank blank ps = [] ∨
      ∃ p, blank p ∧ ps = beforeBlank blank ps ++ [p] ∧ lastBlank blank ps = [p] := by
  unfold beforeBlank lastBlank
  cases hlast : ps.getLast? with
  | none => exact .inl ⟨rfl, rfl, rfl⟩
  | some p =>
      by_cases hp : blank p
      · refine .inr ⟨p, hp, ?_, by simp [Option.filter_some, hp]⟩
        rw [Option.any_some, if_pos hp, List.dropLast_append_getLast? p hlast]
      · refine .inl ⟨by simp [hp], by simp [hp], by simp [Option.filter_some, hp]⟩

theorem beforeBlank_map (f : β → α) (ps : List β) :
    beforeBlank blank (ps.map f) = (beforeBlank (blank ∘ f) ps).map f := by
  unfold beforeBlank
  rw [List.getLast?_map, Option.any_map, ← List.map_dropLast, apply_ite (List.map f)]
  rfl

theorem lastBlank_map (f : β → α) (ps : List β) :
    lastBlank blank (ps.map f) = (lastBlank (blank ∘ f) ps).map f := by
  unfold lastBlank
  rw [List.getLast?_map, Option.filter_map, Option.toList_map]

theorem remaining_eq_self {ps : List α} (h : ∀ p ∈ ps, drops p = false) :
    remaining drops blank ps = ps := by
  induction ps with
  | nil => rfl
  | cons p rest ih =>
      obtain ⟨hp, hrest⟩ := List.forall_mem_cons.1 h
      have hhead : rest.head?.any drops = false := by
        rw [Option.any_eq_false]
        exact fun q hq => by simp [hrest q (List.mem_of_head? hq)]
      rw [remaining, hp, hhead, Bool.and_false, Bool.or_self, ih hrest]
      rfl

theorem drops_of_mem_remaining {ps : List α} {p : α} (h : p ∈ remaining drops blank ps) :
    drops p = false := by
  induction ps with
  | nil => cases h
  | cons q rest ih =>
      rw [remaining] at h
      split at h
      · exact ih h
      · rename_i hstays
        rcases List.mem_cons.1 h with rfl | h
        · rw [Bool.or_eq_true, not_or] at hstays
          exact eq_false_of_ne_true hstays.1
        · exact ih h

theorem filterMap_remaining {g : α → Option β} (h : ∀ p, (g p).isSome → blank p = false)
    (ps : List α) :
    (remaining drops blank ps).filterMap g = (ps.filter (!drops ·)).filterMap g := by
  induction ps with
  | nil => rfl
  | cons p rest ih =>
      rw [remaining]
      by_cases hp : drops p
      · rw [hp, Bool.true_or, if_pos rfl, ih, List.filter_cons_of_neg]
        simp [hp]
      · rw [List.filter_cons_of_pos (by simp [hp])]
        cases hg : g p with
        | none =>
            rw [List.filterMap_cons_none hg, ← ih]
            split
            · rfl
            · exact List.filterMap_cons_none hg
        | some c =>
            have hblank : blank p = false := h p (by rw [hg, Option.isSome_some])
            rw [eq_false_of_ne_true hp, hblank]
            simp [hg, ih]

end Remaining

namespace PartOutput

def isDropped : PartOutput → Bool
  | dropped => true
  | _ => false

def isBlank : PartOutput → Bool
  | blank _ => true
  | _ => false

def isAppended : PartOutput → Bool
  | appended _ => true
  | _ => false

def alone : PartOutput → List Piece
  | pieces ps => ps
  | blank text => [.plain text]
  | dropped => []
  | appended ps => ps

variable {ps body rest : List PartOutput}

theorem mem_join {piece : Piece} {held : List Piece} (h : piece ∈ join held ps) :
    piece ∈ held ∨ ∃ p ∈ ps, piece ∈ p.alone := by
  induction ps generalizing held with
  | nil => exact .inl h
  | cons p rest ih =>
      have hrest {held : List Piece} (h : piece ∈ join held rest) :
          piece ∈ held ∨ ∃ q ∈ p :: rest, piece ∈ q.alone :=
        (ih h).imp_right fun ⟨q, hq, hpiece⟩ => ⟨q, List.mem_cons_of_mem p hq, hpiece⟩
      cases p with
      | pieces new =>
          rw [join, List.append_assoc] at h
          rcases List.mem_append.1 h with h | h
          · exact .inl h
          · rcases List.mem_append.1 h with h | h
            · exact .inr ⟨_, List.mem_cons_self, h⟩
            · exact .inr ((hrest h).resolve_left List.not_mem_nil)
      | blank text =>
          rw [join] at h
          rcases List.mem_append.1 h with h | h
          · exact .inl h
          · rcases hrest h with h | h
            · exact .inr ⟨_, List.mem_cons_self, h⟩
            · exact .inr h
      | dropped =>
          rw [join] at h
          exact .inr ((hrest h).resolve_left List.not_mem_nil)
      | appended new =>
          rw [join] at h
          rcases List.mem_append.1 h with h | h
          · exact .inr ⟨_, List.mem_cons_self, h⟩
          · exact hrest h

/-- A blank that is held back goes if what follows it is dropped. -/
theorem join_eq (h : ∀ p ∈ ps, p.isAppended = false) (held : List Piece) :
    join held ps = (if ps.head?.any isDropped then [] else held) ++
      (remaining isDropped isBlank ps).flatMap alone := by
  induction ps generalizing held with
  | nil => exact (List.append_nil held).symm
  | cons p rest ih =>
      obtain ⟨hp, hrest⟩ := List.forall_mem_cons.1 h
      cases p with
      | pieces ps =>
          rw [join, ih hrest, remaining]
          simp [isDropped, isBlank, alone]
      | blank text =>
          rw [join, ih hrest, remaining]
          by_cases hdrop : rest.head?.any isDropped
          · simp [hdrop, isDropped, isBlank]
          · simp [hdrop, isDropped, isBlank, alone]
      | dropped =>
          rw [join, ih hrest, remaining]
          simp [isDropped]
      | appended ps => cases hp

theorem join_append (h : ∀ p ∈ body, p.isAppended = false)
    (hplace : body.getLast?.any isBlank = false ∨ rest.head?.any isBlank) (held : List Piece)
    (hheld : body = [] → held = []) : join held (body ++ rest) = join held body ++ join [] rest := by
  induction body generalizing held with
  | nil =>
      rw [hheld rfl]
      rfl
  | cons p body ih =>
      obtain ⟨hp, hbody⟩ := List.forall_mem_cons.1 h
      have hplace' : body.getLast?.any isBlank = false ∨ rest.head?.any isBlank := by
        cases body with
        | nil => exact .inl rfl
        | cons q body => rwa [List.getLast?_cons_cons] at hplace
      rw [List.cons_append]
      cases p with
      | pieces ps =>
          rw [join, join, ih hbody hplace' [] fun _ => rfl]
          simp
      | blank text =>
          rw [join, join]
          by_cases hnil : body = []
          · subst hnil
            rcases hplace with hlast | hhead
            · cases hlast
            · cases rest with
              | nil => cases hhead
              | cons q rest =>
                  cases q with
                  | blank text' => simp [join]
                  | _ => cases hhead
          · rw [ih hbody hplace' [.plain text] fun heq => absurd heq hnil]
            simp
      | dropped => rw [join, join, ih hbody hplace' [] fun _ => rfl]
      | appended ps => cases hp

theorem join_appended_nil (held : List Piece) :
    join held (body ++ .appended [] :: rest) = join held (body ++ rest) := by
  induction body generalizing held with
  | nil => rfl
  | cons p body ih =>
      rw [List.cons_append, List.cons_append]
      cases p with
      | pieces ps => rw [join, join, ih]
      | blank text => rw [join, join, ih]
      | dropped => rw [join, join, ih]
      | appended ps => rw [join, join, ih]

theorem join_appended {ps : List PartOutput} (h : ∀ p ∈ ps, p.isAppended = false)
    (new : List Piece) : join [] (ps ++ .appended new :: rest) =
      join [] (beforeBlank isBlank ps) ++ new ++ join [] (lastBlank isBlank ps ++ rest) := by
  rcases lastBlank_cases isBlank ps with ⟨hno, hbefore, hlast⟩ | ⟨p, hp, hps, hlast⟩
  · rw [hbefore, hlast, join_append h (.inl hno) [] fun _ => rfl, List.append_assoc]
    rfl
  · rw [hlast]
    generalize beforeBlank isBlank ps = body at hps ⊢
    subst hps
    have hhead : ([p] ++ .appended new :: rest).head?.any isBlank := hp
    rw [List.append_assoc, join_append (fun q hq => h q (List.mem_append_left _ hq))
      (.inr hhead) [] fun _ => rfl, List.append_assoc]
    cases p with
    | blank text => rfl
    | _ => cases hp

end PartOutput

namespace Document

variable (d : Document)

def partPieces : ElementPart → List Piece
  | .child w => w.pieces
  | .own token => [.plain (d.tokenText token (token + 1))]

def isTagBlank (tagEnd : Nat) : ElementPart → Bool
  | .child _ => false
  | .own token => token < tagEnd && d.kind? token == some .whitespace

def losesPart (e : NodeEdits) : ElementPart → Bool
  | .child w => d.kind w.id == .attr && e.removesAttribute (d.attributeName w.id)
  | .own _ => false

variable {d} {e : NodeEdits} {id tagEnd : Nat} {ws : List Written}

theorem isBlank_editPart (e : NodeEdits) (tagEnd : Nat) (p : ElementPart) :
    (d.editPart e tagEnd p).isBlank = d.isTagBlank tagEnd p := by
  cases p with
  | own token =>
      unfold editPart isTagBlank
      simp only
      by_cases h : token < tagEnd ∧ d.kind? token = some .whitespace
      · simp [h, PartOutput.isBlank]
      · rw [if_neg h]
        simp only [PartOutput.isBlank]
        simpa using h
  | child w =>
      unfold editPart isTagBlank
      simp only
      split
      · rfl
      · rfl
      · rw [editAttribute_eq_change]
        split <;> rfl
      · rfl

theorem isAppended_editPart (e : NodeEdits) (tagEnd : Nat) (p : ElementPart) :
    (d.editPart e tagEnd p).isAppended = false := by
  cases p with
  | own token =>
      unfold editPart
      simp only
      split <;> rfl
  | child w =>
      unfold editPart
      simp only
      split
      · rfl
      · rfl
      · rw [editAttribute_eq_change]
        split <;> rfl
      · rfl

end Document

namespace NodeEdits

def removing (patterns : List String) : NodeEdits := { empty with removedAttributes := patterns }

def setting (name value : String) : NodeEdits := { empty with setAttributes := [(name, value)] }

theorem record_removing (patterns : List String) :
    (patterns.map EditCall.removeAttribute).foldl EditCall.record empty = removing patterns := by
  have hfrom (before : List String) :
      (patterns.map EditCall.removeAttribute).foldl EditCall.record (removing before) =
        removing (before ++ patterns) := by
    induction patterns generalizing before with
    | nil => rw [List.append_nil]; rfl
    | cons pattern patterns ih =>
        have hstep : EditCall.record (removing before) (.removeAttribute pattern) =
            removing (before ++ [pattern]) := rfl
        rw [List.map_cons, List.foldl_cons, hstep, ih, List.append_assoc]
        rfl
  exact hfrom []

theorem change_removing (patterns : List String) (name : String) (old : Option String) :
    (removing patterns).change name old =
      if (removing patterns).removesAttribute name then .dropped else .kept := by
  have hset : (removing patterns).setAttributes.lookup name = none := rfl
  have hclass : (removing patterns).hasClassEdits = false := rfl
  unfold change
  simp [hset, hclass]

theorem appended_setting (name value : String) (as : Attributes) :
    (setting name value).appended as = if (as.lookup name).isNone then [(name, value)] else [] := by
  unfold appended setting
  simp only [List.filter_cons, List.filter_nil]
  simp [empty]

theorem change_setting (name value other : String) (old : Option String) :
    (setting name value).change other old = if other = name then .value value else .kept := by
  have hset : (setting name value).setAttributes.lookup other =
      if other = name then some value else none := by
    rw [setting, List.lookup_cons, List.lookup_nil]
    by_cases h : other = name
    · simp [h]
    · simp [beq_false_of_ne h, h]
  have hremoves : (setting name value).removesAttribute other = false := rfl
  have hclass : (setting name value).hasClassEdits = false := rfl
  unfold change
  rw [hset]
  by_cases h : other = name
  · simp [h]
  · simp [h, hremoves, hclass]

end NodeEdits

namespace Document

variable {d : Document} {id tagEnd : Nat} {ws : List Written}

theorem editPart_child {e : NodeEdits} (hname : e.newName = none) (tagEnd : Nat) (w : Written) :
    d.editPart e tagEnd (.child w) =
      if d.kind w.id = .attr then d.editAttribute e w else .pieces w.pieces := by
  unfold editPart
  simp only [hname]
  by_cases hk : d.kind w.id = .attr
  · rw [hk]
    rfl
  · rw [if_neg hk]
    split
    · cases ‹_ = some _›
    · cases ‹_ = some _›
    · exact absurd ‹_› hk
    · rfl

theorem alone_editPart_own (e : NodeEdits) (tagEnd token : Nat) :
    (d.editPart e tagEnd (.own token)).isDropped = false ∧
      (d.editPart e tagEnd (.own token)).alone = d.partPieces (.own token) := by
  unfold editPart
  simp only
  split <;> exact ⟨rfl, rfl⟩

theorem losesPart_child (e : NodeEdits) (w : Written) : d.losesPart e (.child w) =
    (d.kind w.id == .attr && e.removesAttribute (d.attributeName w.id)) := rfl

theorem isDropped_removing (patterns : List String) (tagEnd : Nat) (p : ElementPart) :
    (d.editPart (.removing patterns) tagEnd p).isDropped =
      d.losesPart (.removing patterns) p := by
  cases p with
  | own token => exact (alone_editPart_own _ _ _).1
  | child w =>
      rw [editPart_child rfl, losesPart_child]
      by_cases hk : d.kind w.id = .attr
      · rw [if_pos hk, editAttribute_eq_change, NodeEdits.change_removing, hk]
        by_cases hr : (NodeEdits.removing patterns).removesAttribute (d.attributeName w.id)
        · simp [hr, PartOutput.isDropped]
        · simp [hr, PartOutput.isDropped]
      · rw [if_neg hk, beq_false_of_ne hk]
        rfl

theorem alone_removing {patterns : List String} {p : ElementPart}
    (h : d.losesPart (.removing patterns) p = false) (tagEnd : Nat) :
    (d.editPart (.removing patterns) tagEnd p).alone = d.partPieces p := by
  cases p with
  | own token => exact (alone_editPart_own _ _ _).2
  | child w =>
      rw [losesPart_child] at h
      rw [editPart_child rfl]
      by_cases hk : d.kind w.id = .attr
      · rw [hk, beq_self_eq_true, Bool.true_and] at h
        rw [if_pos hk, editAttribute_eq_change, NodeEdits.change_removing, if_neg (by simp [h])]
        rfl
      · rw [if_neg hk]
        rfl

def settingPieces (d : Document) (name value : String) : ElementPart → List Piece
  | .child w =>
    if d.kind w.id = .attr ∧ d.attributeName w.id = name then
      [.plain (d.attributeText w.id name value)]
    else w.pieces
  | .own token => [.plain (d.tokenText token (token + 1))]

theorem editPart_setting (name value : String) (tagEnd : Nat) (p : ElementPart) :
    (d.editPart (.setting name value) tagEnd p).isDropped = false ∧
      (d.editPart (.setting name value) tagEnd p).alone = d.settingPieces name value p := by
  cases p with
  | own token => exact alone_editPart_own _ _ _
  | child w =>
      rw [editPart_child rfl]
      unfold settingPieces
      by_cases hk : d.kind w.id = .attr
      · rw [if_pos hk, editAttribute_eq_change, NodeEdits.change_setting]
        by_cases hname : d.attributeName w.id = name
        · simp [hk, hname, PartOutput.isDropped, PartOutput.alone]
        · simp [hname, PartOutput.isDropped, PartOutput.alone]
      · simp [hk, PartOutput.isDropped, PartOutput.alone]

/-! The rebuilt element -/

theorem isDirective_editPart (e : NodeEdits) (tagEnd : Nat) {p : ElementPart}
    (hp : ∀ q ∈ d.partPieces p, q.isDirective = false) :
    ∀ q ∈ (d.editPart e tagEnd p).alone, q.isDirective = false := by
  have hplain {s : String} : ∀ q ∈ [Piece.plain s], q.isDirective = false :=
    List.forall_mem_singleton.2 rfl
  cases p with
  | own token =>
      rw [(alone_editPart_own e tagEnd token).2]
      exact hp
  | child w =>
      unfold editPart
      simp only
      split
      · exact hplain
      · exact hplain
      · rw [editAttribute_eq_change]
        split
        · exact hp
        · nofun
        · exact hplain
      · exact hp

theorem isDirective_newAttributes (e : NodeEdits) (id : Nat) (hasClass : Bool) :
    ∀ q ∈ d.newAttributes e id hasClass, q.isDirective = false := by
  intro q hq
  unfold newAttributes at hq
  rcases List.mem_append.1 hq with hq | hq
  · obtain ⟨_, -, rfl⟩ := List.mem_map.1 hq
    rfl
  · split at hq
    · cases hq
    · rw [List.mem_singleton.1 hq]
      rfl

theorem isDirective_editElement (e : NodeEdits)
    (hws : ∀ p ∈ d.elementParts (d.node id).tokenStart (d.node id).tokenEnd ws,
      ∀ q ∈ d.partPieces p, q.isDirective = false) :
    ∀ q ∈ d.editElement e id ws, q.isDirective = false := by
  intro q hq
  unfold editElement at hq
  simp only [List.span_eq_takeWhile_dropWhile] at hq
  obtain ⟨out, hout, hq⟩ := (PartOutput.mem_join hq).resolve_left List.not_mem_nil
  have hpart {ps : List ElementPart} (hps : ps ⊆
      d.elementParts (d.node id).tokenStart (d.node id).tokenEnd ws)
      (hout : out ∈ ps.map (d.editPart e (d.startTagEnd id))) : q.isDirective = false := by
    obtain ⟨p, hp, rfl⟩ := List.mem_map.1 hout
    exact isDirective_editPart e _ (hws p (hps hp)) q hq
  rcases List.mem_append.1 hout with hout | hout
  · exact hpart (List.takeWhile_sublist _).subset hout
  · rcases List.mem_cons.1 hout with rfl | hout
    · exact isDirective_newAttributes e id _ q hq
    · exact hpart (List.dropWhile_sublist _).subset hout

theorem isAppended_of_mem_map (e : NodeEdits) (tagEnd : Nat) {ps : List ElementPart}
    {p : PartOutput} (hp : p ∈ ps.map (d.editPart e tagEnd)) : p.isAppended = false := by
  obtain ⟨q, -, rfl⟩ := List.mem_map.1 hp
  exact isAppended_editPart e tagEnd q

/-- Where attributes are removed, all other parts of an element are written as they are, but for the
blanks right before those attributes. -/
theorem editElement_removing (patterns : List String) (id : Nat) (ws : List Written) :
    d.editElement (.removing patterns) id ws =
      (remaining (d.losesPart (.removing patterns)) (d.isTagBlank (d.startTagEnd id))
        (d.elementParts (d.node id).tokenStart (d.node id).tokenEnd ws)).flatMap
          d.partPieces := by
  have hdrops : PartOutput.isDropped ∘ d.editPart (.removing patterns) (d.startTagEnd id) =
      d.losesPart (.removing patterns) := funext fun p => isDropped_removing patterns _ p
  have hblank : PartOutput.isBlank ∘ d.editPart (.removing patterns) (d.startTagEnd id) =
      d.isTagBlank (d.startTagEnd id) := funext fun p => isBlank_editPart _ _ p
  unfold editElement
  simp only [d.newAttributes_eq_nil (e := .removing patterns) rfl rfl]
  rw [PartOutput.join_appended_nil, ← List.map_append, List.span_eq_takeWhile_dropWhile,
    List.takeWhile_append_dropWhile, PartOutput.join_eq fun p => isAppended_of_mem_map _ _,
    ite_self, List.nil_append, remaining_map, hdrops, hblank, List.flatMap_map]
  refine List.flatMap_congr fun p hp => ?_
  exact alone_removing (drops_of_mem_remaining hp) _

theorem join_setting (name value : String) (tagEnd : Nat) (ps : List ElementPart) :
    PartOutput.join [] (ps.map (d.editPart (.setting name value) tagEnd)) =
      ps.flatMap (d.settingPieces name value) := by
  have hstays : ∀ p ∈ ps.map (d.editPart (.setting name value) tagEnd), p.isDropped = false := by
    intro p hp
    obtain ⟨q, -, rfl⟩ := List.mem_map.1 hp
    exact (editPart_setting name value tagEnd q).1
  rw [PartOutput.join_eq fun p => isAppended_of_mem_map _ _, ite_self, List.nil_append,
    remaining_eq_self hstays, List.flatMap_map]
  exact List.flatMap_congr fun p _ => (editPart_setting name value tagEnd p).2

/-- Where an attribute is set, all other parts of an element are written as they are. A new one goes
to the end of the start tag, before a blank there. -/
theorem editElement_setting (name value : String) (id : Nat) (ws : List Written)
    {inTag rest : List ElementPart}
    (hspan : (d.elementParts (d.node id).tokenStart (d.node id).tokenEnd ws).span
      (d.isBeforeTagEnd (d.startTagEnd id)) = (inTag, rest)) :
    d.editElement (.setting name value) id ws =
      (beforeBlank (d.isTagBlank (d.startTagEnd id)) inTag).flatMap (d.settingPieces name value) ++
        (if (d.attribute? id name).isNone then
          [.plain (NewNode.attributeText (name, some value))] else []) ++
        (lastBlank (d.isTagBlank (d.startTagEnd id)) inTag ++ rest).flatMap
          (d.settingPieces name value) := by
  have hnew (c : Bool) : d.newAttributes (.setting name value) id c =
      if (d.attribute? id name).isNone then
        [.plain (NewNode.attributeText (name, some value))] else [] := by
    rw [d.newAttributes_eq_appended (.inr rfl), NodeEdits.appended_setting,
      lookup_attributeList_isNone]
    split <;> rfl
  have hblank : PartOutput.isBlank ∘ d.editPart (.setting name value) (d.startTagEnd id) =
      d.isTagBlank (d.startTagEnd id) := funext fun p => isBlank_editPart _ _ p
  unfold editElement
  simp only [hspan, hnew]
  rw [PartOutput.join_appended fun p => isAppended_of_mem_map _ _, beforeBlank_map, lastBlank_map,
    hblank, ← List.map_append, join_setting, join_setting]

end Document
end BladeTree
