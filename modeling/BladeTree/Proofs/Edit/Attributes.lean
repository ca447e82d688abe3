import BladeTree.Edit.StartTag
import BladeTree.Proofs.Edit.ClassNames
import BladeTree.Proofs.Node.Metadata

namespace BladeTree

section Lookup

variable {α β γ : Type} [BEq α]

theorem lookup_map_some (entries : List (α × β)) (key : α) :
    (entries.map fun p => (p.1, some p.2)).lookup key = (entries.lookup key).map some := by
  induction entries with
  | nil => rfl
  | cons entry rest ih =>
      obtain ⟨k, v⟩ := entry
      rw [List.map_cons, List.lookup_cons, List.lookup_cons]
      cases key == k with
      | true => rfl
      | false => exact ih

variable [LawfulBEq α]

theorem lookup_filter_key (p : α → Bool) (entries : List (α × β))
    (key : α) : (entries.filter (p ·.1)).lookup key =
      if p key then entries.lookup key else none := by
  induction entries with
  | nil => simp
  | cons entry rest ih =>
      obtain ⟨k, v⟩ := entry
      rw [List.filter_cons, List.lookup_cons]
      by_cases hk : key == k
      · obtain rfl := eq_of_beq hk
        rw [hk]
        by_cases hp : p key
        · rw [if_pos hp, if_pos hp, List.lookup_cons, hk]
        · rw [if_neg hp, ih, if_neg hp, if_neg hp]
      · rw [eq_false_of_ne_true hk]
        by_cases hp : p k
        · rw [if_pos hp, List.lookup_cons, eq_false_of_ne_true hk, ih]
        · rw [if_neg hp, ih]

theorem lookup_filterMap (f : α → β → Option γ)
    {entries : List (α × β)} (hnodup : (entries.map (·.1)).Nodup) (key : α) :
    (entries.filterMap fun p => (f p.1 p.2).map (p.1, ·)).lookup key =
      (entries.lookup key).bind (f key) := by
  induction entries with
  | nil => rfl
  | cons entry rest ih =>
      obtain ⟨k, v⟩ := entry
      obtain ⟨hk, hrest⟩ := List.nodup_cons.1 hnodup
      rw [List.filterMap_cons, List.lookup_cons]
      by_cases hkey : key == k
      · obtain rfl := eq_of_beq hkey
        have hnone : rest.lookup key = none := by
          rw [List.lookup_eq_none_iff]
          intro p hp
          refine bne_iff_ne.2 fun heq => hk ?_
          rw [heq]
          exact List.mem_map_of_mem (f := (·.1)) hp
        rw [hkey]
        cases hf : f key v with
        | none =>
            simp only [hf, Option.map_none, ih hrest, hnone, Option.bind_none, Option.bind_some]
        | some w => simp only [hf, Option.map_some, List.lookup_cons, hkey, Option.bind_some]
      · rw [eq_false_of_ne_true hkey]
        cases f k v with
        | none => exact ih hrest
        | some w =>
            simp only [Option.map_some, List.lookup_cons, eq_false_of_ne_true hkey]
            exact ih hrest

end Lookup

/-- The names and values in a start tag. -/
abbrev Attributes := List (String × Option String)

/-- What becomes of an attribute of a start tag. -/
inductive AttributeChange where
  | kept
  | dropped
  | value (v : String)
  deriving DecidableEq

def AttributeChange.applied (old : Option String) : AttributeChange → Option (Option String)
  | kept => some old
  | dropped => none
  | value v => some (some v)

namespace NodeEdits

def change (e : NodeEdits) (name : String) (old : Option String) : AttributeChange :=
  match e.setAttributes.lookup name with
  | some v => .value v
  | none =>
    if e.removesAttribute name then .dropped
    else if name = "class" ∧ e.hasClassEdits then
      let classes := e.classes (old.getD "")
      if classes.isEmpty then .dropped else .value classes
    else .kept

def appended (e : NodeEdits) (as : Attributes) : List (String × String) :=
  e.setAttributes.filter (fun new => (as.lookup new.1).isNone) ++
    if (as.lookup "class").isSome || (e.setAttributes.lookup "class").isSome ||
      e.addedClasses.isEmpty then []
    else [("class", e.classes "")]

/-- The attributes of a start tag once it is written with the edits. -/
def written (e : NodeEdits) (as : Attributes) : Attributes :=
  as.filterMap (fun old => ((e.change old.1 old.2).applied old.2).map (old.1, ·)) ++
    (e.appended as).map fun new => (new.1, some new.2)

end NodeEdits

namespace Document

variable (d : Document)

def attributeList (id : Nat) : Attributes :=
  (d.attributes id).map fun a => (d.attributeName a, d.attributeValue? a)

theorem editAttribute_eq_change (e : NodeEdits) (w : Written) : d.editAttribute e w =
    match e.change (d.attributeName w.id) (d.attributeValue? w.id) with
    | .kept => .pieces w.pieces
    | .dropped => .dropped
    | .value v => .pieces [.plain (d.attributeText w.id (d.attributeName w.id) v)] := by
  unfold editAttribute NodeEdits.change
  simp only
  generalize d.attributeName w.id = name
  cases e.setAttributes.lookup name with
  | some value => rfl
  | none =>
      simp only
      by_cases hremoved : e.removesAttribute name
      · simp only [hremoved, if_true]
      · by_cases hclass : name = "class" ∧ e.hasClassEdits
        · obtain ⟨rfl, hlists⟩ := hclass
          simp only [hremoved, hlists, if_true, if_false, and_self, Bool.false_eq_true]
          split <;> rfl
        · simp only [hremoved, hclass, if_false, Bool.false_eq_true]

theorem lookup_attributeList_isNone (id : Nat) (name : String) :
    ((d.attributeList id).lookup name).isNone = (d.attribute? id name).isNone := by
  unfold attributeList attribute?
  induction d.attributes id with
  | nil => rfl
  | cons a as ih =>
      rw [List.map_cons, List.lookup_cons, List.find?_cons, Bool.beq_comm]
      cases d.attributeName a == name with
      | true => rfl
      | false => exact ih

theorem newAttributes_eq_appended {e : NodeEdits} {id : Nat} {hasClass : Bool}
    (h : hasClass = (d.attribute? id "class").isSome ∨ e.addedClasses = []) :
    d.newAttributes e id hasClass = (e.appended (d.attributeList id)).map fun new =>
      .plain (NewNode.attributeText (new.1, some new.2)) := by
  have hsome : ((d.attributeList id).lookup "class").isSome = (d.attribute? id "class").isSome := by
    rw [← Option.not_isNone, ← Option.not_isNone, lookup_attributeList_isNone]
  unfold newAttributes NodeEdits.appended
  simp only [lookup_attributeList_isNone, hsome, List.map_append]
  congr 1
  rcases h with rfl | hadded
  · split <;> rfl
  · simp [hadded]

theorem newAttributes_eq_nil {e : NodeEdits} (hset : e.setAttributes = [])
    (hadded : e.addedClasses = []) (id : Nat) (hasClass : Bool) :
    d.newAttributes e id hasClass = [] := by
  rw [newAttributes_eq_appended d (.inr hadded), NodeEdits.appended, hset, hadded]
  simp

end Document

namespace EditCall

variable (name : String)

/-- What a call by itself makes of the attribute with a name. -/
def onValue (old : Option (Option String)) : EditCall → Option (Option String)
  | setAttribute n v => if n = name then some (some v) else old
  | removeAttribute pattern => if globMatch pattern name then none else old
  | _ => old

/-- What a call by itself makes of the class names; none stands for no class attribute. -/
def onClasses (old : Option (Finset String)) : EditCall → Option (Finset String)
  | setAttribute n v => if n = "class" then some (NodeEdits.classNames v).toFinset else old
  | removeAttribute pattern => if globMatch pattern "class" then none else old
  | addClass c => some (insert c (old.getD ∅))
  | removeClass c => (old.map (·.erase c)).filter (· ≠ ∅)
  | _ => old

def listsClass : EditCall → Bool
  | addClass _ | removeClass _ => true
  | _ => false

def ownsClass : EditCall → Bool
  | setAttribute n _ => n == "class"
  | removeAttribute pattern => globMatch pattern "class"
  | _ => false

end EditCall

namespace NodeEdits

variable {e : NodeEdits} {as : Attributes} {name : String}

/-! Attributes one by one -/

def valueOf (e : NodeEdits) (name : String) (old : Option (Option String)) :
    Option (Option String) :=
  match e.setAttributes.lookup name with
  | some v => some (some v)
  | none => if e.removesAttribute name then none else old

theorem valueOf_record (c : EditCall) (old : Option (Option String)) :
    (c.record e).valueOf name old = c.onValue name (e.valueOf name old) := by
  cases c with
  | setAttribute n v =>
      unfold EditCall.record valueOf EditCall.onValue
      simp only [lookup_putKey, beq_iff_eq, eq_comm (a := name)]
      by_cases hn : n = name
      · simp only [hn, if_true]
      · simp only [hn, if_false]
        rfl
  | removeAttribute pattern =>
      have hremoves : (EditCall.record e (.removeAttribute pattern)).removesAttribute name =
          (e.removesAttribute name || globMatch pattern name) := by
        unfold EditCall.record removesAttribute
        rw [List.any_append, List.any_cons, List.any_nil, Bool.or_false]
      unfold valueOf EditCall.onValue
      rw [hremoves]
      unfold EditCall.record
      simp only [lookup_filter_key (fun n => !globMatch pattern n)]
      cases globMatch pattern name with
      | true => simp
      | false => simp
  | _ => rfl

theorem lookup_appended (e : NodeEdits) (as : Attributes) (name : String) :
    (e.appended as).lookup name = if (as.lookup name).isSome then none
      else (e.setAttributes.lookup name).or
        (if name = "class" ∧ e.addedClasses ≠ [] then some (e.classes "") else none) := by
  unfold appended
  rw [List.lookup_append, lookup_filter_key (fun n => (as.lookup n).isNone)]
  by_cases hname : name = "class"
  · subst hname
    cases has : as.lookup "class" with
    | some old => simp
    | none => cases hset : e.setAttributes.lookup "class" <;> cases hadded : e.addedClasses <;> simp
  · have hclass : (name == "class") = false := beq_eq_false_iff_ne.2 hname
    have hnone (c : Bool) :
        (if c then [] else [("class", e.classes "")]).lookup name = none := by
      cases c with
      | true => rfl
      | false =>
          simp only [Bool.false_eq_true, if_false]
          rw [List.lookup_cons, hclass]
          rfl
    have hother : ¬ (name = "class" ∧ e.addedClasses ≠ []) := fun h => hname h.1
    rw [hnone, Option.or_none, if_neg hother, Option.or_none]
    cases as.lookup name <;> rfl

theorem lookup_written (e : NodeEdits) (hnodup : (as.map (·.1)).Nodup) (name : String) :
    (e.written as).lookup name =
      match as.lookup name with
      | some old => (e.change name old).applied old
      | none => ((e.setAttributes.lookup name).or
          (if name = "class" ∧ e.addedClasses ≠ [] then some (e.classes "") else none)).map
            some := by
  have hnew : ((e.appended as).map fun new => (new.1, some new.2)).lookup name =
      ((e.appended as).lookup name).map some := lookup_map_some _ _
  unfold written
  rw [List.lookup_append, hnew, lookup_appended,
    lookup_filterMap (fun name old => (e.change name old).applied old) hnodup]
  cases as.lookup name with
  | none => rfl
  | some old => exact Option.or_none

theorem hasClassEdits_eq_false_iff :
    e.hasClassEdits = false ↔ e.addedClasses = [] ∧ e.removedClasses = [] := by
  unfold hasClassEdits
  rw [Bool.or_eq_false_iff, Bool.not_eq_false', Bool.not_eq_false', List.isEmpty_iff,
    List.isEmpty_iff]

theorem lookup_written_eq_valueOf (e : NodeEdits) (hnodup : (as.map (·.1)).Nodup)
    (h : name ≠ "class" ∨ e.hasClassEdits = false) :
    (e.written as).lookup name = e.valueOf name (as.lookup name) := by
  have hno : ¬ (name = "class" ∧ e.hasClassEdits) := by
    rintro ⟨hname, hlists⟩
    rcases h with h | h
    · exact h hname
    · rw [h] at hlists
      cases hlists
  have hnew : ¬ (name = "class" ∧ e.addedClasses ≠ []) := by
    rintro ⟨hname, hadded⟩
    rcases h with h | h
    · exact h hname
    · exact hadded (hasClassEdits_eq_false_iff.1 h).1
  rw [lookup_written e hnodup, if_neg hnew]
  unfold valueOf
  cases as.lookup name with
  | none => cases e.setAttributes.lookup name <;> simp
  | some old =>
      unfold change
      cases e.setAttributes.lookup name with
      | some v => rfl
      | none =>
          simp only [if_neg hno]
          split <;> rfl

/-! Class names -/

/-- The class names that are read from the class attribute, if there is one. -/
def readClasses (as : Attributes) : Option (Finset String) :=
  (as.lookup "class").map fun value => (classNames (value.getD "")).toFinset

structure ListsClasses (e : NodeEdits) : Prop where
  notSet : e.setAttributes.lookup "class" = none
  notRemoved : e.removesAttribute "class" = false
  proper : ∀ c ∈ e.addedClasses, IsClassName c

def classesOf (e : NodeEdits) (old : Option (Option String)) : Option (Finset String) :=
  match old with
  | some value =>
    if e.hasClassEdits ∧ e.classSet (value.getD "") = ∅ then none
    else some (e.classSet (value.getD ""))
  | none => if e.addedClasses = [] then none else some e.addedClasses.toFinset

theorem classSet_of_not_hasClassEdits (h : e.hasClassEdits = false) (value : String) :
    e.classSet value = (classNames value).toFinset := by
  obtain ⟨hadded, hremoved⟩ := hasClassEdits_eq_false_iff.1 h
  unfold classSet
  rw [hadded, hremoved]
  simp

theorem classSet_empty (e : NodeEdits) : e.classSet "" = e.addedClasses.toFinset := by
  unfold classSet
  rw [show classNames "" = [] from rfl]
  simp

theorem toFinset_classNames_classes (h : e.ListsClasses) (value : String) :
    (classNames (e.classes value)).toFinset = e.classSet value := by
  rw [classNames_classes h.proper, toFinset_classList]

theorem readClasses_written (h : e.ListsClasses) (hnodup : (as.map (·.1)).Nodup) :
    readClasses (e.written as) = e.classesOf (as.lookup "class") := by
  unfold readClasses
  rw [lookup_written e hnodup, h.notSet]
  unfold classesOf
  cases as.lookup "class" with
  | none =>
      cases hadded : e.addedClasses with
      | nil => simp
      | cons c cs =>
          simp [toFinset_classNames_classes h, classSet_empty, hadded]
  | some old =>
      unfold change
      simp only [h.notSet, h.notRemoved, true_and, Bool.false_eq_true, if_false]
      by_cases hlists : e.hasClassEdits
      · have hempty := classes_isEmpty_iff h.proper (old.getD "")
        simp only [hlists, if_true, true_and, hempty]
        by_cases hnone : e.classSet (old.getD "") = ∅
        · simp only [hnone, if_true]
          rfl
        · simp only [hnone, if_false, AttributeChange.applied, Option.map_some, Option.getD_some,
            toFinset_classNames_classes h]
      · have hset := classSet_of_not_hasClassEdits (eq_false_of_ne_true hlists) (old.getD "")
        simp only [hlists, false_and, Bool.false_eq_true, if_false, hset, AttributeChange.applied,
          Option.map_some]

theorem classSet_addClass (e : NodeEdits) (c value : String) :
    (EditCall.record e (.addClass c)).classSet value = insert c (e.classSet value) := by
  ext name
  unfold classSet EditCall.record
  by_cases hname : name = c <;> simp [hname]

theorem classSet_removeClass (e : NodeEdits) (c value : String) :
    (EditCall.record e (.removeClass c)).classSet value = (e.classSet value).erase c := by
  ext name
  unfold classSet EditCall.record
  by_cases hname : name = c <;> simp [hname]

theorem hasClassEdits_addClass (e : NodeEdits) (c : String) :
    (EditCall.record e (.addClass c)).hasClassEdits := by
  unfold hasClassEdits EditCall.record
  simp

theorem hasClassEdits_removeClass (e : NodeEdits) (c : String) :
    (EditCall.record e (.removeClass c)).hasClassEdits := by
  unfold hasClassEdits EditCall.record
  simp

theorem getD_classesOf (e : NodeEdits) (old : Option (Option String)) :
    (e.classesOf old).getD ∅ = e.classSet (old.join.getD "") := by
  unfold classesOf
  cases old with
  | none =>
      rw [Option.join_none, Option.getD_none, classSet_empty]
      by_cases hadded : e.addedClasses = []
      · rw [if_pos hadded, hadded]
        rfl
      · rw [if_neg hadded]
        rfl
  | some value =>
      rw [Option.join_some]
      by_cases hempty : e.hasClassEdits ∧ e.classSet (value.getD "") = ∅
      · simp [hempty]
      · simp only [if_neg hempty]
        rfl

theorem classesOf_of_hasClassEdits (h : e.hasClassEdits) (old : Option (Option String)) :
    e.classesOf old = (some (e.classSet (old.join.getD ""))).filter (· ≠ ∅) := by
  unfold classesOf
  cases old with
  | none =>
      rw [Option.join_none, Option.getD_none, classSet_empty]
      cases e.addedClasses <;> simp [Option.filter_some]
  | some value =>
      rw [Option.join_some]
      by_cases hempty : e.classSet (value.getD "") = ∅ <;> simp [Option.filter_some, h, hempty]

theorem classesOf_record (c : EditCall) (hc : c.ownsClass = false)
    (old : Option (Option String)) :
    (c.record e).classesOf old = c.onClasses (e.classesOf old) := by
  have hset := getD_classesOf e old
  cases c with
  | addClass c =>
      unfold EditCall.onClasses
      rw [classesOf_of_hasClassEdits (hasClassEdits_addClass e c), classSet_addClass, hset]
      simp
  | removeClass c =>
      unfold EditCall.onClasses
      rw [classesOf_of_hasClassEdits (hasClassEdits_removeClass e c), classSet_removeClass, ← hset]
      cases e.classesOf old with
      | none => simp
      | some classes => rfl
  | setAttribute n v =>
      have hn : ¬ n = "class" := beq_eq_false_iff_ne.1 hc
      exact (if_neg hn).symm
  | removeAttribute pattern =>
      have hpattern : ¬ globMatch pattern "class" := ne_true_of_eq_false hc
      exact (if_neg hpattern).symm
  | _ => rfl

theorem ListsClasses.record (h : e.ListsClasses) {c : EditCall} (hc : c.ownsClass = false)
    (hproper : ∀ name, c = .addClass name → IsClassName name) : (c.record e).ListsClasses := by
  cases c with
  | addClass c =>
      refine ⟨h.notSet, h.notRemoved, fun name hname => ?_⟩
      rcases List.mem_append.1 hname with hname | hname
      · exact h.proper name hname
      · rw [List.mem_singleton.1 hname]
        exact hproper c rfl
  | removeClass c =>
      exact ⟨h.notSet, h.notRemoved, fun name hname => h.proper name (List.mem_filter.1 hname).1⟩
  | setAttribute n v =>
      refine ⟨?_, h.notRemoved, h.proper⟩
      have hn : ("class" == n) = false := by rw [Bool.beq_comm]; exact hc
      unfold EditCall.record
      simp only [lookup_putKey, hn]
      exact h.notSet
  | removeAttribute pattern =>
      refine ⟨?_, ?_, h.proper⟩
      · unfold EditCall.record
        simp only [lookup_filter_key (fun n => !globMatch pattern n), h.notSet, ite_self]
      · unfold EditCall.record removesAttribute
        have hpattern : globMatch pattern "class" = false := hc
        rw [List.any_append, List.any_cons, List.any_nil, hpattern, Bool.or_false, Bool.or_false]
        exact h.notRemoved
  | _ => exact ⟨h.notSet, h.notRemoved, h.proper⟩

theorem listsClasses_empty : empty.ListsClasses := ⟨rfl, rfl, nofun⟩

/-! Calls one after another -/

theorem valueOf_foldl (calls : List EditCall) (old : Option (Option String)) :
    (calls.foldl EditCall.record e).valueOf name old =
      calls.foldl (EditCall.onValue name) (e.valueOf name old) := by
  induction calls generalizing e with
  | nil => rfl
  | cons c calls ih => rw [List.foldl_cons, List.foldl_cons, ih, valueOf_record]

theorem hasClassEdits_foldl {calls : List EditCall} (h : e.hasClassEdits = false)
    (hcalls : ∀ c ∈ calls, c.listsClass = false) :
    (calls.foldl EditCall.record e).hasClassEdits = false := by
  induction calls generalizing e with
  | nil => exact h
  | cons c calls ih =>
      refine ih ?_ fun c' hc' => hcalls c' (List.mem_cons_of_mem _ hc')
      have hc : c.listsClass = false := hcalls c List.mem_cons_self
      cases c with
      | addClass c => cases hc
      | removeClass c => cases hc
      | _ => exact h

theorem classesOf_foldl {calls : List EditCall} (h : ∀ c ∈ calls, c.ownsClass = false)
    (old : Option (Option String)) : (calls.foldl EditCall.record e).classesOf old =
      calls.foldl EditCall.onClasses (e.classesOf old) := by
  induction calls generalizing e with
  | nil => rfl
  | cons c calls ih =>
      rw [List.foldl_cons, List.foldl_cons, ih fun c' hc' => h c' (List.mem_cons_of_mem _ hc'),
        classesOf_record c (h c List.mem_cons_self)]

theorem ListsClasses.foldl (h : e.ListsClasses) {calls : List EditCall}
    (hcalls : ∀ c ∈ calls, c.ownsClass = false)
    (hproper : ∀ name, .addClass name ∈ calls → IsClassName name) :
    (calls.foldl EditCall.record e).ListsClasses := by
  induction calls generalizing e with
  | nil => exact h
  | cons c calls ih =>
      apply ih
      · apply h.record (hcalls c List.mem_cons_self)
        rintro name rfl
        exact hproper name List.mem_cons_self
      · exact fun c' hc' => hcalls c' (List.mem_cons_of_mem _ hc')
      · exact fun name hname => hproper name (List.mem_cons_of_mem _ hname)

theorem map_onValue_class {c : EditCall} (hc : c.listsClass = false)
    (old : Option (Option String)) :
    (c.onValue "class" old).map (fun value => (classNames (value.getD "")).toFinset) =
      c.onClasses (old.map fun value => (classNames (value.getD "")).toFinset) := by
  cases c with
  | addClass c => cases hc
  | removeClass c => cases hc
  | setAttribute n v =>
      unfold EditCall.onValue EditCall.onClasses
      simp only
      split <;> rfl
  | removeAttribute pattern =>
      unfold EditCall.onValue EditCall.onClasses
      simp only
      split <;> rfl
  | _ => rfl

theorem map_foldl_onValue_class {calls : List EditCall} (h : ∀ c ∈ calls, c.listsClass = false)
    (old : Option (Option String)) :
    (calls.foldl (EditCall.onValue "class") old).map
        (fun value => (classNames (value.getD "")).toFinset) =
      calls.foldl EditCall.onClasses
        (old.map fun value => (classNames (value.getD "")).toFinset) := by
  induction calls generalizing old with
  | nil => rfl
  | cons c calls ih =>
      rw [List.foldl_cons, List.foldl_cons, ih fun c' hc' => h c' (List.mem_cons_of_mem _ hc'),
        map_onValue_class (h c List.mem_cons_self)]

theorem classesOf_empty (as : Attributes) :
    empty.classesOf (as.lookup "class") = readClasses as := by
  unfold classesOf readClasses
  cases as.lookup "class" with
  | none => rfl
  | some value =>
      have hset := classSet_of_not_hasClassEdits (show empty.hasClassEdits = false from rfl)
        (value.getD "")
      simp only [hset]
      rfl

/-- Apart from the class attribute, edits of a start tag have the effect of the calls one after
another. -/
theorem lookup_written_foldl (hnodup : (as.map (·.1)).Nodup) (calls : List EditCall)
    (hname : name ≠ "class") :
    ((calls.foldl EditCall.record empty).written as).lookup name =
      calls.foldl (EditCall.onValue name) (as.lookup name) := by
  rw [lookup_written_eq_valueOf _ hnodup (.inl hname), valueOf_foldl]
  rfl

/-- So do the edits of the class attribute, if it is only ever edited as a whole or only ever by
single names. -/
theorem readClasses_written_foldl (hnodup : (as.map (·.1)).Nodup) {calls : List EditCall}
    (hproper : ∀ name, .addClass name ∈ calls → IsClassName name)
    (h : (∀ c ∈ calls, c.listsClass = false) ∨ ∀ c ∈ calls, c.ownsClass = false) :
    readClasses ((calls.foldl EditCall.record empty).written as) =
      calls.foldl EditCall.onClasses (readClasses as) := by
  rcases h with hwhole | hlists
  · unfold readClasses
    rw [lookup_written_eq_valueOf _ hnodup (.inr (hasClassEdits_foldl rfl hwhole)), valueOf_foldl,
      map_foldl_onValue_class hwhole]
    rfl
  · rw [readClasses_written (listsClasses_empty.foldl hlists hproper) hnodup,
      classesOf_foldl hlists, classesOf_empty]

-- Between the two ways of editing the order is lost: here the removal comes last.
example : ([.addClass "b", .removeAttribute "class"].foldl EditCall.record empty).written [] =
    [("class", some "b")] := by
  cbv

end NodeEdits
end BladeTree
