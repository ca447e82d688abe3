import BladeTree.Token.Extension
import Mathlib.Tactic

namespace BladeTree

def NewName.IsValid (n : NewName) : Prop := n.owner ≠ "" ∧ n.name ≠ ""

instance (n : NewName) : Decidable n.IsValid := inferInstanceAs (Decidable (_ ∧ _))

def NewName.key (n : NewName) : String × String := (n.owner, n.name)

def Registration.newName (e : Registration) : NewName := ⟨e.owner, e.name, e.label⟩

namespace Registry

inductive Call where
  | register (n : NewName)
  | lookup (owner name : String)
  | get (id : UInt8)

inductive Answer where
  | registered (outcome : Except RegistryError UInt8)
  | found (id : Option UInt8)
  | entry (e : Option Registration)

def answer (r : Registry) : Call → Answer × Registry
  | .register n =>
    match r.register n.owner n.name n.label with
    | .ok (id, r) => (.registered (.ok id), r)
    | .error e => (.registered (.error e), r)
  | .lookup owner name => (.found (r.lookup owner name), r)
  | .get id => (.entry (r.get? id), r)

def after (r : Registry) (calls : List Call) : Registry :=
  calls.foldl (fun r c => (r.answer c).2) r

theorem after_cons (r : Registry) (c : Call) (calls : List Call) :
    r.after (c :: calls) = (r.answer c).2.after calls :=
  rfl

def Call.request? : Call → Option NewName
  | register n => if n.IsValid then some n else none
  | _ => none

/-- Of the names with one key only the first, in order. -/
def firsts : List NewName → List NewName
  | [] => []
  | n :: ns => n :: (firsts ns).filter fun m => m.key ≠ n.key

theorem exists_mem_firsts_iff {ns : List NewName} {key : String × String} :
    (∃ n ∈ firsts ns, n.key = key) ↔ ∃ n ∈ ns, n.key = key := by
  induction ns with
  | nil => rfl
  | cons m ns ih =>
      by_cases hm : m.key = key
      · exact iff_of_true ⟨m, List.mem_cons_self, hm⟩ ⟨m, List.mem_cons_self, hm⟩
      · have hne {n : NewName} (hn : n.key = key) : n.key ≠ m.key :=
          fun heq => hm (heq.symm.trans hn)
        simp only [firsts, List.mem_cons, exists_eq_or_imp, hm, false_or, ← ih, List.mem_filter,
          decide_eq_true_eq]
        constructor
        · rintro ⟨n, ⟨hmem, -⟩, hkey⟩
          exact ⟨n, hmem, hkey⟩
        · rintro ⟨n, hmem, hkey⟩
          exact ⟨n, ⟨hmem, hne hkey⟩, hkey⟩

theorem firsts_concat (ns : List NewName) (n : NewName) :
    firsts (ns ++ [n]) = if ∃ m ∈ ns, m.key = n.key then firsts ns else firsts ns ++ [n] := by
  induction ns with
  | nil => rfl
  | cons m ns ih =>
      simp only [List.cons_append, firsts, ih, List.mem_cons, exists_eq_or_imp]
      by_cases hm : m.key = n.key
      · split <;> simp [hm]
      · have hn : n.key ≠ m.key := fun h => hm h.symm
        split <;> simp_all

theorem nodup_firsts (ns : List NewName) : ((firsts ns).map NewName.key).Nodup := by
  induction ns with
  | nil => exact .nil
  | cons n ns ih =>
      rw [firsts, List.map_cons, List.nodup_cons]
      refine ⟨fun hmem => ?_, ih.sublist (List.filter_sublist.map _)⟩
      obtain ⟨m, hm, hkey⟩ := List.mem_map.1 hmem
      exact of_decide_eq_true (List.mem_filter.1 hm).2 hkey

variable {r : Registry} {ns : List NewName}

theorem find?_eq_none_iff {n : NewName} :
    r.find? n.owner n.name = none ↔ ∀ e ∈ r.entries, e.newName.key ≠ n.key := by
  simp only [find?, Array.find?_eq_none, NewName.key, Registration.newName, ne_eq, Prod.mk.injEq,
    Bool.and_eq_true, beq_iff_eq]

theorem of_find? {n : NewName} {e : Registration} (h : r.find? n.owner n.name = some e) :
    e ∈ r.entries ∧ e.newName.key = n.key := by
  have hkey := Array.find?_some h
  simp only [Bool.and_eq_true, beq_iff_eq] at hkey
  exact ⟨Array.mem_of_find?_eq_some h, Prod.ext hkey.1 hkey.2⟩

def nextEntry (r : Registry) (n : NewName) : Registration :=
  ⟨r.first + r.entries.size.toUInt8, n.owner, n.name, n.label⟩

def push (r : Registry) (n : NewName) : Registry :=
  { r with entries := r.entries.push (r.nextEntry n) }

inductive Outcome (r : Registry) (n : NewName) : Except RegistryError (UInt8 × Registry) → Prop
  | invalid : ¬ n.IsValid → Outcome r n (.error (.invalidKey n.owner n.name))
  | known (e : Registration) : n.IsValid → e ∈ r.entries → e.newName.key = n.key →
      Outcome r n (.ok (e.id, r))
  | exhausted : n.IsValid → (∀ e ∈ r.entries, e.newName.key ≠ n.key) →
      r.capacity ≤ r.entries.size → Outcome r n (.error (.exhausted r.capacity))
  | new : n.IsValid → (∀ e ∈ r.entries, e.newName.key ≠ n.key) →
      r.entries.size < r.capacity → Outcome r n (.ok ((r.nextEntry n).id, r.push n))

theorem outcome_register (r : Registry) (n : NewName) :
    Outcome r n (r.register n.owner n.name n.label) := by
  unfold register
  split
  · rename_i hempty
    simp only [Bool.or_eq_true, String.isEmpty_iff] at hempty
    exact .invalid fun hvalid => hempty.elim hvalid.1 hvalid.2
  rename_i hempty
  simp only [Bool.or_eq_true, String.isEmpty_iff, not_or] at hempty
  have hvalid : n.IsValid := hempty
  cases hfind : r.find? n.owner n.name with
  | some e => exact .known e hvalid (of_find? hfind).1 (of_find? hfind).2
  | none =>
      have hnew : ∀ e ∈ r.entries, e.newName.key ≠ n.key := find?_eq_none_iff.1 hfind
      simp only
      split
      · exact .exhausted hvalid hnew ‹_›
      · exact .new hvalid hnew (Nat.lt_of_not_le ‹_›)

/-- The registry holds the first requests for its keys, as many as there are ids, and their ids
are in a row. -/
structure Ledger (ns : List NewName) (r : Registry) : Prop where
  valid : ∀ n ∈ ns, n.IsValid
  names : r.entries.toList.map Registration.newName = (firsts ns).take r.capacity
  ids : ∀ (i : Nat) e, r.entries[i]? = some e → e.id.toNat = r.first.toNat + i

namespace Ledger

theorem size_eq (h : Ledger ns r) : r.entries.size = min r.capacity (firsts ns).length := by
  rw [← Array.length_toList, ← List.length_map Registration.newName, h.names, List.length_take]

theorem mem_iff (h : Ledger ns r) {n : NewName} :
    n ∈ (firsts ns).take r.capacity ↔ ∃ e ∈ r.entries, e.newName = n := by
  rw [← h.names, List.mem_map]
  simp only [Array.mem_toList_iff]

theorem capacity_le (h : Ledger ns r) {key : String × String}
    (hkey : ∃ n ∈ ns, n.key = key) (hnone : ∀ e ∈ r.entries, e.newName.key ≠ key) :
    r.capacity ≤ r.entries.size := by
  obtain ⟨n, hn, rfl⟩ := exists_mem_firsts_iff.2 hkey
  by_contra hlt
  have hsize := h.size_eq
  have htake : (firsts ns).take r.capacity = firsts ns := List.take_of_length_le (by omega)
  obtain ⟨e, he, rfl⟩ := h.mem_iff.1 (htake.symm ▸ hn)
  exact hnone e he rfl

end Ledger

theorem id_nextEntry (hlt : r.entries.size < r.capacity) (n : NewName) :
    (r.nextEntry n).id.toNat = r.first.toNat + r.entries.size := by
  have hfirst : r.first.toNat ≤ r.last.toNat := r.first_le_last
  have hlast : r.last.toNat < 256 := r.last.toNat_lt
  unfold capacity at hlt
  simp only [nextEntry, UInt8.toNat_add, Nat.toUInt8_eq, UInt8.toNat_ofNat']
  omega

namespace Ledger

theorem push (h : Ledger ns r) {n : NewName} (hvalid : n.IsValid)
    (hnew : ∀ e ∈ r.entries, e.newName.key ≠ n.key) (hlt : r.entries.size < r.capacity) :
    Ledger (ns ++ [n]) (r.push n) where
  valid := List.forall_mem_append.2 ⟨h.valid, List.forall_mem_singleton.2 hvalid⟩
  names := by
    have hnot : ¬ ∃ m ∈ ns, m.key = n.key := fun hkey =>
      absurd (h.capacity_le hkey hnew) (Nat.not_le_of_lt hlt)
    have hsize := h.size_eq
    have hall : r.entries.toList.map Registration.newName = firsts ns := by
      rw [h.names, List.take_of_length_le (by omega)]
    have hlength : (firsts ns ++ [n]).length ≤ (r.push n).capacity := by
      rw [List.length_append, List.length_singleton]
      change _ ≤ r.capacity
      omega
    rw [firsts_concat, if_neg hnot, List.take_of_length_le hlength]
    simp only [Registry.push, Array.toList_push, List.map_append, hall]
    rfl
  ids i e hi := by
    simp only [Registry.push, Array.getElem?_push] at hi ⊢
    split at hi
    · rename_i heq
      cases hi
      rw [id_nextEntry hlt, heq]
    · exact h.ids i e hi

theorem keep (h : Ledger ns r) {n : NewName} (hvalid : n.IsValid)
    (hn : (∃ e ∈ r.entries, e.newName.key = n.key) ∨ r.capacity ≤ r.entries.size) :
    Ledger (ns ++ [n]) r where
  valid := List.forall_mem_append.2 ⟨h.valid, List.forall_mem_singleton.2 hvalid⟩
  names := by
    rw [h.names, firsts_concat]
    split
    · rfl
    rename_i hnot
    have hfull : r.capacity ≤ (firsts ns).length := by
      have hsize := h.size_eq
      rcases hn with ⟨e, he, hkey⟩ | hle
      · have hmem : e.newName ∈ firsts ns := List.mem_of_mem_take (h.mem_iff.2 ⟨e, he, rfl⟩)
        exact absurd (exists_mem_firsts_iff.1 ⟨e.newName, hmem, hkey⟩) hnot
      · omega
    rw [List.take_append_of_le_length hfull]
  ids := h.ids

theorem answer (h : Ledger ns r) (c : Call) : Ledger (ns ++ c.request?.toList) (r.answer c).2 := by
  cases c with
  | register n =>
      simp only [Registry.answer, Call.request?]
      have houtcome := r.outcome_register n
      generalize r.register n.owner n.name n.label = outcome at houtcome ⊢
      cases houtcome with
      | invalid hinvalid => simpa [hinvalid] using h
      | known e hvalid he hkey => simpa [hvalid] using h.keep hvalid (.inl ⟨e, he, hkey⟩)
      | exhausted hvalid hnew hle => simpa [hvalid] using h.keep hvalid (.inr hle)
      | new hvalid hnew hlt => simpa [hvalid] using h.push hvalid hnew hlt
  | lookup owner name => simpa [Registry.answer, Call.request?] using h
  | get id => simpa [Registry.answer, Call.request?] using h

theorem after (h : Ledger ns r) (calls : List Call) :
    Ledger (ns ++ calls.filterMap Call.request?) (r.after calls) := by
  induction calls generalizing ns r with
  | nil => simpa [Registry.after] using h
  | cons c calls ih =>
      have hrest := ih (h.answer c)
      rw [List.append_assoc, ← after_cons] at hrest
      cases hc : c.request? with
      | none => simpa [hc] using hrest
      | some n => simpa [hc] using hrest

end Ledger

/-- A later registry hands out the same ids and still holds every entry, at its place. -/
structure Extends (r r' : Registry) : Prop where
  first : r'.first = r.first
  last : r'.last = r.last
  entry : ∀ (i : Nat) e, r.entries[i]? = some e → r'.entries[i]? = some e

theorem Extends.refl (r : Registry) : Extends r r := ⟨rfl, rfl, fun _ _ h => h⟩

theorem extends_push (r : Registry) (n : NewName) : Extends r (r.push n) := by
  refine ⟨rfl, rfl, fun i e hi => ?_⟩
  obtain ⟨hlt, rfl⟩ := Array.getElem?_eq_some_iff.1 hi
  exact Array.getElem?_push_lt hlt

theorem extends_answer (r : Registry) (c : Call) : Extends r (r.answer c).2 := by
  cases c with
  | register n =>
      simp only [answer]
      have houtcome := r.outcome_register n
      generalize r.register n.owner n.name n.label = outcome at houtcome ⊢
      cases houtcome with
      | new => exact r.extends_push n
      | _ => exact .refl r
  | lookup owner name => exact .refl r
  | get id => exact .refl r

theorem extends_after (r : Registry) (calls : List Call) : Extends r (r.after calls) := by
  induction calls generalizing r with
  | nil => exact .refl r
  | cons c calls ih =>
      have hhead := r.extends_answer c
      have hrest := ih (r.answer c).2
      rw [after_cons]
      exact ⟨hrest.first.trans hhead.first, hrest.last.trans hhead.last,
        fun i e hi => hrest.entry i e (hhead.entry i e hi)⟩

namespace Ledger

theorem size_le (h : Ledger ns r) : r.entries.size ≤ r.capacity :=
  h.size_eq ▸ Nat.min_le_left _ _

theorem id_le (h : Ledger ns r) {i : Nat} {e : Registration} (hi : r.entries[i]? = some e) :
    e.id ≤ r.last := by
  have hsize := h.size_le
  have hid := h.ids i e hi
  have hfirst : r.first.toNat ≤ r.last.toNat := r.first_le_last
  obtain ⟨hlt, -⟩ := Array.getElem?_eq_some_iff.1 hi
  unfold capacity at hsize
  rw [UInt8.le_iff_toNat_le]
  omega

theorem get?_eq_some_iff (h : Ledger ns r) {id : UInt8} {e : Registration} :
    r.get? id = some e ↔ e ∈ r.entries ∧ e.id = id := by
  unfold get?
  constructor
  · intro hget
    split at hget
    · cases hget
    · rename_i hout
      simp only [Bool.or_eq_true, decide_eq_true_eq, not_or, UInt8.not_lt] at hout
      have hid := h.ids _ e hget
      have hle : r.first.toNat ≤ id.toNat := hout.1
      rw [UInt8.toNat_sub_of_le _ _ hout.1] at hid
      exact ⟨Array.mem_of_getElem? hget, UInt8.toNat_inj.1 (by omega)⟩
  · rintro ⟨hmem, rfl⟩
    obtain ⟨i, hi⟩ := Array.mem_iff_getElem?.1 hmem
    have hid := h.ids i e hi
    have hfirst : r.first ≤ e.id := by
      rw [UInt8.le_iff_toNat_le]
      omega
    have hout : (decide (e.id < r.first) || decide (e.id > r.last)) = false := by
      simpa using ⟨hfirst, h.id_le hi⟩
    rw [hout, UInt8.toNat_sub_of_le _ _ hfirst, hid, Nat.add_sub_cancel_left]
    exact hi

theorem eq_of_id (h : Ledger ns r) {e e' : Registration} (he : e ∈ r.entries) (he' : e' ∈ r.entries)
    (hid : e.id = e'.id) : e = e' :=
  Option.some.inj ((h.get?_eq_some_iff.2 ⟨he, hid⟩).symm.trans (h.get?_eq_some_iff.2 ⟨he', rfl⟩))

theorem eq_of_key (h : Ledger ns r) {e e' : Registration} (he : e ∈ r.entries)
    (he' : e' ∈ r.entries) (hkey : e.newName.key = e'.newName.key) : e = e' := by
  have hnodup : (r.entries.toList.map (·.newName.key)).Nodup := by
    have hmap : r.entries.toList.map (·.newName.key) =
        (r.entries.toList.map Registration.newName).map NewName.key := by
      rw [List.map_map]
      rfl
    rw [hmap, h.names, List.map_take]
    exact (nodup_firsts ns).sublist (List.take_sublist _ _)
  exact List.inj_on_of_nodup_map hnodup (Array.mem_toList_iff.2 he)
    (Array.mem_toList_iff.2 he') hkey

theorem find?_eq_some_iff (h : Ledger ns r) {n : NewName} {e : Registration} :
    r.find? n.owner n.name = some e ↔ e ∈ r.entries ∧ e.newName.key = n.key := by
  refine ⟨of_find?, fun ⟨he, hkey⟩ => ?_⟩
  cases hfind : r.find? n.owner n.name with
  | none => exact absurd hkey (find?_eq_none_iff.1 hfind e he)
  | some e' =>
      obtain ⟨he', hkey'⟩ := of_find? hfind
      rw [h.eq_of_key he he' (hkey.trans hkey'.symm)]

theorem isValid (h : Ledger ns r) {e : Registration} (he : e ∈ r.entries) : e.newName.IsValid := by
  have hmem : e.newName ∈ firsts ns := List.mem_of_mem_take (h.mem_iff.2 ⟨e, he, rfl⟩)
  obtain ⟨n, hn, hkey⟩ := exists_mem_firsts_iff.1 ⟨e.newName, hmem, rfl⟩
  have hvalid := h.valid n hn
  rw [NewName.key, NewName.key, Prod.mk.injEq] at hkey
  exact ⟨hkey.1 ▸ hvalid.1, hkey.2 ▸ hvalid.2⟩

theorem register_of_mem (h : Ledger ns r) {e : Registration} (he : e ∈ r.entries)
    (label : Option String) : r.register e.owner e.name label = .ok (e.id, r) := by
  have hvalid := h.isValid he
  have houtcome := r.outcome_register ⟨e.owner, e.name, label⟩
  generalize r.register e.owner e.name label = outcome at houtcome ⊢
  cases houtcome with
  | invalid hinvalid => exact absurd hvalid hinvalid
  | known e' _ he' hkey => rw [h.eq_of_key he' he hkey]
  | exhausted _ hnew => exact absurd rfl (hnew e he)
  | new _ hnew => exact absurd rfl (hnew e he)

end Ledger

/-- What a registry of the ids `first … last` is and answers after `calls`. -/
structure Contract (first last : UInt8) (calls : List Call) (r : Registry) : Prop where
  /-- Every key is registered with its first valid request, as long as ids are left. -/
  names : r.entries.toList.map Registration.newName =
    (firsts (calls.filterMap Call.request?)).take (last.toNat - first.toNat + 1)
  /-- Ids are handed out one after another, from the first on. -/
  ids : ∀ (i : Nat) e, r.entries[i]? = some e → e.id.toNat = first.toNat + i ∧ e.id ≤ last
  /-- An id stands for one key and a key for one id. -/
  unique : ∀ e ∈ r.entries, ∀ e' ∈ r.entries, e.id = e'.id ∨ e.newName.key = e'.newName.key → e = e'
  /-- Whatever is asked later, an entry stays, and its key is answered with its id. -/
  stays : ∀ later, ∀ e ∈ r.entries, e ∈ (r.after later).entries ∧
    ∀ label, (r.after later).register e.owner e.name label = .ok (e.id, r.after later)
  get : ∀ id e, r.get? id = some e ↔ e ∈ r.entries ∧ e.id = id
  lookup : ∀ owner name id,
    r.lookup owner name = some id ↔ ∃ e, r.get? id = some e ∧ e.owner = owner ∧ e.name = name
  /-- A valid new key is registered while ids are left. -/
  registers : ∀ n : NewName, n.IsValid → r.lookup n.owner n.name = none →
    r.entries.size ≤ last.toNat - first.toNat → ∃ id r',
      r.register n.owner n.name n.label = .ok (id, r') ∧ id.toNat = first.toNat + r.entries.size ∧
        r'.entries = r.entries.push ⟨id, n.owner, n.name, n.label⟩
  invalid : ∀ owner name label,
    r.register owner name label = .error (.invalidKey owner name) ↔ owner = "" ∨ name = ""
  exhausted : ∀ n : NewName,
    r.register n.owner n.name n.label = .error (.exhausted (last.toNat - first.toNat + 1)) ↔
      n.IsValid ∧ r.lookup n.owner n.name = none ∧ r.entries.size = last.toNat - first.toNat + 1
  /-- There are no other errors, and none changes the registry. -/
  fails : ∀ c e, (r.answer c).1 = .registered (.error e) → (r.answer c).2 = r ∧
    ∃ n, c = .register n ∧
      (e = .invalidKey n.owner n.name ∨ e = .exhausted (last.toNat - first.toNat + 1))

theorem ledger_empty (first last : UInt8) (h : first ≤ last) : Ledger [] ⟨first, last, h, #[]⟩ where
  valid := nofun
  names := rfl
  ids := nofun

theorem lookup_eq_none_iff {n : NewName} :
    r.lookup n.owner n.name = none ↔ ∀ e ∈ r.entries, e.newName.key ≠ n.key := by
  rw [lookup, Option.map_eq_none_iff, find?_eq_none_iff]

theorem Ledger.lookup_eq_some_iff (h : Ledger ns r) {n : NewName} {id : UInt8} :
    r.lookup n.owner n.name = some id ↔ ∃ e ∈ r.entries, e.newName.key = n.key ∧ e.id = id := by
  simp only [lookup, Option.map_eq_some_iff, h.find?_eq_some_iff, and_assoc]

theorem register_eq_invalidKey_iff {owner name : String} {label : Option String} :
    r.register owner name label = .error (.invalidKey owner name) ↔ owner = "" ∨ name = "" := by
  have houtcome := r.outcome_register ⟨owner, name, label⟩
  have hempty : ¬ NewName.IsValid ⟨owner, name, label⟩ ↔ owner = "" ∨ name = "" := by
    rw [NewName.IsValid, not_and_or, not_not, not_not]
  rw [← hempty]
  generalize r.register owner name label = outcome at houtcome ⊢
  cases houtcome with
  | invalid hinvalid => exact iff_of_true rfl hinvalid
  | known _ hvalid | exhausted hvalid | new hvalid => exact iff_of_false nofun (not_not.2 hvalid)

theorem register_eq_exhausted_iff {n : NewName} :
    r.register n.owner n.name n.label = .error (.exhausted r.capacity) ↔
      n.IsValid ∧ r.lookup n.owner n.name = none ∧ r.capacity ≤ r.entries.size := by
  have houtcome := r.outcome_register n
  rw [lookup_eq_none_iff]
  generalize r.register n.owner n.name n.label = outcome at houtcome ⊢
  cases houtcome with
  | invalid hinvalid => exact iff_of_false nofun fun h => hinvalid h.1
  | known e _ he hkey => exact iff_of_false nofun fun h => h.2.1 e he hkey
  | exhausted hvalid hnew hle => exact iff_of_true rfl ⟨hvalid, hnew, hle⟩
  | new _ _ hlt => exact iff_of_false nofun fun h => Nat.not_le_of_lt hlt h.2.2

theorem register_of_new {n : NewName} (hvalid : n.IsValid) (hnone : r.lookup n.owner n.name = none)
    (hlt : r.entries.size < r.capacity) :
    r.register n.owner n.name n.label = .ok ((r.nextEntry n).id, r.push n) := by
  have houtcome := r.outcome_register n
  rw [lookup_eq_none_iff] at hnone
  generalize r.register n.owner n.name n.label = outcome at houtcome ⊢
  cases houtcome with
  | invalid hinvalid => exact absurd hvalid hinvalid
  | known e _ he hkey => exact absurd hkey (hnone e he)
  | exhausted _ _ hle => exact absurd hle (Nat.not_le_of_lt hlt)
  | new => rfl

theorem answer_of_error {c : Call} {e : RegistryError}
    (h : (r.answer c).1 = .registered (.error e)) : (r.answer c).2 = r ∧
      ∃ n, c = .register n ∧ (e = .invalidKey n.owner n.name ∨ e = .exhausted r.capacity) := by
  cases c with
  | register n =>
      simp only [answer] at h ⊢
      have houtcome := r.outcome_register n
      generalize r.register n.owner n.name n.label = outcome at houtcome h ⊢
      cases houtcome with
      | invalid =>
          cases h
          exact ⟨rfl, n, rfl, .inl rfl⟩
      | exhausted =>
          cases h
          exact ⟨rfl, n, rfl, .inr rfl⟩
      | known | new => cases h
  | lookup owner name => cases h
  | get id => cases h

/-- A registry of the ids `first … last` keeps its contract, whatever it is asked. -/
theorem contract_after (first last : UInt8) (h : first ≤ last) (calls : List Call) :
    ∃ r, new? first last = some r ∧ Contract first last calls (r.after calls) := by
  refine ⟨⟨first, last, h, #[]⟩, dif_pos h, ?_⟩
  have hextends := extends_after ⟨first, last, h, #[]⟩ calls
  have hledger := (ledger_empty first last h).after calls
  generalize after ⟨first, last, h, #[]⟩ calls = r at hextends hledger ⊢
  rw [List.nil_append] at hledger
  obtain ⟨hfirst, hlast, -⟩ := hextends
  simp only at hfirst hlast
  have hcapacity : r.capacity = last.toNat - first.toNat + 1 := by rw [capacity, hfirst, hlast]
  have hsize := hledger.size_le
  refine ⟨?_, fun i e hi => ⟨?_, ?_⟩, fun e he e' he' => ?_, fun later e he => ?_,
    fun id e => hledger.get?_eq_some_iff, fun owner name id => ?_, fun n hvalid hnone hle => ?_,
    fun owner name label => ?_, fun n => ?_, fun c e hc => ?_⟩
  · rw [hledger.names, hcapacity]
  · exact hfirst ▸ hledger.ids i e hi
  · exact hlast ▸ hledger.id_le hi
  · exact fun hor => hor.elim (hledger.eq_of_id he he') (hledger.eq_of_key he he')
  · obtain ⟨i, hi⟩ := Array.mem_iff_getElem?.1 he
    have he' : e ∈ (r.after later).entries :=
      Array.mem_of_getElem? ((r.extends_after later).entry i e hi)
    exact ⟨he', (hledger.after later).register_of_mem he'⟩
  · rw [hledger.lookup_eq_some_iff (n := ⟨owner, name, none⟩)]
    simp only [hledger.get?_eq_some_iff, NewName.key, Registration.newName, Prod.mk.injEq]
    exact exists_congr fun e => by tauto
  · have hlt : r.entries.size < r.capacity := by omega
    refine ⟨_, _, register_of_new hvalid hnone hlt, ?_, rfl⟩
    rw [id_nextEntry hlt, hfirst]
  · exact register_eq_invalidKey_iff
  · rw [← hcapacity, register_eq_exhausted_iff]
    have hfull : r.capacity ≤ r.entries.size ↔ r.entries.size = r.capacity := by omega
    rw [hfull]
  · exact hcapacity ▸ answer_of_error hc

/-- With two ids the third key is turned down, after a key without a name and one asked for
twice. -/
theorem contract_after_exhausted : (254 : UInt8) ≤ 255 ∧
    ∃ r, new? 254 255 = some r ∧
      let calls := [.register ⟨"x", "a", some "A"⟩, .register ⟨"x", "", none⟩,
        .register ⟨"x", "a", none⟩, .lookup "x" "b", .register ⟨"x", "b", none⟩,
        .register ⟨"x", "c", none⟩, .get 255]
      Contract 254 255 calls (r.after calls) :=
  ⟨by decide, contract_after 254 255 (by decide) _⟩

end Registry
end BladeTree
