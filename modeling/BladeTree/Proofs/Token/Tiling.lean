import BladeTree.Token.Extension
import Mathlib.Tactic

namespace BladeTree

/-- Tokens that cover the bytes `start … stop`, each from where the one before it ends. -/
def Tiles : Nat → List Token → Nat → Prop
  | start, [], stop => start = stop
  | start, t :: ts, stop => t.start = start ∧ t.start ≤ t.stop ∧ Tiles t.stop ts stop

def Token.bytes (t : Token) (s : Source) : ByteArray := s.bytes.extract t.start t.stop

def Token.allBytes (s : Source) : List Token → ByteArray
  | [] => .empty
  | t :: ts => t.bytes s ++ allBytes s ts

namespace Tiles

variable {start middle stop : Nat} {ts us : List Token}

theorem le (h : Tiles start ts stop) : start ≤ stop := by
  induction ts generalizing start with
  | nil => exact h.le
  | cons t ts ih =>
      obtain ⟨rfl, hle, htail⟩ := h
      exact hle.trans (ih htail)

theorem append (h : Tiles start ts middle) (h' : Tiles middle us stop) :
    Tiles start (ts ++ us) stop := by
  induction ts generalizing start with
  | nil => cases h; exact h'
  | cons t ts ih => exact ⟨h.1, h.2.1, ih h.2.2⟩

theorem allBytes (s : Source) (h : Tiles start ts stop) :
    Token.allBytes s ts = s.bytes.extract start stop := by
  induction ts generalizing start with
  | nil => cases h; exact ByteArray.extract_same.symm
  | cons t ts ih =>
      obtain ⟨rfl, hle, htail⟩ := h
      rw [Token.allBytes, ih htail, Token.bytes, ByteArray.extract_append_extract,
        Nat.min_eq_left hle, Nat.max_eq_right htail.le]

theorem start_le_stop (h : Tiles start ts stop) {t : Token} (ht : t ∈ ts) : t.start ≤ t.stop := by
  induction ts generalizing start with
  | nil => cases ht
  | cons u ts ih =>
      obtain ⟨-, hle, htail⟩ := h
      rcases List.mem_cons.1 ht with rfl | ht
      · exact hle
      · exact ih htail ht

theorem stop_le (h : Tiles start ts stop) {t : Token} (ht : t ∈ ts) : t.stop ≤ stop := by
  induction ts generalizing start with
  | nil => cases ht
  | cons u ts ih =>
      obtain ⟨-, -, htail⟩ := h
      rcases List.mem_cons.1 ht with rfl | ht
      · exact htail.le
      · exact ih htail ht

theorem stop_eq (h : Tiles start ts stop) {i : Nat} {t : Token} (ht : ts[i]? = some t) :
    t.stop = (ts[i + 1]?).elim stop (·.start) := by
  induction ts generalizing start i with
  | nil => cases ht
  | cons u ts ih =>
      obtain ⟨rfl, -, htail⟩ := h
      cases i with
      | zero =>
          cases ht
          cases ts with
          | nil => exact htail
          | cons v ts => exact htail.1.symm
      | succ i => exact ih htail ht

end Tiles

theorem exists_of_bind_eq_ok {ε α β : Type} {x : Except ε α} {f : α → Except ε β} {b : β}
    (h : x >>= f = .ok b) : ∃ a, x = .ok a ∧ f a = .ok b := by
  cases x with
  | error e => cases h
  | ok a => exact ⟨a, rfl, h⟩

namespace Emission

variable {size cursor stop : Nat} {e : Emission} {es : List Emission} {t : Token} {ts : List Token}

theorem token_eq_ok_iff : e.token size cursor = .ok t ↔
    cursor + e.length < wordLimit ∧ ⟨e.kind, cursor, min (cursor + e.length) size⟩ = t := by
  unfold token
  split
  · rename_i hfits
    rw [Except.ok.injEq]
    exact (and_iff_right hfits).symm
  · rename_i hover
    exact iff_of_false nofun fun h => hover h.1

theorem place_cons_eq_ok (h : place size cursor (e :: es) = .ok (ts, stop)) : ∃ t us,
    e.token size cursor = .ok t ∧ place size t.stop es = .ok (us, stop) ∧ ts = t :: us := by
  obtain ⟨t, ht, h⟩ := exists_of_bind_eq_ok h
  obtain ⟨⟨us, stop'⟩, hus, h⟩ := exists_of_bind_eq_ok h
  cases h
  exact ⟨t, us, ht, hus, rfl⟩

theorem tiles_place (hcursor : cursor ≤ size) (h : place size cursor es = .ok (ts, stop)) :
    Tiles cursor ts stop := by
  induction es generalizing cursor ts with
  | nil =>
      cases h
      rfl
  | cons e es ih =>
      obtain ⟨t, us, ht, hus, rfl⟩ := place_cons_eq_ok h
      obtain ⟨-, rfl⟩ := token_eq_ok_iff.1 ht
      refine ⟨rfl, ?_, ih (Nat.min_le_right _ _) hus⟩
      simp only
      omega

theorem exists_place (hcursor : cursor ≤ size) (h : ∀ e ∈ es, size + e.length < wordLimit) :
    ∃ claim, place size cursor es = .ok claim := by
  induction es generalizing cursor with
  | nil => exact ⟨_, rfl⟩
  | cons e es ih =>
      have hlength : size + e.length < wordLimit := h e List.mem_cons_self
      have ht : e.token size cursor = .ok ⟨e.kind, cursor, min (cursor + e.length) size⟩ :=
        token_eq_ok_iff.2 ⟨by omega, rfl⟩
      obtain ⟨⟨us, stop⟩, hus⟩ := ih (Nat.min_le_right (cursor + e.length) size)
        fun e' he' => h e' (List.mem_cons_of_mem _ he')
      rw [place, ht]
      change ∃ claim, place size _ es >>= _ = _
      rw [hus]
      exact ⟨_, rfl⟩

theorem exists_offset_of_place {f : Fault} (h : place size cursor es = .error f) :
    ∃ offset, f = .offsetOverflow offset := by
  induction es generalizing cursor with
  | nil => cases h
  | cons e es ih =>
      rw [place] at h
      cases ht : e.token size cursor with rw [ht] at h
      | error f' =>
          cases h
          unfold token at ht
          split at ht
          · cases ht
          · cases ht
            exact ⟨cursor, rfl⟩
      | ok t =>
          change place size t.stop es >>= _ = _ at h
          cases hus : place size t.stop es with rw [hus] at h
          | error f' =>
              cases h
              exact ih hus
          | ok claim => cases h

end Emission

namespace LexerExtension

variable {x : LexerExtension} {offer : LexerOffer} {tokens : List Token} {stop : Nat}

theorem claim?_of_activates (h : x.activates offer) : x.claim? offer =
    (Emission.place offer.source.size offer.position (x.tokenize offer).1).map fun claim =>
      if (x.tokenize offer).2 && claim.2 > offer.position && offer.source.isBoundary claim.2 then
        some claim
      else none := by
  rw [claim?, if_pos h]
  obtain ⟨emissions, claimed⟩ := x.tokenize offer
  change Emission.place offer.source.size offer.position emissions >>= _ = _
  cases Emission.place offer.source.size offer.position emissions <;> rfl

theorem claim?_of_not_activates (h : ¬ x.activates offer) : x.claim? offer = .ok none :=
  if_neg h

theorem claim?_eq_some_iff : x.claim? offer = .ok (some (tokens, stop)) ↔
    x.activates offer ∧ (x.tokenize offer).2 ∧
      Emission.place offer.source.size offer.position (x.tokenize offer).1 = .ok (tokens, stop) ∧
      offer.position < stop ∧ offer.source.isBoundary stop := by
  by_cases hactive : x.activates offer
  · rw [claim?_of_activates hactive]
    cases Emission.place offer.source.size offer.position (x.tokenize offer).1 with
    | error f => exact iff_of_false nofun fun h => nomatch h.2.2.1
    | ok claim =>
        simp only [Except.map, Except.ok.injEq, Option.ite_none_right_eq_some, Bool.and_eq_true,
          decide_eq_true_eq, Option.some.injEq]
        constructor
        · rintro ⟨⟨⟨hclaimed, hlt⟩, hstop⟩, rfl⟩
          exact ⟨hactive, hclaimed, rfl, hlt, hstop⟩
        · rintro ⟨-, hclaimed, rfl, hlt, hstop⟩
          exact ⟨⟨⟨hclaimed, hlt⟩, hstop⟩, rfl⟩
  · rw [claim?_of_not_activates hactive]
    exact iff_of_false nofun fun h => hactive h.1

theorem tiles_claim (h : x.claim? offer = .ok (some (tokens, stop)))
    (hp : offer.position ≤ offer.source.size) :
    Tiles offer.position tokens stop ∧ offer.position < stop ∧ offer.source.isBoundary stop := by
  obtain ⟨-, -, hplace, hlt, hstop⟩ := claim?_eq_some_iff.1 h
  exact ⟨Emission.tiles_place hp hplace, hlt, hstop⟩

theorem exists_offset_of_claim? {f : Fault} (h : x.claim? offer = .error f) :
    ∃ offset, f = .offsetOverflow offset := by
  by_cases hactive : x.activates offer
  · rw [claim?_of_activates hactive] at h
    cases hplace : Emission.place offer.source.size offer.position (x.tokenize offer).1 with
      rw [hplace] at h
    | error f' =>
        cases h
        exact Emission.exists_offset_of_place hplace
    | ok claim => cases h
  · cases (claim?_of_not_activates hactive).symm.trans h

end LexerExtension
end BladeTree
