import TaggedRegex.Text.Quoted

set_option autoImplicit false

/-!
Non-empty, inclusive ranges of characters. Characters are counted by their ordinal, the place among
the Unicode scalars, so that neighbours have neighbouring ordinals on both sides of the surrogates.
-/

namespace TaggedRegex

/-- The character before `c`, if there is one. -/
def pred? (c : Char) : Option Char :=
  if h : c.ordinal.val = 0 then none
  else some (Char.ofOrdinal ⟨c.ordinal.val - 1, by have := c.ordinal.isLt; omega⟩)

theorem ordinal_of_pred? (c d : Char) (h : pred? c = some d) :
    d.ordinal.val + 1 = c.ordinal.val := by
  unfold pred? at h
  split at h
  · simp at h
  · obtain rfl := Option.some.inj h
    simp only [Char.ordinal_ofOrdinal]
    omega

/-- The characters from `lo` to `hi`, both included. -/
structure CharRange where
  lo : Char
  hi : Char
  lo_le_hi : lo ≤ hi
  deriving DecidableEq

namespace CharRange

instance : Membership Char CharRange where
  mem range c := range.lo ≤ c ∧ c ≤ range.hi

theorem mem_def (c : Char) (range : CharRange) : c ∈ range ↔ range.lo ≤ c ∧ c ≤ range.hi :=
  Iff.rfl

instance (c : Char) (range : CharRange) : Decidable (c ∈ range) :=
  inferInstanceAs (Decidable (range.lo ≤ c ∧ c ≤ range.hi))

/-- The range of one character. -/
def single (c : Char) : CharRange := ⟨c, c, Char.le_refl c⟩

@[simp] theorem mem_single (c d : Char) : d ∈ single c ↔ d = c :=
  by
  simp only [mem_def, single]
  exact ⟨fun h => Char.le_antisymm h.2 h.1, fun h => h ▸ ⟨Char.le_refl d, Char.le_refl d⟩⟩

/-- The range between two bounds, if they are in order. -/
def ofBounds? (lo hi : Char) : Option CharRange :=
  if h : lo ≤ hi then some ⟨lo, hi, h⟩ else none

/-- The characters whose ordinal is at least `first` and below `limit`, if there are any. -/
def ofOrdinals? (first limit : Nat) : Option CharRange :=
  if h : first < limit ∧ limit ≤ Char.numCodePoints then
    some ⟨Char.ofOrdinal ⟨first, by omega⟩, Char.ofOrdinal ⟨limit - 1, by omega⟩,
      Char.ofOrdinal_le_of_le (show first ≤ limit - 1 by omega)⟩
  else none

theorem mem_ofOrdinals? (first limit : Nat) (range : CharRange) (c : Char)
    (h : ofOrdinals? first limit = some range) :
    c ∈ range ↔ first ≤ c.ordinal.val ∧ c.ordinal.val < limit := by
  unfold ofOrdinals? at h
  split at h
  · obtain rfl := Option.some.inj h
    simp only [mem_def, Char.le_iff_ordinal_le, Char.ordinal_ofOrdinal, Fin.le_def]
    omega
  · simp at h

/-- Every character. -/
def all : CharRange := ⟨'\x00', Char.ofNat 0x10ffff, by decide⟩

/-- Ranges are ordered by their lower bound, then by their upper bound. -/
instance : LT CharRange where
  lt a b := a.lo < b.lo ∨ a.lo = b.lo ∧ a.hi < b.hi

theorem lt_def (a b : CharRange) : a < b ↔ a.lo < b.lo ∨ a.lo = b.lo ∧ a.hi < b.hi := Iff.rfl

instance (a b : CharRange) : Decidable (a < b) :=
  inferInstanceAs (Decidable (a.lo < b.lo ∨ a.lo = b.lo ∧ a.hi < b.hi))

/-- The two bounds joined by a dash. -/
def text (range : CharRange) : String := Text.bound range.lo ++ "-" ++ Text.bound range.hi

end CharRange

end TaggedRegex
