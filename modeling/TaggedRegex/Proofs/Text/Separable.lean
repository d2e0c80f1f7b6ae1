import Mathlib.Data.List.TakeWhile
import TaggedRegex.Text.Quoted

set_option autoImplicit false

/-!
Texts that can be told from what is behind them. Two of them with something behind are equal only if
they stand for the same thing and what is behind them is equal, provided that it begins with a
character that ends them.
-/

namespace TaggedRegex.Text

/-- What can stand behind a text: nothing, or a character that ends it. -/
def Ends (stops : Char → Bool) (rest : List Char) : Prop := ∀ c ∈ rest.head?, stops c = true

theorem ends_nil (stops : Char → Bool) : Ends stops [] := nofun

theorem ends_cons {stops : Char → Bool} {c : Char} {rest : List Char} :
    Ends stops (c :: rest) ↔ stops c = true := by
  simp [Ends]

theorem ends_any (rest : List Char) : Ends (fun _ => true) rest := fun _ _ => rfl

/-- A text and what is behind it are told by both together. -/
def Separable {α : Type} (stops : Char → Bool) (text : α → List Char) : Prop :=
  ∀ ⦃a b : α⦄ ⦃rest others : List Char⦄, Ends stops rest → Ends stops others →
    text a ++ rest = text b ++ others → a = b ∧ rest = others

namespace Separable

variable {α : Type} {stops : Char → Bool} {text : α → List Char}

theorem injective (separable : Separable stops text) : Function.Injective text := by
  intro a b same
  exact (separable (ends_nil stops) (ends_nil stops) (by rw [same])).1

/-- Characters that do not end the text, up to the first one that does. -/
theorem of_span (injective : Function.Injective text)
    (inside : ∀ a, ∀ c ∈ text a, stops c = false) : Separable stops text := by
  intro a b rest others ends ends' same
  have front : ∀ {a : α} {rest : List Char}, Ends stops rest →
      (text a ++ rest).takeWhile (fun c => !stops c) = text a := by
    intro a rest ends
    rw [List.takeWhile_append_of_pos (by simpa using inside a)]
    cases rest with
    | nil => simp
    | cons c tail => simp [ends_cons.1 ends]
  have equal : text a = text b := by rw [← front ends, same, front ends']
  rw [equal] at same
  exact ⟨injective equal, List.append_cancel_left same⟩

/-- Texts that end by themselves, one behind the other. -/
theorem flatMap_injective (separable : Separable (fun _ => true) text)
    (nonempty : ∀ a, text a ≠ []) : Function.Injective (List.flatMap text) := by
  intro list
  induction list with
  | nil =>
    intro others same
    cases others with
    | nil => rfl
    | cons b others => simp [nonempty] at same
  | cons a list ih =>
    intro others same
    cases others with
    | nil => simp [nonempty] at same
    | cons b others =>
      rw [List.flatMap_cons, List.flatMap_cons] at same
      obtain ⟨rfl, behind⟩ := separable (ends_any _) (ends_any _) same
      rw [ih behind]

end Separable

/-! ### Numbers -/

/-- Digits are letters and digits of ASCII. -/
theorem isAlphanum_of_mem_toDigits {base : Nat} (two : 1 < base) (small : base ≤ 16) (n : Nat) :
    ∀ c ∈ Nat.toDigits base n, c.isAlphanum = true := by
  have digit : ∀ d : Fin 16, (Nat.digitChar d.val).isAlphanum = true := by decide
  induction n using Nat.strongRecOn with
  | ind n ih =>
    rw [Nat.toDigits_eq_if two]
    split
    · simpa using digit ⟨n, by omega⟩
    · have last := digit ⟨n % base, Nat.lt_of_lt_of_le (Nat.mod_lt _ (by omega)) small⟩
      have shorter := ih (n / base) (Nat.div_lt_self (by omega) two)
      grind

theorem notMem_toDigits {base : Nat} (two : 1 < base) (small : base ≤ 16) {c : Char}
    (mark : c.isAlphanum = false) (n : Nat) : c ∉ Nat.toDigits base n := by
  intro member
  rw [isAlphanum_of_mem_toDigits two small n c member] at mark
  cases mark

theorem toDigits_injective {base : Nat} (two : 1 < base) (small : base ≤ 16) :
    Function.Injective (Nat.toDigits base) := by
  have digit : ∀ c d : Fin 16, Nat.digitChar c.val = Nat.digitChar d.val → c = d := by decide
  have last : ∀ {c d : Nat}, c < base → d < base → Nat.digitChar c = Nat.digitChar d → c = d :=
    fun less less' same =>
      congrArg Fin.val (digit ⟨_, Nat.lt_of_lt_of_le less small⟩
        ⟨_, Nat.lt_of_lt_of_le less' small⟩ same)
  intro n
  induction n using Nat.strongRecOn with
  | ind n ih =>
    intro m same
    have positive : ∀ k, k % base < base := fun k => Nat.mod_lt k (by omega)
    rw [Nat.toDigits_eq_if two, Nat.toDigits_eq_if (n := m) two] at same
    split at same <;> split at same
    · rename_i less less'
      exact last less less' (List.cons.inj same).1
    · simp [List.singleton_eq_append_iff, Nat.toDigits_ne_nil] at same
    · simp [List.append_eq_singleton_iff, Nat.toDigits_ne_nil] at same
    · obtain ⟨front, back⟩ := List.append_inj' same rfl
      have high := ih (n / base) (Nat.div_lt_self (by omega) two) front
      have low := last (positive n) (positive m) (List.cons.inj back).1
      rw [← Nat.div_add_mod n base, high, low, Nat.div_add_mod]

/-- No letter and no digit of ASCII. -/
def isMark (c : Char) : Bool := !c.isAlphanum

/-- A number reaches up to the first character that is no letter and no digit. -/
theorem separable_toDigits {base : Nat} (two : 1 < base) (small : base ≤ 16) :
    Separable isMark (Nat.toDigits base) :=
  .of_span (toDigits_injective two small) fun n c member => by
    simp [isMark, isAlphanum_of_mem_toDigits two small n c member]

/-! ### Bounds of ranges -/

/-- Whether a character is a letter or a digit, where a test tells for those beyond ASCII. -/
def isAlphanumericWith (beyond : Char → Bool) (c : Char) : Bool :=
  if c.toNat < 128 then c.isAlphanum else beyond c

/-- Whether a character stands for itself as a bound of a range. -/
def isPlainWith (beyond : Char → Bool) (c : Char) : Bool :=
  isAlphanumericWith beyond c || (32 ≤ c.toNat && c.toNat < 127)

/-- What stands behind the backslash for a character that does not stand for itself. -/
def escapeName (c : Char) : List Char :=
  if c = '\t' then ['t']
  else if c = '\r' then ['r']
  else if c = '\n' then ['n']
  else 'u' :: '\x7b' :: (Nat.toDigits 16 c.toNat ++ ['\x7d'])

/-- A character as a bound of a range, where a test tells which characters beyond ASCII are letters
or digits. -/
def boundWith (beyond : Char → Bool) (c : Char) : List Char :=
  if isPlainWith beyond c then [c] else '\\' :: escapeName c

theorem toList_bound (c : Char) : (bound c).toList = boundWith isAlphanumeric c := by
  have ascii : isAlphanumericWith isAlphanumeric c = isAlphanumeric c := by
    unfold isAlphanumericWith
    split
    · exact (isAlphanumeric_of_ascii c ‹_›).symm
    · rfl
  unfold bound boundWith isPlainWith escapeName
  rw [ascii]
  split
  · simp
  · split_ifs <;> simp [codePointEscape, hex]

/-- The name of an escaped character begins with a letter. -/
theorem escapeName_eq_cons (c : Char) : ∃ letter payload, escapeName c = letter :: payload ∧
    letter.isAlphanum = true := by
  unfold escapeName
  split_ifs <;> exact ⟨_, _, rfl, by decide⟩

/-- The first letter of the name tells which escape it is, and a brace ends a code point. -/
theorem separable_escapeName : Separable (fun _ => true) escapeName := by
  intro a b rest others _ _ same
  have codePoints : Nat.toDigits 16 a.toNat ++ '\x7d' :: rest =
      Nat.toDigits 16 b.toNat ++ '\x7d' :: others → a = b ∧ rest = others := by
    intro same
    obtain ⟨number, behind⟩ := separable_toDigits (by decide) (by decide) (ends_cons.2 (by decide))
      (ends_cons.2 (by decide)) same
    exact ⟨Char.toNat_inj.1 number, (List.cons.inj behind).2⟩
  unfold escapeName at same
  split_ifs at same <;> simp_all

theorem separable_boundWith (beyond : Char → Bool) : Separable isMark (boundWith beyond) := by
  intro a b rest others ends ends' same
  -- A backslash that stands for itself is not followed by a letter, one of an escape is.
  have noEscape : ∀ {c : Char} {rest others : List Char}, Ends isMark rest →
      rest ≠ escapeName c ++ others := by
    rintro c _ others ends rfl
    obtain ⟨letter, payload, name, alphanumeric⟩ := escapeName_eq_cons c
    rw [name, List.cons_append, ends_cons] at ends
    simp [isMark, alphanumeric] at ends
  unfold boundWith at same
  split_ifs at same with plain plain' plain'
  · simpa using same
  · exact absurd (List.cons.inj same).2 (noEscape ends)
  · exact absurd (List.cons.inj same).2.symm (noEscape ends')
  · exact separable_escapeName (ends_any rest) (ends_any others) (List.cons.inj same).2

/-- A bound never contains the end of a line, which does not stand for itself. -/
theorem newline_notMem_boundWith (beyond : Char → Bool) (c : Char) :
    '\n' ∉ boundWith beyond c := by
  have digits : '\n' ∉ Nat.toDigits 16 c.toNat := notMem_toDigits (by decide) (by decide) rfl _
  have escaped : isPlainWith beyond '\n' = false := rfl
  unfold boundWith
  split_ifs with plain
  · intro member
    rw [← List.mem_singleton.1 member, escaped] at plain
    cases plain
  · unfold escapeName
    split_ifs <;> simp [digits]

end TaggedRegex.Text
