import TaggedRegex.Determinised.Table
import TaggedRegex.Proofs.Text.Separable

set_option autoImplicit false

/-!
Tables as text. A table can be told from its text, although dashes, blanks and backslashes separate
its parts and are bounds of ranges that stand for themselves: what comes next can always be told
from the characters read so far.
-/

namespace TaggedRegex

open Text

/-! ### Ranges -/

namespace CharRange

/-- The two bounds joined by a dash, where a test tells which characters beyond ASCII are letters
or digits. -/
def textWith (beyond : Char → Bool) (range : CharRange) : String :=
  String.ofList (boundWith beyond range.lo) ++ "-" ++ String.ofList (boundWith beyond range.hi)

theorem text_eq_textWith (range : CharRange) : range.text = range.textWith isAlphanumeric := by
  simp [text, textWith, ← toList_bound]

variable (beyond : Char → Bool)

theorem toList_textWith (range : CharRange) : (range.textWith beyond).toList =
    boundWith beyond range.lo ++ '-' :: boundWith beyond range.hi := by
  simp [textWith]

theorem separable_textWith : Separable isMark fun range : CharRange =>
    (range.textWith beyond).toList := by
  intro a b rest others ends ends' same
  simp only [toList_textWith, List.append_assoc, List.cons_append] at same
  obtain ⟨lo, behind⟩ := separable_boundWith beyond (ends_cons.2 rfl) (ends_cons.2 rfl) same
  obtain ⟨hi, behind⟩ := separable_boundWith beyond ends ends' (List.cons.inj behind).2
  cases a
  cases b
  simp_all

theorem newline_notMem_textWith (range : CharRange) :
    '\n' ∉ (range.textWith beyond).toList := by
  simp [toList_textWith, newline_notMem_boundWith]

end CharRange

/-! ### Instructions -/

theorem HistoryId.toList_text (history : HistoryId) :
    history.text.toList = 'h' :: Nat.toDigits 10 history.index := by
  simp [HistoryId.text]

theorem HistoryId.eq_of_toDigits {a b : HistoryId}
    (same : Nat.toDigits 10 a.index = Nat.toDigits 10 b.index) : a = b := by
  cases a
  cases b
  exact congrArg HistoryId.mk (toDigits_injective (by decide) (by decide) same)

namespace Instruction

/-- The characters of an offset. -/
def offsetChars (offset : Int) : List Char :=
  if offset = 0 then []
  else (if offset < 0 then '-' else '+') :: Nat.toDigits 10 offset.natAbs

theorem toList_offsetText (offset : Int) : (offsetText offset).toList = offsetChars offset := by
  unfold offsetText offsetChars
  cases offset with
  | ofNat n =>
    have written : toString (Int.ofNat n) = n.repr := rfl
    rw [written]
    cases n with
    | zero => rfl
    | succ n =>
      have positive : (n : Int) + 1 ≠ 0 ∧ ¬ (n : Int) + 1 < 0 ∧ ((n : Int) + 1).natAbs = n + 1 := by
        omega
      simp [positive, Nat.toList_repr]
  | negSucc n =>
    have written : toString (Int.negSucc n) = "-" ++ (n + 1).repr := rfl
    rw [written]
    simp [Int.negSucc_lt_zero]

/-- The characters of an instruction. -/
def chars : Instruction → List Char
  | .set history offset =>
      'h' :: (Nat.toDigits 10 history.index ++ '<' :: '-' :: 'p' :: 'o' :: 's' ::
        offsetChars offset)
  | .copy target source =>
      'h' :: (Nat.toDigits 10 target.index ++ '<' :: '-' :: 'h' :: Nat.toDigits 10 source.index)
  | .commitStart history => 'c' :: '↑' :: 'h' :: Nat.toDigits 10 history.index
  | .commitEnd history => 'c' :: '↓' :: 'h' :: Nat.toDigits 10 history.index
  | .reset history =>
      'r' :: 'e' :: 's' :: 'e' :: 't' :: ' ' :: 'h' :: Nat.toDigits 10 history.index

theorem toList_text (instruction : Instruction) : instruction.text.toList = instruction.chars := by
  cases instruction <;> simp [text, chars, HistoryId.toList_text, toList_offsetText]

/-- What separates instructions and lines does not occur in an instruction. -/
theorem notMem_chars {c : Char} (separates : c ∈ [',', ']', '\n']) (instruction : Instruction) :
    c ∉ instruction.chars := by
  have mark : c.isAlphanum = false := by
    simp only [List.mem_cons, List.not_mem_nil, or_false] at separates
    rcases separates with rfl | rfl | rfl <;> rfl
  have digits : ∀ n, c ∉ Nat.toDigits 10 n := notMem_toDigits (by decide) (by decide) mark
  have offsets : ∀ offset, c ∉ offsetChars offset := by
    intro offset
    unfold offsetChars
    split_ifs <;> grind
  cases instruction <;> grind [chars]

theorem offsetChars_injective : Function.Injective offsetChars := by
  intro a b same
  have number := @toDigits_injective 10 (by decide) (by decide) a.natAbs b.natAbs
  unfold offsetChars at same
  grind

/-- A history ends at the arrow behind it. -/
theorem eq_of_arrow {a b : HistoryId} {rest others : List Char}
    (same : Nat.toDigits 10 a.index ++ '<' :: '-' :: rest =
      Nat.toDigits 10 b.index ++ '<' :: '-' :: others) : a = b ∧ rest = others := by
  obtain ⟨number, behind⟩ := separable_toDigits (by decide) (by decide) (ends_cons.2 rfl)
    (ends_cons.2 rfl) same
  exact ⟨HistoryId.eq_of_toDigits (congrArg (Nat.toDigits 10) number), by simpa using behind⟩

/-- The first characters tell the kind of an instruction. If it begins with a history, the character
behind the arrow does. -/
theorem chars_injective : Function.Injective chars := by
  intro a b same
  cases a with
  | set target offset =>
    cases b with
    | set other offset' =>
      obtain ⟨rfl, behind⟩ := eq_of_arrow (List.cons.inj same).2
      obtain rfl : offset = offset' := offsetChars_injective (by simpa using behind)
      rfl
    | copy other source =>
      have behind := (eq_of_arrow (List.cons.inj same).2).2
      simp at behind
    | commitStart | commitEnd | reset => simp [chars] at same
  | copy target source =>
    cases b with
    | set other offset =>
      have behind := (eq_of_arrow (List.cons.inj same).2).2
      simp at behind
    | copy other source' =>
      obtain ⟨rfl, behind⟩ := eq_of_arrow (List.cons.inj same).2
      rw [HistoryId.eq_of_toDigits (List.cons.inj behind).2]
    | commitStart | commitEnd | reset => simp [chars] at same
  | commitStart target | commitEnd target | reset target =>
    cases b with
    | set | copy => simp [chars] at same
    | commitStart other | commitEnd other | reset other =>
      simp only [chars, List.cons.injEq, true_and] at same
      first
        | rw [HistoryId.eq_of_toDigits same]
        | simp at same

/-- Behind an instruction in a list comes a comma or the bracket at its end. -/
theorem separable_chars : Separable (fun c => c = ',' || c = ']') chars :=
  .of_span chars_injective fun instruction c member => by
    have comma : c ≠ ',' := fun same => notMem_chars (by simp) instruction (same ▸ member)
    have bracket : c ≠ ']' := fun same => notMem_chars (by simp) instruction (same ▸ member)
    simp [comma, bracket]

/-- What stands behind the first instruction of a list. -/
def behindFirst : List Instruction → List Char
  | [] => [']']
  | instruction :: rest => ',' :: ' ' :: (instruction.chars ++ behindFirst rest)

/-- The characters of a list. -/
def listChars : List Instruction → List Char
  | [] => ['[', ']']
  | first :: rest => '[' :: (first.chars ++ behindFirst rest)

theorem toList_listText (instructions : List Instruction) :
    (listText instructions).toList = listChars instructions := by
  have joined : ∀ (first : Instruction) (rest : List Instruction),
      ", ".toList.intercalate ((first :: rest).map chars) ++ [']'] =
        first.chars ++ behindFirst rest := by
    intro first rest
    induction rest generalizing first with
    | nil => simp [behindFirst]
    | cons next rest ih =>
      have shorter := ih next
      rw [List.map_cons] at shorter
      rw [List.map_cons, List.map_cons, List.intercalate_cons_cons, List.append_assoc, shorter]
      simp [behindFirst]
  have texts : instructions.map (String.toList ∘ text) = instructions.map chars :=
    List.map_congr_left fun instruction _ => toList_text instruction
  cases instructions with
  | nil => rfl
  | cons first rest =>
    rw [listText, String.toList_append, String.toList_append, String.toList_intercalate,
      List.map_map, texts, List.append_assoc]
    exact congrArg ('[' :: ·) (joined first rest)

theorem ends_behindFirst (instructions : List Instruction) (rest : List Char) :
    Ends (fun c => c = ',' || c = ']') (behindFirst instructions ++ rest) := by
  cases instructions <;> exact ends_cons.2 rfl

theorem separable_behindFirst : Separable (fun _ => true) behindFirst := by
  intro a
  induction a with
  | nil =>
    intro b rest others _ _ same
    cases b with
    | nil => simpa [behindFirst] using same
    | cons => simp [behindFirst] at same
  | cons first a ih =>
    intro b rest others ends ends' same
    cases b with
    | nil => simp [behindFirst] at same
    | cons first' b =>
      simp only [behindFirst, List.cons_append, List.append_assoc, List.cons.injEq,
        true_and] at same
      obtain ⟨rfl, behind⟩ :=
        separable_chars (ends_behindFirst a rest) (ends_behindFirst b others) same
      obtain ⟨rfl, after⟩ := ih ends ends' behind
      exact ⟨rfl, after⟩

theorem chars_ne_bracket (instruction : Instruction) (rest others : List Char) :
    ']' :: rest ≠ instruction.chars ++ others := by
  cases instruction <;> simp [chars]

/-- Nothing else comes right behind the bracket that opens a list if the list is empty. -/
theorem separable_listChars : Separable (fun _ => true) listChars := by
  intro a b rest others ends ends' same
  cases a with
  | nil =>
    cases b with
    | nil => simpa [listChars] using same
    | cons first b =>
      simp only [listChars, List.cons_append, List.nil_append, List.append_assoc, List.cons.injEq,
        true_and] at same
      exact absurd same (chars_ne_bracket first _ _)
  | cons first a =>
    cases b with
    | nil =>
      simp only [listChars, List.cons_append, List.nil_append, List.append_assoc, List.cons.injEq,
        true_and] at same
      exact absurd same.symm (chars_ne_bracket first _ _)
    | cons first' b =>
      simp only [listChars, List.cons_append, List.append_assoc, List.cons.injEq, true_and] at same
      obtain ⟨rfl, behind⟩ :=
        separable_chars (ends_behindFirst a rest) (ends_behindFirst b others) same
      obtain ⟨rfl, after⟩ := separable_behindFirst ends ends' behind
      exact ⟨rfl, after⟩

theorem newline_notMem_listChars (instructions : List Instruction) :
    '\n' ∉ listChars instructions := by
  have apart := fun instruction => notMem_chars (by simp : '\n' ∈ [',', ']', '\n']) instruction
  have tail : ∀ rest, '\n' ∉ behindFirst rest := by
    intro rest
    induction rest with
    | nil => decide
    | cons next rest ih => simp [behindFirst, apart, ih]
  cases instructions <;> simp [listChars, apart, tail]

end Instruction

/-! ### Transitions and tables -/

namespace Transition

/-- A transition on a line, where a test tells which characters beyond ASCII are letters or
digits. -/
def textWith (beyond : Char → Bool) (transition : Transition) : String :=
  toString transition.source ++ "-" ++ transition.range.textWith beyond ++ " -> " ++
    toString transition.target ++ " " ++ Instruction.listText transition.instructions

theorem text_eq_textWith (transition : Transition) :
    transition.text = transition.textWith isAlphanumeric := by
  rw [text, textWith, CharRange.text_eq_textWith]

variable (beyond : Char → Bool)

theorem toList_textWith (transition : Transition) : (transition.textWith beyond).toList =
    Nat.toDigits 10 transition.source ++ '-' :: ((transition.range.textWith beyond).toList ++
      ' ' :: '-' :: '>' :: ' ' :: (Nat.toDigits 10 transition.target ++
        ' ' :: Instruction.listChars transition.instructions)) := by
  simp [textWith, Instruction.toList_listText]

/-- A number ends at a dash or a blank, a range at a blank, and a list of instructions by itself. -/
theorem separable_textWith : Separable (fun _ => true) fun transition : Transition =>
    (transition.textWith beyond).toList := by
  have number := @separable_toDigits 10 (by decide) (by decide)
  rintro ⟨source, range, target, instructions⟩ ⟨source', range', target', instructions'⟩
    rest others ends ends' same
  simp only [toList_textWith, List.append_assoc, List.cons_append] at same
  obtain ⟨rfl, behindSource⟩ := number (ends_cons.2 rfl) (ends_cons.2 rfl) same
  obtain ⟨rfl, behindRange⟩ := CharRange.separable_textWith beyond (ends_cons.2 rfl)
    (ends_cons.2 rfl) (List.cons.inj behindSource).2
  simp only [List.cons.injEq, true_and] at behindRange
  obtain ⟨rfl, behindTarget⟩ := number (ends_cons.2 rfl) (ends_cons.2 rfl) behindRange
  obtain ⟨rfl, behindList⟩ :=
    Instruction.separable_listChars ends ends' (List.cons.inj behindTarget).2
  exact ⟨rfl, behindList⟩

theorem newline_notMem_textWith (transition : Transition) :
    '\n' ∉ (transition.textWith beyond).toList := by
  have digits : ∀ n, '\n' ∉ Nat.toDigits 10 n := notMem_toDigits (by decide) (by decide) rfl
  simp [toList_textWith, digits, CharRange.newline_notMem_textWith,
    Instruction.newline_notMem_listChars]

end Transition

namespace Table

/-- Every transition on a line of its own, where a test tells which characters beyond ASCII are
letters or digits. -/
def linesWith (beyond : Char → Bool) (table : Table) : List String :=
  table.transitions.toList.map (Transition.textWith beyond)

/-- The lines, each with its end. -/
def textWith (beyond : Char → Bool) (table : Table) : String :=
  String.join ((table.linesWith beyond).map fun line => line ++ "\n")

theorem text_eq_textWith (table : Table) : table.text = table.textWith isAlphanumeric := by
  have lines : table.lines = table.linesWith isAlphanumeric :=
    List.map_congr_left fun transition _ => transition.text_eq_textWith
  rw [text, textWith, lines]

theorem textWith_injective (beyond : Char → Bool) : Function.Injective (textWith beyond) := by
  have line : Separable (fun _ => true) fun transition : Transition =>
      (transition.textWith beyond).toList ++ ['\n'] := by
    intro a b rest others _ _ same
    simp only [List.append_assoc, List.singleton_append] at same
    obtain ⟨rfl, behind⟩ := Transition.separable_textWith beyond (ends_any _) (ends_any _) same
    exact ⟨rfl, (List.cons.inj behind).2⟩
  have written : ∀ table : Table, (table.textWith beyond).toList =
      table.transitions.toList.flatMap fun transition =>
        (transition.textWith beyond).toList ++ ['\n'] := by
    intro table
    simp [textWith, linesWith, String.toList_join, List.flatMap_map]
  intro a b same
  have lists := congrArg String.toList same
  rw [written, written] at lists
  have transitions := line.flatMap_injective (by simp) lists
  cases a
  cases b
  exact congrArg Table.mk (Array.toList_inj.1 transitions)

/-- Whatever test tells the letters and digits beyond ASCII, tables with equal texts have the same
transitions with the same instructions in the same order, ranges and instructions with equal texts
are equal, and no line ends before its end. The texts are those where the test is that of the
library. -/
theorem text_unambiguous (beyond : Char → Bool) :
    (∀ a b : Table, a.textWith beyond = b.textWith beyond → a = b) ∧
    (∀ a b : CharRange, a.textWith beyond = b.textWith beyond → a = b) ∧
    (∀ a b : Instruction, a.text = b.text → a = b) ∧
    (∀ (table : Table), ∀ line ∈ table.linesWith beyond, '\n' ∉ line.toList) ∧
    (∀ table : Table, table.text = table.textWith isAlphanumeric) ∧
    ∀ range : CharRange, range.text = range.textWith isAlphanumeric := by
  refine ⟨fun a b same => textWith_injective beyond same, ?_, ?_, ?_, text_eq_textWith,
    CharRange.text_eq_textWith⟩
  · intro a b same
    exact (CharRange.separable_textWith beyond).injective (congrArg String.toList same)
  · intro a b same
    have lists := congrArg String.toList same
    rw [Instruction.toList_text, Instruction.toList_text] at lists
    exact Instruction.chars_injective lists
  · intro table line member
    obtain ⟨transition, -, rfl⟩ := List.mem_map.1 member
    exact transition.newline_notMem_textWith beyond

/-- Dashes, backslashes and blanks as bounds. -/
example : (CharRange.mk '-' '\\' (by decide)).text = "--\\" ∧
    (CharRange.mk ' ' '-' (by decide)).text = " --" ∧
    (CharRange.mk '\t' '\\' (by decide)).text = "\\t-\\" := by decide

end Table

end TaggedRegex
