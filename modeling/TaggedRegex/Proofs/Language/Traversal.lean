import TaggedRegex.Proofs.Language.Marks
import TaggedRegex.Proofs.Trail.Step

set_option autoImplicit false

/-!
Ways through a laid out expression. A completion from its first state passes its last one after a
word that the expression matches, and the tags that it crosses on the way are marks of the match.
-/

namespace TaggedRegex

/-- The trail completes the input in two parts: one that reads a word, with marks that may belong to
it, and leads to `tail`, and one that goes on from there. -/
def Automaton.Traverses (automaton : Automaton)
    (reads : Nat → List Char → List Char → Marking → Prop) (rest : List Char) (consumed : Nat)
    (tail : StateId) (trail : Trail) : Prop :=
  ∃ word behind passage later, rest = word ++ behind ∧
    reads consumed word behind passage.marks ∧ trail = passage ++ later ∧ passage ≠ [] ∧
    automaton.Completes behind (consumed + word.length) tail later

namespace Automaton.Traverses

variable {automaton : Automaton} {reads : Nat → List Char → List Char → Marking → Prop}
  {rest : List Char} {consumed : Nat} {tail : StateId} {trail : Trail}

theorem mono {wider : Nat → List Char → List Char → Marking → Prop}
    (traverses : automaton.Traverses reads rest consumed tail trail)
    (subset : ∀ word behind marking, reads consumed word behind marking →
      wider consumed word behind marking) :
    automaton.Traverses wider rest consumed tail trail := by
  obtain ⟨word, behind, passage, later, same, read, others⟩ := traverses
  exact ⟨word, behind, passage, later, same, subset word behind _ read, others⟩

/-- One edge that reads nothing. -/
theorem free {edge : Edge} (tag : edge.tag = none) (nothing : reads consumed [] rest [])
    (completes : automaton.Completes rest consumed tail trail) :
    automaton.Traverses reads rest consumed tail (⟨edge, consumed⟩ :: trail) := by
  refine ⟨[], rest, [_], trail, rfl, ?_, rfl, List.cons_ne_nil _ _, completes⟩
  rw [Trail.marks_cons_untagged tag]
  exact nothing

/-- One edge that reads a character. -/
theorem read {edge : Edge} {c : Char} (tag : edge.tag = none) (one : reads consumed [c] rest [])
    (completes : automaton.Completes rest (consumed + 1) tail trail) :
    automaton.Traverses reads (c :: rest) consumed tail (⟨edge, consumed + 1⟩ :: trail) := by
  refine ⟨[c], rest, [_], trail, rfl, ?_, rfl, List.cons_ne_nil _ _, completes⟩
  rw [Trail.marks_cons_untagged tag]
  exact one

/-- An edge without a tag in front. -/
theorem cons {edge : Edge} (tag : edge.tag = none) (passed : Nat)
    (traverses : automaton.Traverses reads rest consumed tail trail) :
    automaton.Traverses reads rest consumed tail (⟨edge, passed⟩ :: trail) := by
  obtain ⟨word, behind, passage, later, same, read, rfl, -, completes⟩ := traverses
  refine ⟨word, behind, ⟨edge, passed⟩ :: passage, later, same, ?_, rfl, List.cons_ne_nil _ _,
    completes⟩
  rw [Trail.marks_cons_untagged tag]
  exact read

/-- One way behind the other. -/
theorem append {middle : StateId} {more whole : Nat → List Char → List Char → Marking → Prop}
    (traverses : automaton.Traverses reads rest consumed middle trail)
    (joined : ∀ word further behind first second, reads consumed word (further ++ behind) first →
      more (consumed + word.length) further behind second →
      whole consumed (word ++ further) behind (first ++ second))
    (goesOn : ∀ word behind later, rest = word ++ behind → later.length < trail.length →
      automaton.Completes behind (consumed + word.length) middle later →
      automaton.Traverses more behind (consumed + word.length) tail later) :
    automaton.Traverses whole rest consumed tail trail := by
  obtain ⟨word, behind, passage, later, same, read, rfl, nonempty, completes⟩ := traverses
  have positive := List.length_pos_iff.2 nonempty
  have shorter : later.length < (passage ++ later).length := by
    rw [List.length_append]
    omega
  obtain ⟨further, behind', passage', later', rfl, read', rfl, -, completes'⟩ :=
    goesOn word behind later same shorter completes
  have both := joined word further behind' _ _ read read'
  rw [← Trail.marks_append] at both
  refine ⟨word ++ further, behind', passage ++ passage', later', ?_, both, ?_, ?_, ?_⟩
  · rw [same, List.append_assoc]
  · rw [List.append_assoc]
  · intro empty
    exact nonempty (List.append_eq_nil_iff.1 empty).1
  · rw [List.length_append, ← Nat.add_assoc]
    exact completes'

/-- The way is empty, and so are its marks. -/
def Nothing (_ : Nat) (word _ : List Char) (marking : Marking) : Prop := word = [] ∧ marking = []

theorem Nothing.append {word further behind : List Char} {first second : Marking} {middle : Nat}
    (read : reads consumed word (further ++ behind) first)
    (nothing : Nothing middle further behind second) :
    reads consumed (word ++ further) behind (first ++ second) := by
  obtain ⟨rfl, rfl⟩ := nothing
  rw [List.append_nil, List.append_nil]
  exact read

/-- One more edge, behind a way, that reads nothing. -/
theorem leave {connections : List Connection} (draws : automaton.Draws connections)
    {last : StateId} (leaves : (automaton.plan connections).Leaves last [.epsilon tail .normal])
    (traverses : automaton.Traverses reads rest consumed last trail) :
    automaton.Traverses reads rest consumed tail trail := by
  apply traverses.append fun _ _ _ _ _ => Nothing.append
  intro word behind later _ _ completes
  obtain ⟨edge, later, untagged, rfl, next⟩ := leaves.step_one draws rfl completes
  exact Traverses.free untagged ⟨rfl, rfl⟩ next

end Automaton.Traverses

section Ways

variable {automaton : Automaton} {connections : List Connection}

open Automaton (Traverses)

/-- Ways through a repetition from a state that either enters its body again or leaves. -/
theorem Regex.traverses_star (draws : automaton.Draws connections) {greed : Greed} {body : Regex}
    {number : Nat} {first last tail : StateId}
    (through : ∀ rest consumed trail, automaton.Completes rest consumed first trail →
      automaton.Traverses (body.Marks number) rest consumed last trail)
    (leaves : (automaton.plan connections).Leaves last
      (Quantifier.star.lastArms greed first tail))
    {state : StateId} (atState : (automaton.plan connections).Leaves state
      (Quantifier.star.lastArms greed first tail))
    {rest : List Char} {consumed : Nat} {trail : Trail}
    (completes : automaton.Completes rest consumed state trail) :
    automaton.Traverses ((Regex.rep .star greed body).Marks number) rest consumed tail trail := by
  induction length : trail.length using Nat.strongRecOn generalizing state rest consumed trail with
  | ind bound ih =>
    obtain ⟨edge, later, untagged, rfl, enters | leaving⟩ := atState.step_choice draws completes
    · apply Traverses.cons untagged consumed
      apply (through _ _ _ enters).append fun _ _ _ _ _ => Regex.Marks.starMore
      intro word behind onward _ shorter goesOn
      rw [List.length_cons] at length
      exact ih onward.length (by omega) leaves goesOn rfl
    · exact Traverses.free untagged (.starDone greed body number consumed rest) leaving

/-- Ways over the arms that read a character. -/
theorem Regex.traverses_read (draws : automaton.Draws connections)
    {reads : Nat → List Char → List Char → Marking → Prop} {head tail : StateId}
    {ranges : List CharRange}
    (leaves : (automaton.plan connections).Leaves head (ranges.map fun range => .read range tail))
    {rest : List Char} {consumed : Nat} {trail : Trail}
    (one : ∀ range ∈ ranges, ∀ c ∈ range, ∀ behind, reads consumed [c] behind [])
    (completes : automaton.Completes rest consumed head trail) :
    automaton.Traverses reads rest consumed tail trail := by
  obtain ⟨arm, member, edge, rest', consumed', later, tag, passes, rfl, next⟩ :=
    leaves.step draws completes
  obtain ⟨range, listed, rfl⟩ := List.mem_map.1 member
  cases passes with
  | chars _ _ inside => exact Traverses.read tag (one range listed _ inside _) next

mutual

/-- A completion that enters an expression leaves it after a word that the expression matches. -/
theorem Regex.traverses (draws : automaton.Draws connections) (regex : Regex) {number : Nat}
    {head tail : StateId} (lays : (automaton.plan connections).Lays number head tail regex)
    {rest : List Char} {consumed : Nat} {trail : Trail}
    (completes : automaton.Completes rest consumed head trail) :
    automaton.Traverses (regex.Marks number) rest consumed tail trail := by
  cases regex with
  | any =>
    rw [Plan.Lays] at lays
    have leaves : (automaton.plan connections).Leaves head
      ([CharRange.all].map fun range => .read range tail) := lays
    exact Regex.traverses_read draws leaves
      (fun _ _ c _ behind => .any number consumed c behind) completes
  | lit c =>
    rw [Plan.Lays] at lays
    have leaves : (automaton.plan connections).Leaves head
      ([CharRange.single c].map fun range => .read range tail) := lays
    apply Regex.traverses_read draws leaves ?_ completes
    intro range member other inside behind
    obtain rfl := List.mem_singleton.1 member
    obtain rfl := (CharRange.mem_single c other).1 inside
    exact .lit number consumed other behind
  | set ranges =>
    rw [Plan.Lays] at lays
    exact Regex.traverses_read draws lays
      (fun _ listed _ inside behind => .set number consumed behind listed inside) completes
  | atEnd =>
    rw [Plan.Lays] at lays
    obtain ⟨arm, member, edge, rest', consumed', later, tag, passes, rfl, next⟩ :=
      lays.step draws completes
    obtain rfl := List.mem_singleton.1 member
    cases passes
    exact Traverses.free tag (.atEnd number consumed) next
  | group body =>
    rw [Plan.Lays] at lays
    obtain ⟨first, last, opens, inside, closes⟩ := lays
    obtain ⟨opening, within, openingTag, rfl, enters⟩ := opens.step_one draws rfl completes
    obtain ⟨word, behind, passage, later, rfl, marks, rfl, nonempty, goesOn⟩ :=
      Regex.traverses draws body inside enters
    obtain ⟨closing, after, closingTag, rfl, leaving⟩ := closes.step_one draws rfl goesOn
    refine ⟨word, behind, ⟨opening, consumed⟩ :: passage ++ [⟨closing, consumed + word.length⟩],
      after, rfl, ?_, ?_, List.cons_ne_nil _ _, leaving⟩
    · rw [Trail.marks_enclose openingTag closingTag]
      exact .group marks
    · rw [List.cons_append, List.cons_append, List.append_assoc, List.singleton_append]
  | rep quantifier greed body =>
    rw [Plan.Lays] at lays
    obtain ⟨first, last, begins, inside, goesOn⟩ := lays
    have through : ∀ rest consumed trail, automaton.Completes rest consumed first trail →
        automaton.Traverses (body.Marks number) rest consumed last trail :=
      fun _ _ _ => Regex.traverses draws body inside
    cases quantifier with
    | star => exact Regex.traverses_star draws through goesOn begins completes
    | plus =>
      obtain ⟨edge, later, untagged, rfl, enters⟩ := begins.step_one draws rfl completes
      apply Traverses.cons untagged consumed
      apply (through _ _ _ enters).append fun _ _ _ _ _ => Regex.Marks.plus
      intro word behind onward _ _ more
      exact Regex.traverses_star draws through goesOn goesOn more
    | opt =>
      obtain ⟨edge, later, untagged, rfl, enters | leaving⟩ := begins.step_choice draws completes
      · apply Traverses.cons untagged consumed
        exact ((through _ _ _ enters).leave draws goesOn).mono fun _ _ _ => Regex.Marks.optSome
      · exact Traverses.free untagged (.optNone greed body number consumed rest) leaving
  | alt branches =>
    rw [Plan.Lays] at lays
    obtain ⟨arms, leaves, lays⟩ := lays
    obtain ⟨arm, member, edge, rest', consumed', later, tag, passes, rfl, next⟩ :=
      leaves.step draws completes
    obtain ⟨label, untagged, through⟩ := Regex.traversesBranches draws branches lays member next
    rw [label] at passes
    rw [untagged] at tag
    cases passes
    exact through.cons tag consumed
  | cat items =>
    rw [Plan.Lays] at lays
    exact Regex.traversesItems draws items lays completes

theorem Regex.traversesBranches (draws : automaton.Draws connections) (branches : List Regex)
    {number : Nat} {tail : StateId} {priority : Priority} {arms : List Arm}
    (lays : (automaton.plan connections).LaysBranches number tail priority arms branches)
    {arm : Arm} (member : arm ∈ arms)
    {rest : List Char} {consumed : Nat} {trail : Trail}
    (completes : automaton.Completes rest consumed arm.target trail) :
    arm.label = .epsilon ∧ arm.tag = none ∧
      automaton.Traverses ((Regex.alt branches).Marks number) rest consumed tail trail := by
  cases branches with
  | nil =>
    rw [Plan.LaysBranches] at lays
    rw [lays] at member
    cases member
  | cons branch others =>
    rw [Plan.LaysBranches] at lays
    obtain ⟨first, last, otherArms, rfl, inside, leaves, laysOthers⟩ := lays
    obtain rfl | otherMember := List.mem_cons.1 member
    · refine ⟨rfl, rfl, ?_⟩
      apply ((Regex.traverses draws branch inside completes).leave draws leaves).mono
      exact fun _ _ _ => Regex.Marks.altHere
    · obtain ⟨label, untagged, through⟩ :=
        Regex.traversesBranches draws others laysOthers otherMember completes
      exact ⟨label, untagged, through.mono fun _ _ _ => Regex.Marks.altLater⟩

theorem Regex.traversesItems (draws : automaton.Draws connections) (items : List Regex)
    {number : Nat} {head tail : StateId}
    (lays : (automaton.plan connections).LaysItems number head tail items) {rest : List Char}
    {consumed : Nat} {trail : Trail}
    (completes : automaton.Completes rest consumed head trail) :
    automaton.Traverses ((Regex.cat items).Marks number) rest consumed tail trail := by
  cases items with
  | nil =>
    rw [Plan.LaysItems] at lays
    obtain ⟨edge, later, untagged, rfl, next⟩ := lays.step_one draws rfl completes
    exact Traverses.free untagged (.catNil number consumed rest) next
  | cons item others =>
    cases others with
    | nil =>
      rw [Plan.LaysItems] at lays
      apply (Regex.traverses draws item lays completes).mono
      intro word behind marking marks
      rw [← List.append_nil word, ← List.append_nil marking]
      exact .catCons marks (.catNil _ _ behind)
    | cons next more =>
      rw [Plan.LaysItems] at lays
      obtain ⟨middle, laysItem, laysMore⟩ := lays
      apply (Regex.traverses draws item laysItem completes).append
        fun _ _ _ _ _ => Regex.Marks.catCons
      intro word behind later _ _ goesOn
      exact Regex.traversesItems draws (next :: more) laysMore goesOn

end

end Ways

end TaggedRegex
