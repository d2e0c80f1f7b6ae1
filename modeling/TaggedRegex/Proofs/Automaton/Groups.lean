import Mathlib.Data.List.Basic
import TaggedRegex.Proofs.Automaton.Anchored

set_option autoImplicit false

/-!
The groups of the automaton of an expression are those of the expression, numbered as they open,
each inside the group that is nearest around it.
-/

namespace TaggedRegex

namespace Regex

mutual

/-- The capture groups in an expression, each with what stands inside it. They are numbered from
`number` on; those that lie in no other group of the expression lie in the group `parent`. -/
def nested (number parent : Nat) : Regex → List (Group × Regex)
  | .any | .lit _ | .set _ | .atEnd => []
  | .group body => (⟨number, parent⟩, body) :: body.nested (number + 1) number
  | .rep _ _ body => body.nested number parent
  | .alt branches => nestedAll number parent branches
  | .cat items => nestedAll number parent items

/-- The capture groups in expressions that are numbered one after the other. -/
def nestedAll (number parent : Nat) : List Regex → List (Group × Regex)
  | [] => []
  | regex :: rest =>
      regex.nested number parent ++ nestedAll (number + regex.groupCount) parent rest

end

/-- All groups, the entire match first, each with what stands inside it. -/
def captureGroups (regex : Regex) : List (Group × Regex) := (Regex.group regex).nested 0 0

mutual

theorem numbers_nested (regex : Regex) (number parent : Nat) :
    (regex.nested number parent).map (fun entry => entry.1.number) =
      List.range' number regex.groupCount := by
  cases regex with
  | any | lit | set | atEnd => rfl
  | group body =>
    rw [nested, List.map_cons, numbers_nested body, groupCount, List.range'_succ]
  | rep _ _ body =>
    rw [nested, numbers_nested body, groupCount]
  | alt branches =>
    rw [nested, numbers_nestedAll branches, groupCount]
  | cat items =>
    rw [nested, numbers_nestedAll items, groupCount]

theorem numbers_nestedAll (expressions : List Regex) (number parent : Nat) :
    (nestedAll number parent expressions).map (fun entry => entry.1.number) =
      List.range' number (groupCounts expressions) := by
  cases expressions with
  | nil => rfl
  | cons regex rest =>
    rw [nestedAll, List.map_append, numbers_nested regex, numbers_nestedAll rest, groupCounts,
      List.range'_append_1]

end

theorem length_nested (regex : Regex) (number parent : Nat) :
    (regex.nested number parent).length = regex.groupCount := by
  have lengths := congrArg List.length (regex.numbers_nested number parent)
  rwa [List.length_map, List.length_range'] at lengths

theorem numbers_captureGroups (regex : Regex) :
    regex.captureGroups.map (fun entry => entry.1.number) = List.range (regex.groupCount + 1) := by
  rw [captureGroups, numbers_nested, groupCount, List.range_eq_range']

end Regex

theorem Group.perm_insertInto (group : Group) (groups : List Group) :
    (group.insertInto groups).Perm (group :: groups) := by
  induction groups with
  | nil => exact List.Perm.refl _
  | cons first rest ih =>
    rw [insertInto]
    split
    · exact List.Perm.refl _
    · exact (ih.cons first).trans (List.Perm.swap group first rest)

namespace Builder

/-- The groups are numbered without a gap. -/
def Dense (builder : Builder) : Prop :=
  builder.groups.map Group.number = List.range builder.groups.length

/-- These groups have been declared, one after the other. -/
def Declares (before : Builder) (entries : List (Group × Regex)) (after : Builder) : Prop :=
  after.groups = before.groups ++ entries.map Prod.fst

variable {before middle after : Builder} {head tail : StateId} {parent : Nat}

theorem Declares.dense {entries : List (Group × Regex)} (declares : before.Declares entries after)
    (dense : before.Dense) (numbers : entries.map (fun entry => entry.1.number) =
      List.range' before.groups.length entries.length) : after.Dense := by
  have mapped : (entries.map Prod.fst).map Group.number =
      List.range' before.groups.length entries.length := by
    rw [List.map_map]
    exact numbers
  have joined := List.range'_append_1 (s := 0) (m := before.groups.length) (n := entries.length)
  rw [Nat.zero_add] at joined
  rw [Dense, declares, List.map_append, dense, mapped, List.length_append, List.length_map,
    List.range_eq_range', List.range_eq_range', joined]

theorem Declares.dense_nested {regex : Regex}
    (declares : before.Declares (regex.nested before.groups.length parent) after)
    (dense : before.Dense) : after.Dense := by
  apply declares.dense dense
  rw [Regex.length_nested, Regex.numbers_nested]

theorem Declares.length_nested {regex : Regex} {number : Nat}
    (declares : before.Declares (regex.nested number parent) after) :
    after.groups.length = before.groups.length + regex.groupCount := by
  rw [declares, List.length_append, List.length_map, Regex.length_nested]

theorem groups_of_twoStates {first last : StateId}
    (success : before.twoStates = .ok (first, last, after)) : after.groups = before.groups := by
  rw [twoStates_eq_ok success]

theorem groups_of_state {state : StateId} (success : before.state = .ok (state, after)) :
    after.groups = before.groups := by
  rw [state_eq_ok success]

theorem groups_repetition (builder : Builder) (quantifier : Quantifier) (greed : Greed)
    (head first last tail : StateId) :
    (builder.repetition quantifier greed head first last tail).groups = builder.groups := by
  cases quantifier <;> rfl

theorem groups_readRanges (ranges : List CharRange) (builder : Builder) (head tail : StateId) :
    (ranges.foldl (fun builder range => builder.readRange head tail range) builder).groups =
      builder.groups := by
  induction ranges generalizing builder with
  | nil => rfl
  | cons range rest ih =>
    rw [List.foldl_cons, ih]
    rfl

/-- The tags of a group around a body declare nothing. -/
theorem declares_tagged {number : Nat} {body : Builder → StateId → StateId → Except Fault Builder}
    (entries : List (Group × Regex))
    (inside : ∀ {start finish : Builder} {first last : StateId}, start.groups = before.groups →
      body start first last = .ok finish → start.Declares entries finish)
    (success : before.tagged number head tail body = .ok after) :
    before.Declares entries after := by
  obtain ⟨⟨first, last, start⟩, fresh, success⟩ := Fault.of_bind_eq_ok success
  obtain ⟨finish, done, success⟩ := Fault.of_bind_eq_ok success
  cases success
  have same := groups_of_twoStates fresh
  have declared : (start.connect head .epsilon first .normal
      (some ⟨number, .opening⟩)).Declares entries finish := inside same done
  rw [Declares] at declared ⊢
  rw [← same]
  exact declared

mutual

/-- Laying out an expression declares its groups. -/
theorem declares_addRegex (regex : Regex) {before after : Builder} {head tail : StateId}
    {parent : Nat} (dense : before.Dense)
    (success : before.addRegex head tail parent regex = .ok after) :
    before.Declares (regex.nested before.groups.length parent) after := by
  cases regex with
  | any | lit | atEnd =>
    rw [addRegex] at success
    cases success
    exact (List.append_nil _).symm
  | set ranges =>
    rw [addRegex] at success
    cases success
    rw [Declares, groups_readRanges]
    exact (List.append_nil _).symm
  | group body =>
    rw [addRegex] at success
    obtain ⟨group, inside, success⟩ := Fault.of_bind_eq_ok success
    obtain ⟨start, declared, success⟩ := Fault.of_bind_eq_ok success
    obtain rfl := Group.inside_eq_ok inside
    rw [declareGroup_of_dense dense] at declared
    cases declared
    have opened : before.Declares [(⟨before.groups.length, parent⟩, body)]
        { before with groups := before.groups ++ [⟨before.groups.length, parent⟩] } := rfl
    have openedDense := opened.dense dense rfl
    have within : ∀ {inner finish : Builder} {first last : StateId},
        inner.groups = before.groups ++ [⟨before.groups.length, parent⟩] →
        addRegex inner first last before.groups.length body = .ok finish →
        inner.Declares (body.nested (before.groups.length + 1) before.groups.length) finish := by
      intro inner finish first last same done
      have innerDense : inner.Dense := by
        rw [Dense, same]
        exact openedDense
      have declares := declares_addRegex body innerDense done
      rw [same, List.length_append, List.length_singleton] at declares
      exact declares
    have rest := declares_tagged (body.nested (before.groups.length + 1) before.groups.length)
      within success
    rw [Declares] at rest ⊢
    rw [rest, Regex.nested, List.map_cons, List.append_assoc]
    rfl
  | rep quantifier greed body =>
    rw [addRegex] at success
    obtain ⟨⟨first, last, start⟩, fresh, success⟩ := Fault.of_bind_eq_ok success
    obtain ⟨finish, done, success⟩ := Fault.of_bind_eq_ok success
    cases success
    have same := groups_of_twoStates fresh
    have startDense : start.Dense := by
      rw [Dense, same]
      exact dense
    have declares := declares_addRegex body startDense done
    rw [Declares, same] at declares
    rw [Declares, groups_repetition, Regex.nested]
    exact declares
  | alt branches =>
    rw [addRegex] at success
    exact declares_addBranches branches dense success
  | cat items =>
    rw [addRegex] at success
    exact declares_addItems items dense success

theorem declares_addBranches (branches : List Regex) {before after : Builder}
    {head tail : StateId} {parent : Nat} {priority : Priority} (dense : before.Dense)
    (success : before.addBranches head tail parent priority branches = .ok after) :
    before.Declares (Regex.nestedAll before.groups.length parent branches) after := by
  cases branches with
  | nil =>
    rw [addBranches] at success
    cases success
    exact (List.append_nil _).symm
  | cons branch rest =>
    rw [addBranches] at success
    obtain ⟨⟨first, last, start⟩, fresh, success⟩ := Fault.of_bind_eq_ok success
    obtain ⟨middle, done, success⟩ := Fault.of_bind_eq_ok success
    have same := groups_of_twoStates fresh
    have startDense : start.Dense := by
      rw [Dense, same]
      exact dense
    have early := declares_addRegex branch startDense done
    have middleDense := early.dense_nested startDense
    have late : ((middle.epsilon head first priority).epsilon last tail .normal).Declares
        (Regex.nestedAll middle.groups.length parent rest) after :=
      declares_addBranches rest middleDense success
    have counted : middle.groups.length = start.groups.length + branch.groupCount :=
      early.length_nested
    have lateGroups : after.groups = middle.groups ++
      (Regex.nestedAll middle.groups.length parent rest).map Prod.fst := late
    rw [Declares] at early ⊢
    rw [lateGroups, counted, early, same, Regex.nestedAll, List.map_append, List.append_assoc]

theorem declares_addItems (items : List Regex) {before after : Builder} {head tail : StateId}
    {parent : Nat} (dense : before.Dense)
    (success : before.addItems head tail parent items = .ok after) :
    before.Declares (Regex.nestedAll before.groups.length parent items) after := by
  cases items with
  | nil =>
    rw [addItems] at success
    cases success
    exact (List.append_nil _).symm
  | cons item others =>
    cases others with
    | nil =>
      rw [addItems] at success
      rw [Regex.nestedAll, Regex.nestedAll, List.append_nil]
      exact declares_addRegex item dense success
    | cons next rest =>
      rw [addItems] at success
      obtain ⟨⟨state, start⟩, fresh, success⟩ := Fault.of_bind_eq_ok success
      obtain ⟨middle, done, success⟩ := Fault.of_bind_eq_ok success
      have same := groups_of_state fresh
      have startDense : start.Dense := by
        rw [Dense, same]
        exact dense
      have early := declares_addRegex item startDense done
      have late := declares_addItems (next :: rest) (early.dense_nested startDense) success
      have counted := early.length_nested
      rw [Declares] at early late ⊢
      rw [late, counted, early, same, List.append_assoc, ← List.map_append]
      conv_rhs => rw [Regex.nestedAll]

end

end Builder

open Builder in
/-- The groups of the automaton are those of the expression. -/
theorem Regex.groups_automaton {regex : Regex} {anchor : Anchor} {automaton : Automaton}
    (built : regex.automaton anchor = .ok automaton) :
    automaton.groups = regex.captureGroups.map Prod.fst := by
  -- The entire match is laid out where group 0 is the only group.
  have entire : ∀ {before after : Builder} {head tail : StateId},
      before.groups = [.entireMatch] →
      (before.tagged 0 head tail fun inner first last => inner.addRegex first last 0 regex) =
        .ok after → after.groups = regex.captureGroups.map Prod.fst := by
    intro before after head tail groups success
    have declares := declares_tagged (regex.nested 1 0)
      (fun {inner finish first last} same done => by
        rw [groups] at same
        have dense : inner.Dense := by
          rw [Builder.Dense, same]
          rfl
        have declares := declares_addRegex regex dense done
        rw [same] at declares
        exact declares) success
    rw [declares, groups]
    rfl
  have filler : ∀ {before after : Builder} {head tail : StateId} {greed : Greed}, before.Dense →
      before.addFiller head tail greed = .ok after → after.groups = before.groups := by
    intro before after head tail greed dense success
    have declares := declares_addRegex (.rep .star greed .any) dense success
    rw [declares]
    exact List.append_nil _
  cases anchor with
  | full =>
    rw [automaton_full] at built
    obtain ⟨after, laid, built⟩ := Fault.of_bind_eq_ok built
    obtain ⟨-, -, -, same, -⟩ := build_eq_ok built
    rw [same]
    exact entire rfl laid
  | search =>
    rw [automaton_search] at built
    obtain ⟨after, laid, built⟩ := Fault.of_bind_eq_ok built
    obtain ⟨front, frontLaid, laid⟩ := Fault.of_bind_eq_ok laid
    obtain ⟨middle, middleLaid, laid⟩ := Fault.of_bind_eq_ok laid
    obtain ⟨-, -, -, same, -⟩ := build_eq_ok built
    have frontGroups := filler (show framedSearch.Dense from rfl) frontLaid
    have middleGroups := entire frontGroups middleLaid
    have middleDense : middle.Dense := by
      have numbers := regex.numbers_captureGroups
      have lengths := congrArg List.length numbers
      rw [List.length_map, List.length_range] at lengths
      rw [Builder.Dense, middleGroups, List.map_map, List.length_map, lengths]
      exact numbers
    rw [same, filler middleDense laid]
    exact middleGroups

end TaggedRegex
