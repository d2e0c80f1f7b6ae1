import TaggedRegex.Automaton.OfRegex
import TaggedRegex.Proofs.Grammar.Levels

set_option autoImplicit false

/-!
How deep calls nest in the functions that call themselves on the parts of an expression: counting
its groups, writing it out, and laying it out. Each of them is given a number of calls that may be
open at once, and none needs more of them than the expression has levels. Patterns that can be read
have few levels, so the number does not depend on their length.
-/

namespace TaggedRegex

namespace Regex

/-- A function on expressions that may call itself on their parts, where at most `depth` calls are
open at once. A call too many is answered by `tooDeep`. -/
def within {α : Type} (tooDeep : α) (visit : (Regex → α) → Regex → α) : Nat → Regex → α
  | 0, _ => tooDeep
  | depth + 1, regex => visit (within tooDeep visit depth) regex

/-- If calls for the parts of an expression are enough for its own answer, then no more calls are
open at once than there are levels. -/
theorem within_eq {α : Type} {tooDeep : α} {visit : (Regex → α) → Regex → α} (answer : Regex → α)
    (visit_eq : ∀ (call : Regex → α) (regex : Regex),
      (∀ child ∈ regex.children, call child = answer child) → visit call regex = answer regex)
    {depth : Nat} {regex : Regex} (enough : regex.levels ≤ depth) :
    within tooDeep visit depth regex = answer regex := by
  induction depth generalizing regex with
  | zero => cases regex <;> simp [levels, heaviest] at enough
  | succ depth ih =>
    apply visit_eq
    intro child part
    have below : Weights.self ⟨1, 1, 1, 1, 1⟩ regex + child.levels ≤ regex.levels :=
      self_add_heaviest_le part
    have one : Weights.self ⟨1, 1, 1, 1, 1⟩ regex = 1 := by cases regex <;> rfl
    rw [one] at below
    exact ih (by omega)

/-! ### Counting groups -/

/-- The number of groups, where `call` counts those of a part. -/
def visitCount (call : Regex → Option Nat) : Regex → Option Nat
  | .any | .lit _ | .set _ | .atEnd => some 0
  | .group body => (call body).map (· + 1)
  | .rep _ _ body => call body
  | .alt parts | .cat parts => (parts.mapM call).map fun counts => counts.foldr (· + ·) 0

theorem mapM_eq_some {α β : Type} {call : α → Option β} {answer : α → β} {parts : List α}
    (each : ∀ part ∈ parts, call part = some (answer part)) :
    parts.mapM call = some (parts.map answer) := by
  induction parts with
  | nil => rfl
  | cons part rest ih =>
    rw [List.forall_mem_cons] at each
    simp [each.1, ih each.2]

theorem foldr_groupCount (parts : List Regex) :
    (parts.map groupCount).foldr (· + ·) 0 = groupCounts parts := by
  induction parts with
  | nil => rfl
  | cons part rest ih => rw [List.map_cons, List.foldr_cons, ih, groupCounts]

theorem groupCount_within {depth : Nat} {regex : Regex} (enough : regex.levels ≤ depth) :
    within none visitCount depth regex = some regex.groupCount := by
  apply within_eq (fun regex => some regex.groupCount) ?_ enough
  intro call regex each
  cases regex with
  | any | lit | set | atEnd => rfl
  | group body => simp [visitCount, groupCount, each body (List.mem_singleton_self _)]
  | rep _ _ body => exact each body (List.mem_singleton_self _)
  | alt parts | cat parts =>
    have counts : parts.mapM call = some (parts.map groupCount) := mapM_eq_some each
    rw [visitCount, counts, Option.map_some, foldr_groupCount, groupCount]

/-! ### Writing out -/

/-- The text of a part, in parentheses if it has bars. -/
def callWrapped (call : Regex → Option (List Char)) (part : Regex) : Option (List Char) :=
  (call part).map (wrappedIf part.hasBars)

/-- The text, where `call` writes out a part. -/
def visitChars (call : Regex → Option (List Char)) : Regex → Option (List Char)
  | .any => some ['.']
  | .lit c => some (escapedChar metaChars c)
  | .set ranges => some ('[' :: ranges.flatMap classItem ++ [']'])
  | .group body => (call body).map fun text => '(' :: text ++ [')']
  | .rep quantifier greed body =>
      (call body).map fun text =>
        wrappedIf (!body.isAtom) text ++ repetitionSigns quantifier greed
  | .alt [] => some ['[', ']']
  | .alt (first :: rest) => do
      let text ← callWrapped call first
      let texts ← rest.mapM (callWrapped call)
      return text ++ texts.flatMap ('|' :: ·)
  | .cat items => (items.mapM (callWrapped call)).map List.flatten
  | .atEnd => some ['$']

theorem flatMap_branch (branches : List Regex) :
    (branches.map fun branch => wrappedIf branch.hasBars branch.chars).flatMap ('|' :: ·) =
      branchChars branches := by
  induction branches with
  | nil => rfl
  | cons branch rest ih => simp [branchChars, ih]

theorem flatten_items (items : List Regex) :
    (items.map fun item => wrappedIf item.hasBars item.chars).flatten = itemChars items := by
  induction items with
  | nil => rfl
  | cons item rest ih => simp [itemChars, ih]

theorem chars_within {depth : Nat} {regex : Regex} (enough : regex.levels ≤ depth) :
    within none visitChars depth regex = some regex.chars := by
  apply within_eq (fun regex => some regex.chars) ?_ enough
  intro call regex each
  have wrapped : ∀ part ∈ regex.children,
      callWrapped call part = some (wrappedIf part.hasBars part.chars) := by
    intro part member
    rw [callWrapped, each part member, Option.map_some]
  cases regex with
  | any | lit | set | atEnd => rfl
  | group body => simp [visitChars, chars, each body (List.mem_singleton_self _)]
  | rep _ _ body => simp [visitChars, chars, each body (List.mem_singleton_self _)]
  | alt branches =>
    cases branches with
    | nil => rfl
    | cons first rest =>
      obtain ⟨here, others⟩ := List.forall_mem_cons.1 wrapped
      simp [visitChars, chars, here, mapM_eq_some others, ← flatMap_branch]
  | cat items =>
    have texts : items.mapM (callWrapped call) =
        some (items.map fun item => wrappedIf item.hasBars item.chars) := mapM_eq_some wrapped
    rw [visitChars, texts, Option.map_some, flatten_items, chars]

end Regex

/-! ### Laying out -/

namespace Builder

/-- What a run without a limit does. -/
def unlimited {α : Type} (result : Except Fault α) : Except (Option Fault) α := result.mapError some

@[simp] theorem unlimited_ok {α : Type} (value : α) : unlimited (.ok value) = .ok value := rfl

@[simp] theorem unlimited_map {α β : Type} (result : Except Fault α) (change : α → β) :
    unlimited (change <$> result) = change <$> unlimited result := by
  cases result <;> rfl

@[simp] theorem unlimited_bind {α β : Type} (result : Except Fault α)
    (next : α → Except Fault β) :
    unlimited (result >>= next) = unlimited result >>= fun value => unlimited (next value) := by
  cases result <;> rfl

/-- Lays out an expression between two states, inside a group. If too many calls are open it stops
without a fault. -/
abbrev Layout := Builder → StateId → StateId → Nat → Except (Option Fault) Builder

/-- Lays out alternatives, where `call` lays out one of them. -/
def visitBranches (call : Regex → Layout) (builder : Builder) (head tail : StateId) (parent : Nat)
    (priority : Priority) : List Regex → Except (Option Fault) Builder
  | [] => .ok builder
  | branch :: rest => do
      let (first, last, builder) ← unlimited builder.twoStates
      let builder ← call branch builder first last parent
      visitBranches call ((builder.epsilon head first priority).epsilon last tail .normal)
        head tail parent .low rest

/-- Lays out expressions one behind the other, where `call` lays out one of them. -/
def visitItems (call : Regex → Layout) (builder : Builder) (head tail : StateId) (parent : Nat) :
    List Regex → Except (Option Fault) Builder
  | [] => .ok (builder.epsilon head tail .normal)
  | [last] => call last builder head tail parent
  | item :: next :: rest => do
      let (middle, builder) ← unlimited builder.state
      let builder ← call item builder head middle parent
      visitItems call builder middle tail parent (next :: rest)

/-- Lays out an expression, where `call` lays out a part. -/
def visitRegex (call : Regex → Layout) : Regex → Layout
  | .any, builder, head, tail, _ => .ok (builder.readRange head tail .all)
  | .lit c, builder, head, tail, _ => .ok (builder.readRange head tail (.single c))
  | .set ranges, builder, head, tail, _ =>
      .ok (ranges.foldl (fun builder range => builder.readRange head tail range) builder)
  | .atEnd, builder, head, tail, _ => .ok (builder.connect head .atEnd tail .normal none)
  | .group body, builder, head, tail, parent => do
      let number := builder.groups.length
      let group ← unlimited (Group.inside number parent)
      let builder ← unlimited (builder.declareGroup group)
      let (first, last, builder) ← unlimited builder.twoStates
      let builder := builder.connect head .epsilon first .normal (some ⟨number, .opening⟩)
      let builder ← call body builder first last number
      return builder.connect last .epsilon tail .normal (some ⟨number, .closing⟩)
  | .rep quantifier greed body, builder, head, tail, parent => do
      let (first, last, builder) ← unlimited builder.twoStates
      let builder ← call body builder first last parent
      return builder.repetition quantifier greed head first last tail
  | .alt branches, builder, head, tail, parent =>
      visitBranches call builder head tail parent .normal branches
  | .cat items, builder, head, tail, parent => visitItems call builder head tail parent items

/-- Lays out an expression without a limit. -/
def layout (regex : Regex) : Layout := fun builder head tail parent =>
  unlimited (builder.addRegex head tail parent regex)

/-- Lays out an expression, with at most `depth` calls open at once. -/
def addRegexWithin : Nat → Regex → Layout :=
  Regex.within (fun _ _ _ _ => .error none) visitRegex

variable {call : Regex → Layout}

theorem visitBranches_eq {branches : List Regex}
    (each : ∀ branch ∈ branches, call branch = layout branch)
    (builder : Builder) (head tail : StateId) (parent : Nat) (priority : Priority) :
    visitBranches call builder head tail parent priority branches =
      unlimited (builder.addBranches head tail parent priority branches) := by
  induction branches generalizing builder priority with
  | nil => rfl
  | cons branch rest ih =>
    rw [List.forall_mem_cons] at each
    simp [visitBranches, addBranches, each.1, layout, ih each.2]

theorem visitItems_eq {items : List Regex} (each : ∀ item ∈ items, call item = layout item)
    (builder : Builder) (head tail : StateId) (parent : Nat) :
    visitItems call builder head tail parent items =
      unlimited (builder.addItems head tail parent items) := by
  induction items generalizing builder head with
  | nil => rfl
  | cons item rest ih =>
    rw [List.forall_mem_cons] at each
    cases rest with
    | nil => rw [visitItems, addItems, each.1, layout]
    | cons next rest => simp [visitItems, addItems, each.1, layout, ih each.2]

theorem addRegexWithin_eq {depth : Nat} {regex : Regex} (enough : regex.levels ≤ depth) :
    addRegexWithin depth regex = layout regex := by
  apply Regex.within_eq layout ?_ enough
  intro call regex each
  funext builder head tail parent
  cases regex with
  | any | lit | set | atEnd => rfl
  | group body => simp [visitRegex, layout, addRegex, tagged, each body (List.mem_singleton_self _)]
  | rep _ _ body => simp [visitRegex, layout, addRegex, each body (List.mem_singleton_self _)]
  | alt branches => exact visitBranches_eq each builder head tail parent .normal
  | cat items => exact visitItems_eq each builder head tail parent

end Builder

namespace Regex

/-- A pattern of any length stands for an expression with few levels and few groups one inside the
other, so whatever calls itself on the parts of the expression has few calls open at once. Behind a
text that can be read so far there is room for as many groups as fit in there one by one: those
that have been closed take none. -/
theorem parse_few_levels (pattern : String) (regex : Regex) (parsed : parse pattern = .ok regex) :
    regex.levels ≤ 4 * (maxDepth + 1) ∧ regex.groupNesting ≤ maxDepth ∧
    within none visitCount (4 * (maxDepth + 1)) regex = some regex.groupCount ∧
    within none visitChars (4 * (maxDepth + 1)) regex = some regex.chars ∧
    Builder.addRegexWithin (4 * (maxDepth + 1)) regex = Builder.layout regex ∧
    ∀ before reading, Reading.Reads before reading → reading.mode.Closed →
      ∀ siblings : List (Bool × String),
        (∀ sibling ∈ siblings, (∃ body, parse sibling.2 = .ok body) ∧
          reading.enclosing.length + nestingDepth sibling.2.toList < maxDepth) →
        ∃ after, Reading.Reads (before ++ siblings.flatMap fun sibling =>
            parenthesised sibling.1 sibling.2.toList) after ∧
          after.mode.Closed ∧ after.enclosing = reading.enclosing := by
  have derived := Grammar.Pattern.of_parse parsed
  have few := derived.levels_le
  refine ⟨few, derived.groupNesting_le, groupCount_within few, chars_within few,
    Builder.addRegexWithin_eq few, ?_⟩
  intro before reading reads closed siblings fits
  obtain ⟨after, onwards, closed', same⟩ :=
    Reading.readAll_siblings siblings closed fits (Reading.utf8Length before)
  exact ⟨after, Reading.reads_append.2 ⟨reading, reads, onwards⟩, closed', same⟩

theorem parse_few_levels_mixed : ∃ regex, parse "(?:a|(b)*)c|d" = .ok regex ∧
    regex.levels ≤ 4 * (maxDepth + 1) ∧
    within none visitChars (4 * (maxDepth + 1)) regex = some "(?:a|(b)*)c|d".toList ∧
    ∃ after, Reading.Reads "(x(((a)))(?:b|((c)))()".toList after ∧ after.enclosing.length = 1 := by
  obtain ⟨regex, parsed, written⟩ : ∃ regex, parse "(?:a|(b)*)c|d" = .ok regex ∧
      regex.chars = "(?:a|(b)*)c|d".toList := ⟨_, rfl, rfl⟩
  obtain ⟨reading, reads, closed, depth⟩ : ∃ reading, Reading.Reads "(x".toList reading ∧
      reading.mode.Closed ∧ reading.enclosing.length = 1 := ⟨_, rfl, trivial, rfl⟩
  obtain ⟨few, -, -, text, -, siblings⟩ := parse_few_levels _ regex parsed
  obtain ⟨after, onwards, -, same⟩ :=
    siblings "(x".toList reading reads closed [(true, "((a))"), (false, "b|((c))"), (true, "")] (by
      intro sibling member
      simp only [List.mem_cons, List.not_mem_nil, or_false] at member
      rw [depth]
      rcases member with rfl | rfl | rfl
      · exact ⟨⟨_, rfl⟩, by decide⟩
      · exact ⟨⟨_, rfl⟩, by decide⟩
      · exact ⟨⟨_, rfl⟩, by decide⟩)
  exact ⟨regex, parsed, few, written ▸ text, after, onwards, same ▸ depth⟩

end Regex

end TaggedRegex
