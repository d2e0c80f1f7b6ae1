import TaggedRegex.Proofs.Automaton.Profile
import TaggedRegex.Proofs.Language.Enclosure

set_option autoImplicit false

/-!
Walks through the automaton of an expression. A walk may take any edge, whatever the edge asks of
the input, and it may go round in cycles. From the initial to the accepting state it crosses tags as
the expression does, so that groups are entered and left over their tags only.
-/

namespace TaggedRegex

/-- Edges, one behind the other. -/
abbrev Walk := List Connection

namespace Walk

/-- The tags that are crossed. -/
def tags (walk : Walk) : Waymarks := walk.filterMap fun connection => connection.edge.tag

@[simp] theorem tags_append (first second : Walk) :
    tags (first ++ second) = first.tags ++ second.tags := List.filterMap_append ..

theorem tags_cons_untagged {connection : Connection} (tag : connection.edge.tag = none)
    (rest : Walk) : tags (connection :: rest) = rest.tags := List.filterMap_cons_none tag

theorem tags_cons_tagged {connection : Connection} {tag : Tag}
    (carries : connection.edge.tag = some tag) (rest : Walk) :
    tags (connection :: rest) = [tag] ++ rest.tags := List.filterMap_cons_some carries

end Walk

/-- The walk leads from a state to the accepting one. -/
inductive Automaton.Leads (automaton : Automaton) : StateId → Walk → Prop
  | done : Leads automaton automaton.accept []
  | step {connection : Connection} {later : Walk} :
      connection ∈ Row.connections automaton.rows →
      Leads automaton connection.edge.target later →
      Leads automaton connection.source (connection :: later)

theorem Automaton.leads_nil_iff {automaton : Automaton} {state : StateId} :
    automaton.Leads state [] ↔ state = automaton.accept := by
  constructor
  · intro leads
    cases leads
    rfl
  · rintro rfl
    exact .done

theorem Automaton.leads_cons_iff {automaton : Automaton} {state : StateId}
    {connection : Connection} {later : Walk} :
    automaton.Leads state (connection :: later) ↔
      connection ∈ automaton.exits state ∧ automaton.Leads connection.edge.target later := by
  rw [exits, mem_exitsOf]
  constructor
  · rintro (_ | ⟨listed, onward⟩)
    exact ⟨⟨listed, rfl⟩, onward⟩
  · rintro ⟨⟨listed, rfl⟩, onward⟩
    exact .step listed onward

instance Automaton.decidableLeads (automaton : Automaton) :
    (state : StateId) → (walk : Walk) → Decidable (automaton.Leads state walk)
  | state, [] => decidable_of_iff (state = automaton.accept) leads_nil_iff.symm
  | state, connection :: later =>
    have := automaton.decidableLeads connection.edge.target later
    decidable_of_iff (connection ∈ automaton.exits state ∧ _) leads_cons_iff.symm

/-- The walk has two parts: one that crosses such tags and leads to `tail`, and one that goes on
from there to the accepting state. -/
def Automaton.Threads (automaton : Automaton) (crosses : Waymarks → Prop) (tail : StateId)
    (walk : Walk) : Prop :=
  ∃ passage later, walk = passage ++ later ∧ crosses passage.tags ∧ passage ≠ [] ∧
    automaton.Leads tail later

variable {automaton : Automaton} {connections : List Connection}

namespace Automaton.Threads

variable {crosses : Waymarks → Prop} {tail : StateId} {walk : Walk} {connection : Connection}

theorem mono {wider : Waymarks → Prop} (threads : automaton.Threads crosses tail walk)
    (subset : ∀ tags, crosses tags → wider tags) : automaton.Threads wider tail walk := by
  obtain ⟨passage, later, same, crossed, others⟩ := threads
  exact ⟨passage, later, same, subset _ crossed, others⟩

/-- One edge without a tag. -/
theorem single (tag : connection.edge.tag = none) (nothing : crosses [])
    (leads : automaton.Leads tail walk) : automaton.Threads crosses tail (connection :: walk) := by
  refine ⟨[connection], walk, rfl, ?_, List.cons_ne_nil _ _, leads⟩
  rw [Walk.tags_cons_untagged tag]
  exact nothing

/-- An edge without a tag in front. -/
theorem cons (tag : connection.edge.tag = none) (threads : automaton.Threads crosses tail walk) :
    automaton.Threads crosses tail (connection :: walk) := by
  obtain ⟨passage, later, rfl, crossed, -, leads⟩ := threads
  refine ⟨connection :: passage, later, rfl, ?_, List.cons_ne_nil _ _, leads⟩
  rw [Walk.tags_cons_untagged tag]
  exact crossed

/-- One part of a walk behind the other. -/
theorem append {middle : StateId} {more whole : Waymarks → Prop}
    (threads : automaton.Threads crosses middle walk)
    (joined : ∀ first second, crosses first → more second → whole (first ++ second))
    (goesOn : ∀ later, later.length < walk.length → automaton.Leads middle later →
      automaton.Threads more tail later) :
    automaton.Threads whole tail walk := by
  obtain ⟨passage, later, rfl, crossed, nonempty, leads⟩ := threads
  have positive := List.length_pos_iff.2 nonempty
  have shorter : later.length < (passage ++ later).length := by
    rw [List.length_append]
    omega
  obtain ⟨onward, rest, rfl, crossedToo, -, arrives⟩ := goesOn later shorter leads
  refine ⟨passage ++ onward, rest, (List.append_assoc ..).symm, ?_, ?_, arrives⟩
  · rw [Walk.tags_append]
    exact joined _ _ crossed crossedToo
  · exact List.append_ne_nil_of_left_ne_nil nonempty onward

end Automaton.Threads

namespace Plan.Leaves

variable {state tail : StateId} {arms : List Arm} {walk : Walk}

/-- A walk from a laid out state takes one of its arms. -/
theorem leads_step (leaves : (automaton.plan connections).Leaves state arms)
    (draws : automaton.Draws connections) (leads : automaton.Leads state walk) :
    ∃ arm ∈ arms, ∃ connection later, connection.edge.tag = arm.tag ∧ walk = connection :: later ∧
      automaton.Leads arm.target later := by
  cases walk with
  | nil => exact absurd (Automaton.leads_nil_iff.1 leads) leaves.goesOn
  | cons connection later =>
    obtain ⟨exit, onward⟩ := Automaton.leads_cons_iff.1 leads
    have member : connection.arm ∈ arms := by
      rw [← leaves.arms]
      exact (draws.perm_exits state).subset (List.mem_map_of_mem exit)
    exact ⟨connection.arm, member, connection, later, rfl, rfl, onward⟩

/-- With one arm a walk has no choice. -/
theorem leads_one {arm : Arm} (leaves : (automaton.plan connections).Leaves state [arm])
    (draws : automaton.Draws connections) (leads : automaton.Leads state walk) :
    ∃ connection later, connection.edge.tag = arm.tag ∧ walk = connection :: later ∧
      automaton.Leads arm.target later := by
  obtain ⟨other, member, taken⟩ := leaves.leads_step draws leads
  rwa [List.mem_singleton.1 member] at taken

/-- Of two epsilon edges a walk takes one. -/
theorem leads_choice {first second : StateId} {enter leave : Priority}
    (leaves : (automaton.plan connections).Leaves state
      [.epsilon first enter, .epsilon second leave])
    (draws : automaton.Draws connections) (leads : automaton.Leads state walk) :
    ∃ connection later, connection.edge.tag = none ∧ walk = connection :: later ∧
      (automaton.Leads first later ∨ automaton.Leads second later) := by
  obtain ⟨arm, member, connection, later, tag, same, onward⟩ := leaves.leads_step draws leads
  obtain rfl | rfl := List.mem_pair.1 member
  · exact ⟨connection, later, tag, same, Or.inl onward⟩
  · exact ⟨connection, later, tag, same, Or.inr onward⟩

/-- A walk over arms that read a character crosses no tag. -/
theorem threads_read {crosses : Waymarks → Prop} {ranges : List CharRange}
    (leaves : (automaton.plan connections).Leaves state (ranges.map fun range => .read range tail))
    (draws : automaton.Draws connections) (nothing : ∀ range ∈ ranges, crosses [])
    (leads : automaton.Leads state walk) : automaton.Threads crosses tail walk := by
  obtain ⟨arm, member, connection, later, tag, rfl, onward⟩ := leaves.leads_step draws leads
  obtain ⟨range, listed, rfl⟩ := List.mem_map.1 member
  exact .single tag (nothing range listed) onward

/-- One more edge, behind a passage, that crosses nothing. -/
theorem leave {crosses : Waymarks → Prop} {last : StateId} {priority : Priority}
    (leaves : (automaton.plan connections).Leaves last [.epsilon tail priority])
    (draws : automaton.Draws connections) (threads : automaton.Threads crosses last walk) :
    automaton.Threads crosses tail walk := by
  have joined : ∀ first second, crosses first → second = [] → crosses (first ++ second) := by
    rintro first _ crossed rfl
    rwa [List.append_nil]
  apply threads.append joined
  intro later _ leads
  obtain ⟨connection, onward, untagged, rfl, arrives⟩ := leaves.leads_one draws leads
  exact .single untagged rfl arrives

end Plan.Leaves

open Automaton (Threads)

/-- Walks through a repetition from a state that either enters its body again or leaves. -/
theorem Regex.threads_star (draws : automaton.Draws connections) {greed : Greed} {body : Regex}
    {number : Nat} {first last tail : StateId}
    (through : ∀ walk, automaton.Leads first walk →
      automaton.Threads (body.Crosses number) last walk)
    (leaves : (automaton.plan connections).Leaves last
      (Quantifier.star.lastArms greed first tail))
    {state : StateId} (atState : (automaton.plan connections).Leaves state
      (Quantifier.star.lastArms greed first tail))
    {walk : Walk} (leads : automaton.Leads state walk) :
    automaton.Threads ((Regex.rep .star greed body).Crosses number) tail walk := by
  -- A round is not empty, so behind it the walk is shorter, and it has come to such a state again.
  induction length : walk.length using Nat.strongRecOn generalizing state walk with
  | ind bound ih =>
    obtain ⟨connection, later, untagged, rfl, enters | leaving⟩ := atState.leads_choice draws leads
    · apply Threads.cons untagged
      apply (through _ enters).append fun _ _ => Regex.Crosses.starMore
      intro onward shorter goesOn
      rw [List.length_cons] at length
      exact ih onward.length (by omega) leaves goesOn rfl
    · exact .single untagged (.starDone greed body number) leaving

mutual

/-- A walk that enters an expression leaves it after tags that the expression crosses. -/
theorem Regex.threads (draws : automaton.Draws connections) (regex : Regex) {number : Nat}
    {head tail : StateId} (lays : (automaton.plan connections).Lays number head tail regex)
    {walk : Walk} (leads : automaton.Leads head walk) :
    automaton.Threads (regex.Crosses number) tail walk := by
  cases regex with
  | any =>
    rw [Plan.Lays] at lays
    have leaves : (automaton.plan connections).Leaves head
      ([CharRange.all].map fun range => .read range tail) := lays
    exact leaves.threads_read draws (fun _ _ => .any number) leads
  | lit c =>
    rw [Plan.Lays] at lays
    have leaves : (automaton.plan connections).Leaves head
      ([CharRange.single c].map fun range => .read range tail) := lays
    exact leaves.threads_read draws (fun _ _ => .lit number c) leads
  | set ranges =>
    rw [Plan.Lays] at lays
    exact lays.threads_read draws (fun _ listed => .set number listed) leads
  | atEnd =>
    rw [Plan.Lays] at lays
    obtain ⟨connection, later, untagged, rfl, onward⟩ := lays.leads_one draws leads
    exact .single untagged (.atEnd number) onward
  | group body =>
    rw [Plan.Lays] at lays
    obtain ⟨first, last, opens, inside, closes⟩ := lays
    obtain ⟨opening, within, openingTag, rfl, enters⟩ := opens.leads_one draws leads
    obtain ⟨passage, later, rfl, crosses, -, goesOn⟩ := Regex.threads draws body inside enters
    obtain ⟨closing, after, closingTag, rfl, leaving⟩ := closes.leads_one draws goesOn
    refine ⟨opening :: (passage ++ [closing]), after, by simp, ?_, List.cons_ne_nil _ _, leaving⟩
    rw [Walk.tags_cons_tagged openingTag, Walk.tags_append, Walk.tags_cons_tagged closingTag]
    exact .group crosses
  | rep quantifier greed body =>
    rw [Plan.Lays] at lays
    obtain ⟨first, last, begins, inside, goesOn⟩ := lays
    have through : ∀ walk, automaton.Leads first walk →
        automaton.Threads (body.Crosses number) last walk :=
      fun _ => Regex.threads draws body inside
    cases quantifier with
    | star => exact Regex.threads_star draws through goesOn begins leads
    | plus =>
      obtain ⟨connection, later, untagged, rfl, enters⟩ := begins.leads_one draws leads
      apply Threads.cons untagged
      apply (through _ enters).append fun _ _ => Regex.Crosses.plus
      intro onward _ more
      exact Regex.threads_star draws through goesOn goesOn more
    | opt =>
      obtain ⟨connection, later, untagged, rfl, enters | leaving⟩ := begins.leads_choice draws leads
      · apply Threads.cons untagged
        exact (goesOn.leave draws (through _ enters)).mono fun _ => Regex.Crosses.optSome
      · exact .single untagged (.optNone greed body number) leaving
  | alt branches =>
    rw [Plan.Lays] at lays
    obtain ⟨arms, leaves, lays⟩ := lays
    obtain ⟨arm, member, connection, later, tag, rfl, onward⟩ := leaves.leads_step draws leads
    obtain ⟨untagged, through⟩ := Regex.threadsBranches draws branches lays member onward
    exact through.cons (tag.trans untagged)
  | cat items =>
    rw [Plan.Lays] at lays
    exact Regex.threadsItems draws items lays leads

theorem Regex.threadsBranches (draws : automaton.Draws connections) (branches : List Regex)
    {number : Nat} {tail : StateId} {priority : Priority} {arms : List Arm}
    (lays : (automaton.plan connections).LaysBranches number tail priority arms branches)
    {arm : Arm} (member : arm ∈ arms) {walk : Walk} (leads : automaton.Leads arm.target walk) :
    arm.tag = none ∧ automaton.Threads ((Regex.alt branches).Crosses number) tail walk := by
  cases branches with
  | nil =>
    rw [Plan.LaysBranches] at lays
    rw [lays] at member
    cases member
  | cons branch others =>
    rw [Plan.LaysBranches] at lays
    obtain ⟨first, last, otherArms, rfl, inside, leaves, laysOthers⟩ := lays
    obtain rfl | otherMember := List.mem_cons.1 member
    · refine ⟨rfl, (leaves.leave draws ?_).mono fun _ => Regex.Crosses.altHere⟩
      exact Regex.threads draws branch inside leads
    · obtain ⟨untagged, through⟩ :=
        Regex.threadsBranches draws others laysOthers otherMember leads
      exact ⟨untagged, through.mono fun _ => Regex.Crosses.altLater⟩

theorem Regex.threadsItems (draws : automaton.Draws connections) (items : List Regex)
    {number : Nat} {head tail : StateId}
    (lays : (automaton.plan connections).LaysItems number head tail items) {walk : Walk}
    (leads : automaton.Leads head walk) :
    automaton.Threads ((Regex.cat items).Crosses number) tail walk := by
  cases items with
  | nil =>
    rw [Plan.LaysItems] at lays
    obtain ⟨connection, later, untagged, rfl, onward⟩ := lays.leads_one draws leads
    exact .single untagged (.catNil number) onward
  | cons item others =>
    cases others with
    | nil =>
      rw [Plan.LaysItems] at lays
      apply (Regex.threads draws item lays leads).mono
      intro tags crosses
      rw [← List.append_nil tags]
      exact .catCons crosses (.catNil _)
    | cons next more =>
      rw [Plan.LaysItems] at lays
      obtain ⟨middle, laysItem, laysMore⟩ := lays
      apply (Regex.threads draws item laysItem leads).append fun _ _ => Regex.Crosses.catCons
      intro later _ goesOn
      exact Regex.threadsItems draws (next :: more) laysMore goesOn

end

namespace Automaton

/-- Nothing but the empty walk begins at the accepting state. -/
theorem Regular.eq_nil_of_leads (regular : automaton.Regular) {walk : Walk}
    (leads : automaton.Leads automaton.accept walk) : walk = [] := by
  cases walk with
  | nil => rfl
  | cons connection later =>
    have exit := (leads_cons_iff.1 leads).1
    rw [regular.stops] at exit
    cases exit

/-- How the groups of an automaton are crossed on a walk: the entire match once, and every other
group not at all or in turn, first into it and last out of it, each time inside the group around. -/
structure Nests (automaton : Automaton) (tags : Waymarks) : Prop where
  entire : tags.ofGroup 0 = [⟨0, .opening⟩, ⟨0, .closing⟩]
  alternates : ∀ group ∈ automaton.groups, tags.Alternates group.number
  inside : ∀ group ∈ automaton.groups, group.number ≠ 0 → tags.Inside group.number group.parent

end Automaton

namespace Regex

/-- With room for its states an expression has an automaton. Each of its states has edges of one
kind only, and whatever walk leads from its initial to its accepting state, the groups on the walk
nest. -/
theorem automaton_regular (regex : Regex) (anchor : Anchor)
    (few : regex.stateCount anchor ≤ indexLimit) :
    ∃ automaton, regex.automaton anchor = .ok automaton ∧ automaton.Regular ∧
      ∀ walk, automaton.Leads automaton.initial walk → automaton.Nests walk.tags := by
  obtain exhausted | ⟨automaton, connections, built, sits⟩ := regex.automaton_sits anchor
  · exact absurd (limit_of_automaton exhausted) (Nat.not_lt.2 few)
  have regular := sits.regular built
  refine ⟨automaton, built, regular, fun walk leads => ?_⟩
  obtain ⟨passage, later, rfl, crosses, -, arrived⟩ :=
    (regex.anchored anchor).threads sits.lays.draws sits.lays.lays leads
  obtain rfl := regular.eq_nil_of_leads arrived
  rw [List.append_nil]
  obtain ⟨entire, fits⟩ := crosses.fits_anchored
  refine ⟨entire, fun group _ => fits.alternates group.number, fun group member other => ?_⟩
  rw [groups_automaton built] at member
  obtain ⟨entry, listed, rfl⟩ := List.mem_map.1 member
  exact (fits.inside entry listed).resolve_left other

/-- The expression of `($(a))*`. -/
def letterBehindEnd : Regex := rep .star .greedy (group (cat [atEnd, group (lit 'a')]))

/-- The tags of one round. -/
def oneRound : Waymarks := [⟨1, .opening⟩, ⟨2, .opening⟩, ⟨2, .closing⟩, ⟨1, .closing⟩]

/-- Two rounds, over the edges at these places in the rows. -/
def twoRounds (automaton : Automaton) : Walk :=
  [0, 1, 4, 7, 9, 10, 11, 8, 5, 4, 7, 9, 10, 11, 8, 6, 3].filterMap fun place =>
    (Row.connections automaton.rows)[place]?

/-- A walk that no input allows, as it reads a letter behind the end of the input. -/
theorem automaton_regular_around :
    ∃ automaton walk, letterBehindEnd.automaton .full = .ok automaton ∧ automaton.Regular ∧
      automaton.Leads automaton.initial walk ∧ walk.tags = (oneRound ++ oneRound).wrap 0 ∧
      automaton.Nests walk.tags := by
  obtain ⟨automaton, built, regular, nests⟩ := automaton_regular letterBehindEnd .full (by decide)
  have walked : (letterBehindEnd.automaton .full).toOption.all fun other =>
      other.Leads other.initial (twoRounds other) ∧
        (twoRounds other).tags = (oneRound ++ oneRound).wrap 0 := by decide
  rw [built] at walked
  obtain ⟨leads, tags⟩ := of_decide_eq_true walked
  exact ⟨automaton, _, built, regular, leads, tags, nests _ leads⟩

end Regex

end TaggedRegex
