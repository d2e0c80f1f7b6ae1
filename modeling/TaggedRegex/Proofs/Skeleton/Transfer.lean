import TaggedRegex.Proofs.Skeleton.Condensation
import TaggedRegex.Proofs.Trail.LeastRun

set_option autoImplicit false

/-!
Automata that are seen as the same skeleton. A run through one of them is condensed to the same
trail as some run through the other one, so their least runs have the same marks as far as these are
seen.
-/

namespace TaggedRegex

/-- The edges of an automaton that carry selected labels. -/
def Opens (connections : List Connection) (selects : Label → Prop)
    (free : StateId → List Edge) : Prop :=
  ∀ state edge, edge ∈ free state ↔
    ∃ label, selects label ∧ (⟨state, label, edge⟩ : Connection) ∈ connections

namespace Automaton

variable {automaton : Automaton} {connections : List Connection}

theorem Draws.opens_onEpsilon (draws : automaton.Draws connections) :
    Opens connections (· = .epsilon) automaton.onEpsilon := by
  intro state edge
  rw [onEpsilon, draws.mem_edgesAt]
  constructor
  · exact fun member => ⟨.epsilon, rfl, member⟩
  · rintro ⟨label, rfl, member⟩
    exact member

theorem Draws.opens_onEnd (draws : automaton.Draws connections) :
    Opens connections (fun label => label = .epsilon ∨ label = .atEnd)
      fun state => automaton.onEpsilon state ++ automaton.onEnd state := by
  intro state edge
  rw [List.mem_append, onEpsilon, onEnd, draws.mem_edgesAt, draws.mem_edgesAt]
  constructor
  · rintro (member | member)
    · exact ⟨.epsilon, Or.inl rfl, member⟩
    · exact ⟨.atEnd, Or.inr rfl, member⟩
  · rintro ⟨label, rfl | rfl, member⟩
    · exact Or.inl member
    · exact Or.inr member

theorem exists_exit {connection : Connection} (member : connection ∈ connections) :
    ∃ place : Nat, (exitsOf connections connection.source)[place]? = some connection := by
  obtain ⟨place, inside, here⟩ := List.mem_iff_getElem.1 (mem_exitsOf.2 ⟨member, rfl⟩)
  exact ⟨place, List.getElem?_eq_some_iff.2 ⟨inside, here⟩⟩

end Automaton

namespace Connection.Models

variable {connections : List Connection} {view : View} {skeleton : Skeleton}
  {knot home : StateId} {place : Nat} {connection : Connection} {arm : Arm}

/-- The connection that is seen as the arm leads on from the home, and carries the same label. -/
theorem mem (models : connection.Models connections view skeleton knot home place arm) :
    (⟨home, arm.label, connection.edge⟩ : Connection) ∈ connections := by
  obtain ⟨member, rfl⟩ := mem_exitsOf.1 (List.mem_of_getElem? models.exit)
  rw [← models.shows.label]
  exact member

end Connection.Models

namespace Automaton.Embodies

section

variable {automaton : Automaton} {connections : List Connection} {view : View}
  {skeleton : Skeleton} {knot state : StateId} {selects : Label → Prop}
  {free : StateId → List Edge}

/-- Passing over states leads to the home of the knot that is seen. -/
theorem coast (embodies : automaton.Embodies connections view skeleton)
    (opens : Opens connections selects free) (epsilon : selects .epsilon) (consumed : Nat)
    (mirrors : view.Mirrors knot state) :
    ∃ trail home, Glides free consumed state trail home ∧
      Condenses connections view skeleton knot state trail [] knot home := by
  induction mirrors with
  | home seat => exact ⟨[], _, .stay _, .rest seat⟩
  | @pass state arm passes _ ih =>
    obtain ⟨connection, exits, rfl⟩ := passes.exit embodies.plan
    obtain ⟨trail, home, glides, condenses⟩ := ih
    have listed : connection ∈ exitsOf connections state := by
      rw [exits]
      exact List.mem_singleton_self connection
    obtain ⟨member, rfl⟩ := mem_exitsOf.1 listed
    have label : connection.label = .epsilon := passes.label
    have selected : selects connection.label := by
      rw [label]
      exact epsilon
    have free := (opens _ _).2 ⟨connection.label, selected, member⟩
    exact ⟨_, home, .cross free glides, .pass exits passes condenses⟩

end

section

variable {first second : Automaton} {connections connections' : List Connection}
  {view view' : View} {skeleton : Skeleton}

/-- A path to a state that is not passed over has a counterpart in the other automaton. -/
theorem exists_glide (embodies : first.Embodies connections view skeleton)
    (embodies' : second.Embodies connections' view' skeleton) {selects : Label → Prop}
    {free free' : StateId → List Edge} (opens : Opens connections selects free)
    (opens' : Opens connections' selects free') (epsilon : selects .epsilon) {consumed : Nat}
    {state target : StateId} {trail : Trail} (glides : Glides free consumed state trail target)
    (still : ∀ arm, ¬ view.Passes target arm) {knot state' : StateId}
    (mirrors : view.Mirrors knot state) (mirrors' : view'.Mirrors knot state') :
    ∃ trail' target' route last, Glides free' consumed state' trail' target' ∧
      Condenses connections view skeleton knot state trail route last target ∧
      Condenses connections' view' skeleton knot state' trail' route last target' := by
  induction glides generalizing knot state' with
  | stay state =>
    cases mirrors with
    | home seat =>
      obtain ⟨trail', home', glides', condenses'⟩ :=
        embodies'.coast opens' epsilon consumed mirrors'
      exact ⟨trail', home', [], knot, glides', .rest seat, condenses'⟩
    | pass passes _ => exact absurd passes (still _)
  | @cross state target edge trail member _ ih =>
    obtain ⟨label, selected, listed⟩ := (opens state edge).1 member
    cases mirrors with
    | pass passes next =>
      obtain ⟨connection, exits, rfl⟩ := passes.exit embodies.plan
      have exit := mem_exitsOf.2 ⟨listed, rfl⟩
      rw [exits] at exit
      obtain rfl := List.mem_singleton.1 exit
      obtain ⟨trail', target', route, last, glides', condenses, condenses'⟩ :=
        ih still next mirrors'
      exact ⟨trail', target', route, last, glides', .pass exits passes condenses, condenses'⟩
    | home seat =>
      -- the other automaton first passes over states up to the home, and then crosses the arm in
      -- the same place
      obtain ⟨place, exit⟩ := exists_exit listed
      obtain ⟨arm, models⟩ := embodies.models_of_exit seat exit
      obtain ⟨lead, home', leads, condensesLead⟩ :=
        embodies'.coast opens' epsilon consumed mirrors'
      obtain ⟨connection', models'⟩ := embodies'.models_of_arm condensesLead.ends models.listed
      obtain ⟨trail', target', route, last, glides', condenses, condenses'⟩ :=
        ih still models.shows.target models'.shows.target
      have selected' : selects arm.label := by
        rw [← models.shows.label]
        exact selected
      have member' := (opens' home' connection'.edge).2 ⟨arm.label, selected', models'.mem⟩
      exact ⟨_, target', _, last, leads.append (.cross member' glides'), .turn models condenses,
        condensesLead.append (.turn models' condenses')⟩

/-- A state that reads a character or waits for the end of the input is not passed over. -/
theorem still_of_mem (embodies : first.Embodies connections view skeleton)
    {connection : Connection} (member : connection ∈ connections)
    (label : connection.label ≠ .epsilon) (arm : Arm) : ¬ view.Passes connection.source arm := by
  intro passes
  obtain ⟨only, exits, rfl⟩ := passes.exit embodies.plan
  have exit := mem_exitsOf.2 ⟨member, rfl⟩
  rw [exits] at exit
  obtain rfl := List.mem_singleton.1 exit
  exact label passes.label

/-- A run up to a state that is not passed over has a counterpart in the other automaton. -/
theorem exists_arrives (embodies : first.Embodies connections view skeleton)
    (embodies' : second.Embodies connections' view' skeleton) {input : List Char} {trail : Trail}
    {state : StateId} (arrives : first.Arrives input trail state)
    (still : ∀ arm, ¬ view.Passes state arm) :
    ∃ trail' state' route last, second.Arrives input trail' state' ∧
      Condenses connections view skeleton skeleton.start first.initial trail route last state ∧
      Condenses connections' view' skeleton skeleton.start second.initial trail' route last
        state' := by
  have opens := embodies.draws.opens_onEpsilon
  have opens' := embodies'.draws.opens_onEpsilon
  induction arrives with
  | start glides simple =>
    obtain ⟨trail', target', route, last, glides', condenses, condenses'⟩ :=
      embodies.exists_glide embodies' opens opens' rfl glides still embodies.start embodies'.start
    have simple' := condenses'.simple_trail embodies' (condenses.simple_route simple)
    exact ⟨trail', target', route, last, .start glides' simple', condenses, condenses'⟩
  | @read input trail glide source target c edge early member glides simple ih =>
    obtain ⟨range, listed, inside⟩ := embodies.draws.mem_onChar.1 member
    obtain ⟨trail', source', route, knot, early', condenses, condenses'⟩ :=
      ih (embodies.still_of_mem listed (by simp))
    obtain ⟨place, exit⟩ := exists_exit listed
    obtain ⟨arm, models⟩ := embodies.models_of_exit condenses.ends exit
    obtain ⟨connection', models'⟩ := embodies'.models_of_arm condenses'.ends models.listed
    obtain ⟨glide', target', later, last, glides', condensesLater, condensesLater'⟩ :=
      embodies.exists_glide embodies' opens opens' rfl glides still models.shows.target
        models'.shows.target
    have simple' := condensesLater'.simple_trail embodies' (condensesLater.simple_route simple)
    have label : arm.label = .chars range := models.shows.label.symm
    have listed' := models'.mem
    rw [label] at listed'
    have member' := embodies'.draws.mem_onChar.2 ⟨range, listed', inside⟩
    exact ⟨_, target', _, last, .read early' member' glides' simple',
      condenses.append (.turn models condensesLater),
      condenses'.append (.turn models' condensesLater')⟩

/-- The rest of a run has a counterpart in the other automaton. -/
theorem exists_ends (embodies : first.Embodies connections view skeleton)
    (embodies' : second.Embodies connections' view' skeleton) {consumed : Nat} {trail : Trail}
    {state : StateId} (ends : first.Ends consumed state trail) {knot state' : StateId}
    (seat : view.Seats knot state) (seat' : view'.Seats knot state') :
    ∃ trail' route, second.Ends consumed state' trail' ∧
      Condenses connections view skeleton knot state trail route skeleton.finish first.accept ∧
      Condenses connections' view' skeleton knot state' trail' route skeleton.finish
        second.accept := by
  cases ends with
  | accepting =>
    obtain rfl := embodies.knot_unique seat embodies.finish
    obtain rfl := seat'.home_unique embodies'.finish
    exact ⟨[], [], .accepting, .rest seat, .rest seat'⟩
  | @atEnd _ edge glide goesOn member glides simple =>
    have listed := embodies.draws.mem_edgesAt.1 member
    obtain ⟨place, exit⟩ := exists_exit listed
    obtain ⟨arm, models⟩ := embodies.models_of_exit seat exit
    obtain ⟨connection', models'⟩ := embodies'.models_of_arm seat' models.listed
    obtain ⟨glide', target', later, last, glides', condenses, condenses'⟩ :=
      embodies.exists_glide embodies' embodies.draws.opens_onEnd embodies'.draws.opens_onEnd
        (Or.inl rfl) glides (embodies.still embodies.finish) models.shows.target
        models'.shows.target
    obtain rfl := embodies.knot_unique condenses.ends embodies.finish
    obtain rfl := condenses'.ends.home_unique embodies'.finish
    have simple' := condenses'.simple_trail embodies' (condenses.simple_route simple)
    have goesOn' : state' ≠ second.accept := by
      rintro rfl
      obtain rfl := embodies'.knot_unique seat' embodies'.finish
      exact goesOn (seat.home_unique embodies.finish)
    have label : arm.label = .atEnd := models.shows.label.symm
    have listed' := models'.mem
    rw [label] at listed'
    have member' : connection'.edge ∈ second.onEnd state' := embodies'.draws.mem_edgesAt.2 listed'
    exact ⟨_, _, .atEnd goesOn' member' glides' simple', .turn models condenses,
      .turn models' condenses'⟩

/-- Every run has a counterpart in the other automaton. -/
theorem exists_run (embodies : first.Embodies connections view skeleton)
    (embodies' : second.Embodies connections' view' skeleton) {input : List Char} {run : Trail}
    (isRun : first.IsRun input run) :
    ∃ run' route, second.IsRun input run' ∧
      Condenses connections view skeleton skeleton.start first.initial run route skeleton.finish
        first.accept ∧
      Condenses connections' view' skeleton skeleton.start second.initial run' route
        skeleton.finish second.accept := by
  obtain ⟨before, trail, state, rfl, arrives, ends⟩ := isRun
  have still : ∀ arm, ¬ view.Passes state arm := by
    cases ends with
    | accepting => exact embodies.still embodies.finish
    | atEnd _ member _ _ =>
      exact embodies.still_of_mem (embodies.draws.mem_edgesAt.1 member) (by simp)
  obtain ⟨before', state', route, knot, arrives', condenses, condenses'⟩ :=
    embodies.exists_arrives embodies' arrives still
  obtain ⟨trail', later, ends', condensesLater, condensesLater'⟩ :=
    embodies.exists_ends embodies' ends condenses.ends condenses'.ends
  exact ⟨_, _, ⟨before', trail', state', rfl, arrives', ends'⟩, condenses.append condensesLater,
    condenses'.append condensesLater'⟩

/-- The least runs of automata that are seen as the same skeleton are condensed to the same
trail. -/
theorem winner?_marks (embodies : first.Embodies connections view skeleton)
    (embodies' : second.Embodies connections' view' skeleton) (orderly : first.Orderly)
    (orderly' : second.Orderly) (input : List Char) :
    (first.winner? input).map (fun winner => winner.trail.marks.keep view.kept) =
      (second.winner? input).map fun winner => winner.trail.marks.keep view'.kept := by
  have least := winner?_least orderly input
  have least' := winner?_least orderly' input
  cases won : first.winner? input with
  | none =>
    rw [won] at least
    cases won' : second.winner? input with
    | none => rfl
    | some winner' =>
      rw [won'] at least'
      obtain ⟨run, -, isRun, -, -⟩ := embodies'.exists_run embodies least'.1
      exact absurd isRun (least run)
  | some winner =>
    rw [won] at least
    obtain ⟨lifted', route, isLifted', condenses, condensesLifted'⟩ :=
      embodies.exists_run embodies' least.1
    cases won' : second.winner? input with
    | none =>
      rw [won'] at least'
      exact absurd isLifted' (least' lifted')
    | some winner' =>
      rw [won'] at least'
      obtain ⟨lifted, route', isLifted, condenses', condensesLifted⟩ :=
        embodies'.exists_run embodies least'.1
      -- each winner has a counterpart on the other side, which does not precede the winner there
      have forth := condenses.notAfter embodies condensesLifted (least.2 lifted isLifted)
      have back := condenses'.notAfter embodies' condensesLifted' (least'.2 lifted' isLifted')
      have same : route = route' := by
        obtain same | before := forth
        · exact same
        · obtain same | after := back
          · exact same.symm
          · exact absurd after before.asymm
      rw [Option.map_some, Option.map_some, ← condenses.marks, ← condenses'.marks, same]

end

end Automaton.Embodies

end TaggedRegex
