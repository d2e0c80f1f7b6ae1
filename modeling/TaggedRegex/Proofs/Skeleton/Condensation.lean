import TaggedRegex.Proofs.Language.Marks
import TaggedRegex.Proofs.Skeleton.View
import TaggedRegex.Proofs.Trail.Glide
import TaggedRegex.Proofs.Trail.Order

set_option autoImplicit false

/-!
Trails condensed to the knots that they pass through. A condensed trail has the marks of the trail
that are seen, it comes before another one if the trail does, and it enters no knot twice exactly if
the trail enters no state twice.
-/

namespace TaggedRegex

/-- The knots of an expression, with the knots at which it begins and ends. -/
structure Skeleton where
  knots : List (List Arm)
  start : StateId
  finish : StateId

/-- One of the arms of a knot. -/
def Skeleton.arm? (skeleton : Skeleton) (knot : StateId) (place : Nat) : Option Arm :=
  skeleton.knots[knot.index]?.bind fun arms => arms[place]?

/-- An arm of a knot as an edge. Its place among the arms says when it is tried. -/
def Arm.edge (arm : Arm) (place : Nat) : Edge := ⟨arm.target, arm.priority, arm.tag, place⟩

/-- The marks that are seen. -/
def Marking.keep (kept : Tag → Option Tag) (marking : Marking) : Marking :=
  marking.filterMap fun mark => (kept mark.tag).map fun tag => ⟨tag, mark.consumed⟩

theorem Marking.keep_some (marking : Marking) : marking.keep some = marking :=
  List.filterMap_some

theorem Trail.keep_marks (kept : Tag → Option Tag) (trail : Trail) :
    trail.marks.keep kept = trail.filterMap fun crossing =>
      (crossing.edge.tag.bind kept).map fun tag => ⟨tag, crossing.consumed⟩ := by
  rw [Marking.keep, Trail.marks, List.filterMap_filterMap]
  congr 1
  funext crossing
  cases crossing.edge.tag <;> rfl

/-- What is seen of the automaton is the skeleton. -/
structure Automaton.Embodies (automaton : Automaton) (connections : List Connection) (view : View)
    (skeleton : Skeleton) : Prop where
  draws : automaton.Draws connections
  plan : view.plan = automaton.plan connections
  distinct : view.homes.Nodup
  stands : List.Forall₂ view.Stands view.homes skeleton.knots
  start : view.Mirrors skeleton.start automaton.initial
  finish : view.Seats skeleton.finish automaton.accept

/-- A connection out of the home of a knot is seen as an arm of the knot. -/
structure Connection.Models (connection : Connection) (connections : List Connection) (view : View)
    (skeleton : Skeleton) (knot home : StateId) (place : Nat) (arm : Arm) : Prop where
  seat : view.Seats knot home
  exit : (exitsOf connections home)[place]? = some connection
  listed : skeleton.arm? knot place = some arm
  shows : view.Shows connection.arm arm

/-- Of a trail from a state at which a knot is seen only the crossings out of homes are left. The
last two states are a knot and its home, where the trail ends. -/
inductive Condenses (connections : List Connection) (view : View) (skeleton : Skeleton) :
    StateId → StateId → Trail → Trail → StateId → StateId → Prop
  | rest {knot home : StateId} :
      view.Seats knot home → Condenses connections view skeleton knot home [] [] knot home
  | pass {knot state last home : StateId} {connection : Connection} {consumed : Nat}
      {trail route : Trail} :
      exitsOf connections state = [connection] → view.Passes state connection.arm →
      Condenses connections view skeleton knot connection.edge.target trail route last home →
      Condenses connections view skeleton knot state (⟨connection.edge, consumed⟩ :: trail) route
        last home
  | turn {knot state last home : StateId} {connection : Connection} {place consumed : Nat}
      {arm : Arm} {trail route : Trail} :
      connection.Models connections view skeleton knot state place arm →
      Condenses connections view skeleton arm.target connection.edge.target trail route last home →
      Condenses connections view skeleton knot state (⟨connection.edge, consumed⟩ :: trail)
        (⟨arm.edge place, consumed⟩ :: route) last home

theorem View.Seats.home_unique {view : View} {knot first second : StateId}
    (seat : view.Seats knot first) (other : view.Seats knot second) : first = second :=
  Option.some.inj (seat.symm.trans other)

/-- Out of a state that is passed over only one connection leads. -/
theorem View.Passes.exit {view : View} {automaton : Automaton} {connections : List Connection}
    (plan : view.plan = automaton.plan connections) {state : StateId} {arm : Arm}
    (passes : view.Passes state arm) :
    ∃ connection, exitsOf connections state = [connection] ∧ connection.arm = arm := by
  have only := passes.only
  rw [plan] at only
  obtain ⟨connection, exits, same⟩ := List.map_eq_singleton_iff.1 only
  exact ⟨connection, exits, same⟩

theorem getElem?_of_forall₂ {α β : Type} {related : α → β → Prop} {xs : List α} {ys : List β}
    (all : List.Forall₂ related xs ys) {index : Nat} {x : α} (found : xs[index]? = some x) :
    ∃ y, ys[index]? = some y ∧ related x y := by
  induction all generalizing index with
  | nil => cases found
  | cons here _ ih =>
    cases index with
    | zero =>
      cases found
      exact ⟨_, rfl, here⟩
    | succ index => exact ih found

namespace Automaton.Embodies

variable {automaton : Automaton} {connections : List Connection} {view : View}
  {skeleton : Skeleton} {knot home : StateId}

theorem knot_unique (embodies : automaton.Embodies connections view skeleton) {other : StateId}
    (seat : view.Seats knot home) (same : view.Seats other home) : knot = other := by
  obtain ⟨inside, -⟩ := List.getElem?_eq_some_iff.1 seat
  exact StateId.eq_of_index_eq
    ((List.getElem?_inj inside embodies.distinct).1 (seat.trans same.symm))

/-- The arms at the home of a knot are those of the knot. -/
theorem stands_of_seats (embodies : automaton.Embodies connections view skeleton)
    (seat : view.Seats knot home) :
    ∃ models, view.Stands home models ∧ ∀ place, skeleton.arm? knot place = models[place]? := by
  obtain ⟨models, listed, stands⟩ := getElem?_of_forall₂ embodies.stands seat
  exact ⟨models, stands, fun place => by rw [Skeleton.arm?, listed]; rfl⟩

theorem still (embodies : automaton.Embodies connections view skeleton)
    (seat : view.Seats knot home) (arm : Arm) : ¬ view.Passes home arm := by
  obtain ⟨models, stands, -⟩ := embodies.stands_of_seats seat
  exact stands.still arm

/-- Every connection out of a home is seen as an arm. -/
theorem models_of_exit (embodies : automaton.Embodies connections view skeleton)
    (seat : view.Seats knot home) {connection : Connection} {place : Nat}
    (exit : (exitsOf connections home)[place]? = some connection) :
    ∃ arm, connection.Models connections view skeleton knot home place arm := by
  obtain ⟨models, stands, listed⟩ := embodies.stands_of_seats seat
  have found : (view.plan.arms home)[place]? = some connection.arm := by
    rw [embodies.plan]
    show (armsOf connections home)[place]? = _
    rw [armsOf, List.getElem?_map, exit]
    rfl
  obtain ⟨arm, here, shows⟩ := getElem?_of_forall₂ stands.shows found
  exact ⟨arm, seat, exit, (listed place).trans here, shows⟩

/-- Every arm of a knot is there at its home. -/
theorem models_of_arm (embodies : automaton.Embodies connections view skeleton)
    (seat : view.Seats knot home) {arm : Arm} {place : Nat}
    (here : skeleton.arm? knot place = some arm) :
    ∃ connection : Connection,
      connection.Models connections view skeleton knot home place arm := by
  obtain ⟨models, stands, listed⟩ := embodies.stands_of_seats seat
  have found : models[place]? = some arm := (listed place).symm.trans here
  obtain ⟨seen, there, shows⟩ := getElem?_of_forall₂ stands.shows.flip found
  rw [embodies.plan] at there
  obtain ⟨connection, exit, rfl⟩ := Option.map_eq_some_iff.1 (List.getElem?_map.symm.trans there)
  exact ⟨connection, seat, exit, here, shows⟩

end Automaton.Embodies

namespace Condenses

variable {automaton : Automaton} {connections : List Connection} {view : View}
  {skeleton : Skeleton} {knot state last home : StateId} {trail route : Trail}

/-- A condensed trail ends at the home of a knot. -/
theorem ends (condenses : Condenses connections view skeleton knot state trail route last home) :
    view.Seats last home := by
  induction condenses with
  | rest seat => exact seat
  | pass _ _ _ ih => exact ih
  | turn _ _ ih => exact ih

theorem append (early : Condenses connections view skeleton knot state trail route last home)
    {trail' route' : Trail} {last' home' : StateId}
    (late : Condenses connections view skeleton last home trail' route' last' home') :
    Condenses connections view skeleton knot state (trail ++ trail') (route ++ route') last'
      home' := by
  induction early with
  | rest _ => exact late
  | pass exits passes _ ih => exact .pass exits passes (ih late)
  | turn models _ ih => exact .turn models (ih late)

/-- The marks of a condensed trail are those that are seen. -/
theorem marks (condenses : Condenses connections view skeleton knot state trail route last home) :
    route.marks = trail.marks.keep view.kept := by
  rw [Trail.keep_marks, Trail.marks]
  induction condenses with
  | rest _ => rfl
  | @pass _ _ _ _ connection _ _ _ _ passes _ ih =>
    have unseen : connection.edge.tag.bind view.kept = none := passes.unseen
    rw [List.filterMap_cons_none (by rw [unseen]; rfl), ih]
  | @turn _ _ _ _ connection _ _ arm _ _ models _ ih =>
    have seen : connection.edge.tag.bind view.kept = arm.tag := models.shows.tag
    rw [List.filterMap_cons, List.filterMap_cons, ih, seen]
    rfl

/-! ### What is entered -/

/-- A trail enters the homes of the knots that its condensed trail enters. -/
theorem home_mem {other : StateId} {state' : StateId} {knot' : StateId}
    (condenses : Condenses connections view skeleton knot' state' trail route last home)
    (member : knot ∈ knot' :: route.entered) (seat : view.Seats knot other) :
    other ∈ state' :: trail.entered := by
  induction condenses with
  | rest here =>
    obtain rfl := List.mem_singleton.1 member
    exact List.mem_singleton.2 (seat.home_unique here)
  | pass _ _ _ ih => exact List.mem_cons_of_mem _ (ih member)
  | turn models _ ih =>
    obtain rfl | member := List.mem_cons.1 member
    · rw [seat.home_unique models.seat]
      exact List.mem_cons_self ..
    · exact List.mem_cons_of_mem _ (ih member)

/-- It enters no home of another knot. -/
theorem knot_mem (embodies : automaton.Embodies connections view skeleton) {other : StateId}
    {state' : StateId} {knot' : StateId}
    (condenses : Condenses connections view skeleton knot' state' trail route last home)
    (member : other ∈ state' :: trail.entered) (seat : view.Seats knot other) :
    knot ∈ knot' :: route.entered := by
  induction condenses with
  | rest here =>
    obtain rfl := List.mem_singleton.1 member
    exact List.mem_singleton.2 (embodies.knot_unique seat here)
  | pass _ passes _ ih =>
    obtain rfl | member := List.mem_cons.1 member
    · exact absurd passes (embodies.still seat _)
    · exact ih member
  | turn models _ ih =>
    obtain rfl | member := List.mem_cons.1 member
    · rw [embodies.knot_unique seat models.seat]
      exact List.mem_cons_self ..
    · exact List.mem_cons_of_mem _ (ih member)

/-- Behind a state that is passed over, what follows it is entered. -/
theorem next_mem (embodies : automaton.Embodies connections view skeleton) {passed : StateId}
    {connection : Connection} (exits : exitsOf connections passed = [connection])
    (passes : view.Passes passed connection.arm)
    (condenses : Condenses connections view skeleton knot state trail route last home)
    (member : passed ∈ state :: trail.entered) : connection.edge.target ∈ trail.entered := by
  induction condenses with
  | rest here =>
    obtain rfl := List.mem_singleton.1 member
    exact absurd passes (embodies.still here _)
  | pass otherExits _ _ ih =>
    obtain rfl | member := List.mem_cons.1 member
    · obtain rfl := List.singleton_injective (exits.symm.trans otherExits)
      exact List.mem_cons_self ..
    · exact List.mem_cons_of_mem _ (ih member)
  | turn models _ ih =>
    obtain rfl | member := List.mem_cons.1 member
    · exact absurd passes (embodies.still models.seat _)
    · exact List.mem_cons_of_mem _ (ih member)

/-- A trail that enters no state twice enters no knot twice. -/
theorem simple_route
    (condenses : Condenses connections view skeleton knot state trail route last home)
    (simple : (state :: trail.entered).Nodup) : (knot :: route.entered).Nodup := by
  induction condenses with
  | rest _ => exact List.nodup_singleton _
  | pass _ _ _ ih => exact ih (List.nodup_cons.1 simple).2
  | turn models rest ih =>
    obtain ⟨apart, simple⟩ := List.nodup_cons.1 simple
    exact List.nodup_cons.2 ⟨fun member => apart (rest.home_mem member models.seat), ih simple⟩

/-- A trail that enters no knot twice enters no state twice: from a state that is passed over it
would come to the same knot again. -/
theorem simple_trail (embodies : automaton.Embodies connections view skeleton)
    (condenses : Condenses connections view skeleton knot state trail route last home)
    (simple : (knot :: route.entered).Nodup) : (state :: trail.entered).Nodup := by
  induction condenses with
  | rest _ => exact List.nodup_singleton _
  | pass exits passes rest ih =>
    refine List.nodup_cons.2 ⟨fun member => ?_, ih simple⟩
    exact (List.nodup_cons.1 (ih simple)).1 (rest.next_mem embodies exits passes member)
  | turn models rest ih =>
    obtain ⟨apart, simple⟩ := List.nodup_cons.1 simple
    refine List.nodup_cons.2 ⟨fun member => ?_, ih simple⟩
    exact apart (rest.knot_mem embodies member models.seat)

end Condenses

/-! ### Order -/

namespace Connection.Models

variable {automaton : Automaton} {connections : List Connection} {view : View}
  {skeleton : Skeleton} {knot home : StateId} {first second : Connection} {place later : Nat}
  {arm other : Arm}

/-- Connections out of a state come in the order in which they were made. -/
theorem seq_lt_iff (draws : automaton.Draws connections)
    (models : first.Models connections view skeleton knot home place arm)
    (models' : second.Models connections view skeleton knot home later other) :
    first.edge.seq < second.edge.seq ↔ place < later := by
  obtain ⟨inside, here⟩ := List.getElem?_eq_some_iff.1 models.exit
  obtain ⟨inside', there⟩ := List.getElem?_eq_some_iff.1 models'.exit
  have ordered := List.pairwise_iff_getElem.1 (draws.ordered home)
  rw [← here, ← there]
  constructor
  · intro less
    by_contra notBefore
    obtain rfl | after := Nat.eq_or_lt_of_not_lt notBefore
    · exact Nat.lt_irrefl _ less
    · exact Nat.lt_asymm less (ordered later place inside' inside after)
  · exact ordered place later inside inside'

/-- Arms are tried in the order in which the connections are that are seen as them. -/
theorem before (draws : automaton.Draws connections)
    (models : first.Models connections view skeleton knot home place arm)
    (models' : second.Models connections view skeleton knot home later other)
    (before : first.edge.Before second.edge) : (arm.edge place).Before (other.edge later) := by
  have priority : first.edge.priority = arm.priority := models.shows.priority
  have priority' : second.edge.priority = other.priority := models'.shows.priority
  rw [Edge.before_iff] at before ⊢
  rwa [models.seq_lt_iff draws models', priority, priority'] at before

/-- Connections out of a state are told apart by their edges. -/
theorem unique (draws : automaton.Draws connections)
    (models : first.Models connections view skeleton knot home place arm)
    (models' : second.Models connections view skeleton knot home later other)
    (same : first.edge = second.edge) : first = second ∧ place = later ∧ arm = other := by
  have notBefore : ¬ place < later := by
    rw [← models.seq_lt_iff draws models', same]
    exact Nat.lt_irrefl _
  have notAfter : ¬ later < place := by
    rw [← models'.seq_lt_iff draws models, same]
    exact Nat.lt_irrefl _
  obtain rfl : place = later := by omega
  exact ⟨Option.some.inj (models.exit.symm.trans models'.exit), rfl,
    Option.some.inj (models.listed.symm.trans models'.listed)⟩

end Connection.Models

theorem Trail.notAfter_cons {first second : Crossing} {rest others : Trail}
    (notAfter : NotAfter (first :: rest) (second :: others)) :
    first.edge.Before second.edge ∨ first = second ∧ NotAfter rest others := by
  obtain same | precedes := notAfter
  · obtain ⟨rfl, rfl⟩ := List.cons.inj same
    exact Or.inr ⟨rfl, Or.inl rfl⟩
  · cases precedes with
    | here before => exact Or.inl before
    | there later => exact Or.inr ⟨rfl, Or.inr later⟩

theorem Trail.not_notAfter_nil {crossing : Crossing} {rest : Trail} :
    ¬ NotAfter [] (crossing :: rest) ∧ ¬ NotAfter (crossing :: rest) [] := by
  constructor <;> rintro (same | precedes)
  · cases same
  · cases precedes
  · cases same
  · cases precedes

namespace Condenses

variable {automaton : Automaton} {connections : List Connection} {view : View}
  {skeleton : Skeleton} {knot state last home last' home' : StateId}
  {trail route trail' route' : Trail}

/-- If a trail does not come after another one from the same state, neither does its condensed
trail. -/
theorem notAfter (embodies : automaton.Embodies connections view skeleton)
    (condenses : Condenses connections view skeleton knot state trail route last home)
    (condenses' : Condenses connections view skeleton knot state trail' route' last' home')
    (notAfter : trail.NotAfter trail') : route.NotAfter route' := by
  induction condenses generalizing trail' route' with
  | rest seat =>
    cases condenses' with
    | rest _ => exact Or.inl rfl
    | pass _ passes _ => exact absurd passes (embodies.still seat _)
    | turn _ _ => exact absurd notAfter Trail.not_notAfter_nil.1
  | pass exits passes _ ih =>
    cases condenses' with
    | rest seat => exact absurd passes (embodies.still seat _)
    | pass exits' _ rest' =>
      obtain rfl := List.singleton_injective (exits.symm.trans exits')
      obtain before | ⟨-, later⟩ := Trail.notAfter_cons notAfter
      · exact absurd before before.asymm
      · exact ih rest' later
    | turn models _ => exact absurd passes (embodies.still models.seat _)
  | turn models _ ih =>
    cases condenses' with
    | rest _ => exact absurd notAfter Trail.not_notAfter_nil.2
    | pass _ passes _ => exact absurd passes (embodies.still models.seat _)
    | turn models' rest' =>
      obtain before | ⟨same, later⟩ := Trail.notAfter_cons notAfter
      · exact Or.inr (.here (models.before embodies.draws models' before))
      · obtain ⟨rfl, rfl, rfl⟩ :=
          models.unique embodies.draws models' (congrArg Crossing.edge same)
        obtain rfl := congrArg Crossing.consumed same
        obtain same | precedes := ih rest' later
        · exact Or.inl (congrArg _ same)
        · exact Or.inr (.there precedes)

end Condenses

end TaggedRegex
