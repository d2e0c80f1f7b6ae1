import TaggedRegex.Proofs.CharRange.Alphabet
import TaggedRegex.Proofs.Language.Marks
import TaggedRegex.Proofs.Trail.Step

set_option autoImplicit false

/-!
Routes through a laid out expression. Whatever word the expression matches, with whatever marks,
some completion reads the word on the way between its two states and crosses just these tags.
-/

namespace TaggedRegex

variable {automaton : Automaton} {connections : List Connection}

/-- There is a way from `head` to `tail` for everything that may be read, with its marks. -/
def Automaton.Routes (automaton : Automaton)
    (reads : Nat → List Char → List Char → Marking → Prop) (head tail : StateId) : Prop :=
  ∀ {consumed : Nat} {word behind : List Char} {marking : Marking} {later : Trail},
    reads consumed word behind marking →
    automaton.Completes behind (consumed + word.length) tail later →
    ∃ trail, automaton.Completes (word ++ behind) consumed head trail ∧
      trail.marks = marking ++ later.marks

namespace Plan.Leaves

variable {state : StateId} {arms : List Arm} {arm : Arm}

/-- An arm without a tag in front of a completion. -/
theorem untagged (leaves : (automaton.plan connections).Leaves state arms)
    (draws : automaton.Draws connections) (member : arm ∈ arms) (tag : arm.tag = none)
    {rest rest' : List Char} {consumed consumed' : Nat}
    (passes : arm.label.Passes rest consumed rest' consumed') {later : Trail}
    (completes : automaton.Completes rest' consumed' arm.target later) :
    ∃ trail, automaton.Completes rest consumed state trail ∧ trail.marks = later.marks := by
  obtain ⟨edge, same, longer⟩ := leaves.completes draws member passes completes
  exact ⟨_, longer, Trail.marks_cons_untagged (same.trans tag) consumed' later⟩

/-- An arm with a tag in front of a completion. -/
theorem tagged {target : StateId} {tag : Tag}
    (leaves : (automaton.plan connections).Leaves state [.cross target tag])
    (draws : automaton.Draws connections) {rest : List Char} {consumed : Nat} {later : Trail}
    (completes : automaton.Completes rest consumed target later) :
    ∃ trail, automaton.Completes rest consumed state trail ∧
      trail.marks = ⟨tag, consumed⟩ :: later.marks := by
  obtain ⟨edge, same, longer⟩ :=
    leaves.completes draws (List.mem_singleton_self _) (.epsilon rest consumed) completes
  exact ⟨_, longer, Trail.marks_cons_tagged same consumed later⟩

end Plan.Leaves

/-- Routes around the loop of a repetition, from a state that enters its body or leaves. -/
theorem Regex.routes_star (draws : automaton.Draws connections) {greed : Greed} {body : Regex}
    {number : Nat} {first last tail : StateId}
    (through : automaton.Routes (body.Marks number) first last)
    (leaves : (automaton.plan connections).Leaves last
      (Quantifier.star.lastArms greed first tail))
    {state : StateId} (atState : (automaton.plan connections).Leaves state
      (Quantifier.star.lastArms greed first tail)) :
    automaton.Routes ((Regex.rep .star greed body).Marks number) state tail := by
  intro consumed word behind marking later marks onward
  generalize star : Regex.rep .star greed body = regex at marks
  induction marks generalizing state later with
  | starDone _ _ _ consumed behind =>
    cases star
    have leaving : Arm.epsilon tail greed.leave ∈ Quantifier.star.lastArms greed first tail :=
      List.mem_cons_of_mem _ (List.mem_singleton_self _)
    exact atState.untagged draws leaving rfl (.epsilon _ _) onward
  | @starMore _ _ _ consumed word more behind one others marks _ _ ihMore =>
    cases star
    rw [List.length_append, ← Nat.add_assoc] at onward
    obtain ⟨repeated, fromLast, repeatedMarks⟩ := ihMore through leaves onward rfl
    obtain ⟨within, fromFirst, withinMarks⟩ := through marks fromLast
    have entering : Arm.epsilon first greed.enter ∈ Quantifier.star.lastArms greed first tail :=
      List.mem_cons_self ..
    rw [List.append_assoc, List.append_assoc, ← repeatedMarks, ← withinMarks]
    exact atState.untagged draws entering rfl (.epsilon _ _) fromFirst
  | _ => cases star

mutual

theorem Regex.routes (draws : automaton.Draws connections) (regex : Regex) {number : Nat}
    {head tail : StateId} (lays : (automaton.plan connections).Lays number head tail regex) :
    automaton.Routes (regex.Marks number) head tail := by
  intro consumed word behind marking later marks onward
  cases regex with
  | any =>
    rw [Plan.Lays] at lays
    cases marks with
    | any _ _ c _ =>
      exact lays.untagged draws (List.mem_singleton_self _) rfl
        (.chars behind consumed (CharRange.mem_all c)) onward
  | lit c =>
    rw [Plan.Lays] at lays
    cases marks with
    | lit =>
      exact lays.untagged draws (List.mem_singleton_self _) rfl
        (.chars behind consumed ((CharRange.mem_single c c).2 rfl)) onward
  | set ranges =>
    rw [Plan.Lays] at lays
    cases marks with
    | set _ _ _ listed inside =>
      exact lays.untagged draws (List.mem_map_of_mem listed) rfl
        (.chars behind consumed inside) onward
  | atEnd =>
    rw [Plan.Lays] at lays
    cases marks with
    | atEnd =>
      exact lays.untagged draws (List.mem_singleton_self _) rfl (.atEnd consumed) onward
  | group body =>
    rw [Plan.Lays] at lays
    obtain ⟨first, last, opens, inside, closes⟩ := lays
    cases marks with
    | @group _ _ _ _ _ marking bodyMarks =>
      obtain ⟨closing, fromLast, closingMarks⟩ := closes.tagged draws onward
      obtain ⟨within, fromFirst, withinMarks⟩ := Regex.routes draws body inside bodyMarks fromLast
      obtain ⟨trail, whole, openingMarks⟩ := opens.tagged draws fromFirst
      refine ⟨trail, whole, ?_⟩
      rw [openingMarks, withinMarks, closingMarks, Marking.wrap]
      simp
  | rep quantifier greed body =>
    rw [Plan.Lays] at lays
    obtain ⟨first, last, begins, inside, goesOn⟩ := lays
    have through : automaton.Routes (body.Marks number) first last :=
      Regex.routes draws body inside
    cases quantifier with
    | star => exact Regex.routes_star draws through goesOn begins marks onward
    | plus =>
      cases marks with
      | plus bodyMarks moreMarks =>
        rw [List.length_append, ← Nat.add_assoc] at onward
        obtain ⟨repeated, fromLast, repeatedMarks⟩ :=
          Regex.routes_star draws through goesOn goesOn moreMarks onward
        obtain ⟨within, fromFirst, withinMarks⟩ := through bodyMarks fromLast
        rw [List.append_assoc, List.append_assoc, ← repeatedMarks, ← withinMarks]
        exact begins.untagged draws (List.mem_singleton_self _) rfl (.epsilon _ _) fromFirst
    | opt =>
      cases marks with
      | optNone =>
        have leaving : Arm.epsilon tail greed.leave ∈ Quantifier.opt.headArms greed first tail :=
          List.mem_cons_of_mem _ (List.mem_singleton_self _)
        exact begins.untagged draws leaving rfl (.epsilon _ _) onward
      | optSome bodyMarks =>
        obtain ⟨leaving, fromLast, leavingMarks⟩ :=
          goesOn.untagged draws (List.mem_singleton_self _) rfl (.epsilon _ _) onward
        obtain ⟨within, fromFirst, withinMarks⟩ := through bodyMarks fromLast
        have entering : Arm.epsilon first greed.enter ∈ Quantifier.opt.headArms greed first tail :=
          List.mem_cons_self ..
        rw [← leavingMarks, ← withinMarks]
        exact begins.untagged draws entering rfl (.epsilon _ _) fromFirst
  | alt branches =>
    rw [Plan.Lays] at lays
    obtain ⟨arms, leaves, laysBranches⟩ := lays
    obtain ⟨first, priority, arm, within, fromFirst, withinMarks⟩ :=
      Regex.routesBranches draws branches laysBranches marks onward
    rw [← withinMarks]
    exact leaves.untagged draws arm rfl (.epsilon _ _) fromFirst
  | cat items =>
    rw [Plan.Lays] at lays
    exact Regex.routesItems draws items lays marks onward

theorem Regex.routesBranches (draws : automaton.Draws connections) (branches : List Regex)
    {number : Nat} {tail : StateId} {priority : Priority} {arms : List Arm}
    (lays : (automaton.plan connections).LaysBranches number tail priority arms branches)
    {consumed : Nat} {word behind : List Char} {marking : Marking} {later : Trail}
    (marks : (Regex.alt branches).Marks number consumed word behind marking)
    (onward : automaton.Completes behind (consumed + word.length) tail later) :
    ∃ first priority, Arm.epsilon first priority ∈ arms ∧ ∃ trail,
      automaton.Completes (word ++ behind) consumed first trail ∧
      trail.marks = marking ++ later.marks := by
  cases branches with
  | nil => cases marks
  | cons branch others =>
    rw [Plan.LaysBranches] at lays
    obtain ⟨first, last, otherArms, rfl, inside, leads, laysOthers⟩ := lays
    cases marks with
    | altHere branchMarks =>
      obtain ⟨leaving, fromLast, leavingMarks⟩ :=
        leads.untagged draws (List.mem_singleton_self _) rfl (.epsilon _ _) onward
      rw [← leavingMarks]
      exact ⟨first, priority, List.mem_cons_self ..,
        Regex.routes draws branch inside branchMarks fromLast⟩
    | altLater otherMarks =>
      obtain ⟨first', priority', arm, found⟩ :=
        Regex.routesBranches draws others laysOthers otherMarks onward
      exact ⟨first', priority', List.mem_cons_of_mem _ arm, found⟩

theorem Regex.routesItems (draws : automaton.Draws connections) (items : List Regex)
    {number : Nat} {head tail : StateId}
    (lays : (automaton.plan connections).LaysItems number head tail items) :
    automaton.Routes ((Regex.cat items).Marks number) head tail := by
  intro consumed word behind marking later marks onward
  cases items with
  | nil =>
    rw [Plan.LaysItems] at lays
    cases marks with
    | catNil => exact lays.untagged draws (List.mem_singleton_self _) rfl (.epsilon _ _) onward
  | cons item others =>
    cases marks with
    | catCons itemMarks moreMarks =>
      rw [List.length_append, ← Nat.add_assoc] at onward
      rw [List.append_assoc, List.append_assoc]
      cases others with
      | nil =>
        rw [Plan.LaysItems] at lays
        cases moreMarks with
        | catNil => exact Regex.routes draws item lays itemMarks onward
      | cons next more =>
        rw [Plan.LaysItems] at lays
        obtain ⟨middle, laysItem, laysMore⟩ := lays
        obtain ⟨rest, fromMiddle, restMarks⟩ :=
          Regex.routesItems draws (next :: more) laysMore moreMarks onward
        rw [← restMarks]
        exact Regex.routes draws item laysItem itemMarks fromMiddle

end

end TaggedRegex
