import TaggedRegex.Proofs.CharRange.Alphabet
import TaggedRegex.Proofs.Determinised.Simulation
import TaggedRegex.Proofs.Guarded.Breach

set_option autoImplicit false

/-!
A step with work lists that outlive it. Arrivals wait in two stacks, and threads that still have to
take the step wait in a queue behind them. Every step finds the lists empty and leaves them empty.
-/

namespace TaggedRegex

structure WorkLists where
  normal : List Arrival
  low : List Arrival
  hungry : List Thread
  deriving DecidableEq

namespace WorkLists

def empty : WorkLists := ⟨[], [], []⟩

/-- The edges that may read a character, looked up between the least range and the greatest one that
begin no later than it. -/
def readers (automaton : Automaton) (state : StateId) (c : Char) : Except Breach (List Edge) :=
  match CharRange.ofBounds c CharRange.all.hi with
  | .error fault => .error (.fault fault)
  | .ok greatest =>
      if greatest < CharRange.single CharRange.all.lo then .error .invertedLookup
      else .ok (automaton.onChar state c)

/-- Where a thread gets to by taking the step: the arrivals for the stack of normal ones, and those
for the stack of low ones. -/
def fed (automaton : Automaton) (step : Step) (thread : Thread) :
    Except Breach (List Arrival × List Arrival) :=
  match step with
  | .start => .error .hungryAtStart
  | .char c => do
      let edges ← readers automaton thread.state c
      return (Arrival.overEdges thread.histories edges, [])
  | .finish =>
      let edges := automaton.onEnd thread.state
      let stay := if thread.state = automaton.accept then [⟨thread, none⟩] else []
      .ok (stay ++ Arrival.withPriority thread.histories edges .normal,
        Arrival.withPriority thread.histories edges .low)

/-- Takes what comes next until all lists are empty: a normal arrival, or else a low one, or else a
thread that has not taken the step yet. -/
def run (automaton : Automaton) (step : Step) (normal low : List Arrival) (hungry : List Thread)
    (closure : Closure) : Except Breach (Closure × WorkLists) :=
  match _found : Arrival.next? normal low with
  | some (arrival, normal', low') =>
      if arrival.thread.state ∈ closure.unvisited then
        match arrival.crossTag automaton closure.supply with
        | .error fault => .error (.fault fault)
        | .ok (thread, instructions, supply) =>
            let edges := Closure.freeEdges automaton step thread.state
            run automaton step
              (Arrival.withPriority thread.histories edges .normal ++ normal')
              (Arrival.withPriority thread.histories edges .low ++ low') hungry
              { unvisited := Closure.withoutState arrival.thread.state closure.unvisited
                threads :=
                  if automaton.isLive thread.state then closure.threads ++ [thread]
                  else closure.threads
                instructions := closure.instructions ++ instructions
                supply := supply }
      else run automaton step normal' low' hungry closure
  | none =>
      match hungry with
      | [] => .ok (closure, ⟨normal, low, hungry⟩)
      | thread :: rest =>
          match fed automaton step thread with
          | .error breach => .error breach
          | .ok (normal', low') =>
              run automaton step (normal' ++ normal) (low' ++ low) rest closure
termination_by (closure.unvisited.length, hungry.length, normal.length + low.length)
decreasing_by
  · exact Prod.Lex.left _ _ (Closure.length_withoutState_lt _ _ (by assumption))
  · have := Arrival.length_of_next? _found
    exact Prod.Lex.right _ (Prod.Lex.right _ (by omega))
  · exact Prod.Lex.right _ (Prod.Lex.left _ _ (Nat.lt_succ_self _))

/-- One step of all threads, with the work lists that were left by the one before. -/
def advance (automaton : Automaton) (source : Configuration) (step : Step) (supply : Supply)
    (lists : WorkLists) :
    Except Breach ((Option (Configuration × List Instruction) × Supply) × WorkLists) :=
  if lists ≠ empty then .error .workLeft
  else
    let unexplored : Closure := ⟨source.key ++ automaton.targets, [], [], supply⟩
    let begun := match step with
      | .start => run automaton step (source.threads.map fun thread => ⟨thread, none⟩) [] []
          unexplored
      | _ => run automaton step [] [] source.threads unexplored
    begun.map fun (closure, lists) =>
      ((if closure.threads.isEmpty then none
        else some (.ofThreads closure.threads, closure.instructions), closure.supply), lists)

/-! ### The lists are empty between steps -/

theorem eq_nil_of_next?_eq_none {normal low : List Arrival}
    (missing : Arrival.next? normal low = none) : normal = [] ∧ low = [] := by
  cases normal with
  | cons first rest => cases missing
  | nil =>
    cases low with
    | cons first rest => cases missing
    | nil => exact ⟨rfl, rfl⟩

theorem readers_eq (automaton : Automaton) (state : StateId) (c : Char) :
    readers automaton state c = .ok (automaton.onChar state c) := by
  obtain ⟨least, greatest⟩ := CharRange.mem_all c
  have ordered : ¬ (⟨c, CharRange.all.hi, greatest⟩ : CharRange) <
      CharRange.single CharRange.all.lo := by
    rintro (below | ⟨-, below⟩)
    · exact Char.not_lt.2 least below
    · exact Char.not_lt.2 CharRange.all.lo_le_hi below
  rw [readers, CharRange.ofBounds, CharRange.ofBounds?, dif_pos greatest]
  exact if_neg ordered

theorem fed_char (automaton : Automaton) (thread : Thread) (c : Char) :
    fed automaton (.char c) thread =
      .ok (Arrival.overEdges thread.histories (automaton.onChar thread.state c), []) := by
  rw [fed, readers_eq]
  rfl

/-- What is put into the lists for a thread is what the thread explores. -/
theorem consume_of_fed {automaton : Automaton} {step : Step} {thread : Thread}
    {normal low : List Arrival} (feeds : fed automaton step thread = .ok (normal, low))
    (closure : Closure) : Closure.consume automaton step closure thread =
      Closure.explore automaton step normal low closure := by
  cases step with
  | start => cases feeds
  | char c =>
    rw [fed_char] at feeds
    obtain ⟨rfl, rfl⟩ := Prod.mk.inj (Except.ok.inj feeds)
    rfl
  | finish =>
    obtain ⟨rfl, rfl⟩ := Prod.mk.inj (Except.ok.inj feeds)
    rfl

/-- With the stacks before the queue, the threads take the step one after the other. -/
theorem run_eq (automaton : Automaton) (step : Step) (normal low : List Arrival)
    (hungry : List Thread) (closure : Closure) (feeds : step = .start → hungry = []) :
    run automaton step normal low hungry closure =
      guarded ((Closure.explore automaton step normal low closure >>= fun closure =>
        hungry.foldlM (Closure.consume automaton step) closure).map (·, empty)) := by
  fun_induction run automaton step normal low hungry closure with
  | case1 normal low hungry closure arrival normal' low' found member fault failed =>
    rw [Closure.explore_of_next? found, if_pos member, failed]
    rfl
  | case2 normal low hungry closure arrival normal' low' found member thread instructions supply
      crossed edges ih =>
    have rest := ih feeds
    simp only [dite_eq_ite] at rest
    rw [rest, Closure.explore_of_next? found, if_pos member, crossed]
    rfl
  | case3 normal low hungry closure arrival normal' low' found visited ih =>
    rw [ih feeds, Closure.explore_of_next? found, if_neg visited]
  | case4 normal low closure missing =>
    obtain ⟨rfl, rfl⟩ := eq_nil_of_next?_eq_none missing
    rw [Closure.explore_nil]
    rfl
  | case5 normal low closure missing thread rest breach failed =>
    -- Only the step that consumes nothing refuses a thread, and then the queue is empty.
    cases step with
    | start => cases feeds rfl
    | char c =>
      rw [fed_char] at failed
      cases failed
    | finish => cases failed
  | case6 normal low closure missing thread rest normal' low' feedsThread ih =>
    obtain ⟨rfl, rfl⟩ := eq_nil_of_next?_eq_none missing
    have restFeeds : step = .start → rest = [] := by
      rintro rfl
      cases feedsThread
    rw [ih restFeeds, Closure.explore_nil, List.append_nil, List.append_nil]
    show _ = guarded (((thread :: rest).foldlM (Closure.consume automaton step) closure).map _)
    rw [List.foldlM_cons, consume_of_fed feedsThread]

/-- A step that finds the lists empty does what it should, and leaves them empty. -/
theorem advance_eq (automaton : Automaton) (source : Configuration) (step : Step)
    (supply : Supply) :
    advance automaton source step supply empty =
      guarded ((Closure.advance automaton source step supply).map (·, empty)) := by
  have closes : ∀ outcome : Except Fault Closure,
      (guarded (outcome.map (·, empty))).map (fun (closure, lists) =>
        ((if closure.threads.isEmpty then none
          else some (Configuration.ofThreads closure.threads, closure.instructions),
          closure.supply), lists)) =
        guarded ((outcome.map fun closure =>
          (if closure.threads.isEmpty then none
            else some (Configuration.ofThreads closure.threads, closure.instructions),
            closure.supply)).map (·, empty)) := by
    intro outcome
    cases outcome <;> rfl
  unfold advance Closure.advance
  rw [if_neg fun different => different rfl]
  cases step with
  | start =>
    dsimp only
    rw [run_eq _ _ _ _ _ _ fun _ => rfl]
    simp only [List.foldlM_nil, bind_pure]
    exact closes _
  | char c =>
    dsimp only
    rw [run_eq _ _ _ _ _ _ (fun start => by cases start), Closure.explore_nil]
    exact closes _
  | finish =>
    dsimp only
    rw [run_eq _ _ _ _ _ _ (fun start => by cases start), Closure.explore_nil]
    exact closes _

end WorkLists

end TaggedRegex
