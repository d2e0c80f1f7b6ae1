import Mathlib.Data.List.Nodup
import TaggedRegex.Proofs.Automaton.Tagging
import TaggedRegex.Proofs.Trail.Basic

set_option autoImplicit false

/-!
Paths over some edges of an automaton, and the states that they enter. A path through a state can be
cut there.
-/

namespace TaggedRegex

/-- The states entered over the edges of a trail. -/
def Trail.entered (trail : Trail) : List StateId :=
  trail.map fun crossing => crossing.edge.target

@[simp] theorem Trail.entered_append (first second : Trail) :
    Trail.entered (first ++ second) = first.entered ++ second.entered := List.map_append ..

/-- A path over edges out of `free`, with the trail that it leaves. -/
inductive Glides (free : StateId → List Edge) (consumed : Nat) : StateId → Trail → StateId → Prop
  | stay (state : StateId) : Glides free consumed state [] state
  | cross {state target : StateId} {edge : Edge} {trail : Trail} :
      edge ∈ free state → Glides free consumed edge.target trail target →
      Glides free consumed state (⟨edge, consumed⟩ :: trail) target

namespace Glides

variable {free : StateId → List Edge} {consumed : Nat}

theorem append {source middle target : StateId} {first second : Trail}
    (early : Glides free consumed source first middle)
    (late : Glides free consumed middle second target) :
    Glides free consumed source (first ++ second) target := by
  induction early with
  | stay => exact late
  | cross member _ ih => exact .cross member (ih late)

theorem target_mem {source target : StateId} {trail : Trail}
    (glides : Glides free consumed source trail target) : target ∈ source :: trail.entered := by
  induction glides with
  | stay source => exact List.mem_cons_self ..
  | cross _ _ ih => exact List.mem_cons_of_mem _ ih

/-- A path through a state can be cut there. -/
theorem split_at {source target state : StateId} {trail : Trail}
    (glides : Glides free consumed source trail target) (member : state ∈ source :: trail.entered) :
    ∃ first second, trail = first ++ second ∧ Glides free consumed source first state ∧
      Glides free consumed state second target := by
  induction glides with
  | stay source =>
    obtain rfl : state = source := by simpa [Trail.entered] using member
    exact ⟨[], [], rfl, .stay _, .stay _⟩
  | @cross source target edge trail edgeMember rest ih =>
    rcases List.mem_cons.1 member with rfl | later
    · exact ⟨[], _, rfl, .stay _, .cross edgeMember rest⟩
    · rcases ih later with ⟨first, second, rfl, early, late⟩
      exact ⟨⟨edge, consumed⟩ :: first, second, rfl, .cross edgeMember early, late⟩

/-- If no state is entered twice, none is on the second part of the path. -/
theorem simple_of_split {source state : StateId} {first second : Trail}
    (early : Glides free consumed source first state)
    (distinct : (source :: Trail.entered (first ++ second)).Nodup) :
    (state :: second.entered).Nodup := by
  rw [Trail.entered_append, ← List.cons_append, List.nodup_append] at distinct
  rw [List.nodup_cons]
  refine ⟨fun inside => ?_, distinct.2.1⟩
  exact distinct.2.2 state early.target_mem state inside rfl

theorem mono {wider : StateId → List Edge} {source target : StateId} {trail : Trail}
    (glides : Glides free consumed source trail target)
    (subset : ∀ state edge, edge ∈ free state → edge ∈ wider state) :
    Glides wider consumed source trail target := by
  induction glides with
  | stay state => exact .stay state
  | cross member _ ih => exact .cross (subset _ _ member) ih

/-- Whatever a path enters is the target of an edge. -/
theorem entered_subset {source target : StateId} {trail : Trail}
    (glides : Glides free consumed source trail target) {automaton : Automaton}
    (has : ∀ state edge, edge ∈ free state → automaton.HasEdge edge) :
    ∀ state ∈ trail.entered, state ∈ automaton.targets := by
  induction glides with
  | stay state => exact fun state member => absurd member List.not_mem_nil
  | cross member _ ih =>
    intro state stateMember
    rcases List.mem_cons.1 stateMember with rfl | later
    · exact Automaton.target_mem_targets (has _ _ member)
    · exact ih state later

end Glides

end TaggedRegex
