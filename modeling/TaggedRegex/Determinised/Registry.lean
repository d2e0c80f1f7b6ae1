import TaggedRegex.Determinised.Configuration
import TaggedRegex.Fault
import TaggedRegex.History.Renaming

set_option autoImplicit false

/-!
The configurations found so far, numbered in the order in which they were found.
-/

namespace TaggedRegex

namespace Configuration

/-- Adds the pairs one by one; none of them may clash. -/
def renamingOfPairs? (pairing : Renaming) : List (HistoryId × HistoryId) → Option Renaming
  | [] => some pairing
  | (source, target) :: rest =>
      match pairing.insert source target with
      | .ok (_, pairing) => renamingOfPairs? pairing rest
      | .error _ => none

/-- The histories of two configurations, thread by thread and slot by slot. -/
def historyPairs (source target : Configuration) : List (HistoryId × HistoryId) :=
  (source.threads.zip target.threads).flatMap fun pair => pair.1.histories.zip pair.2.histories

/-- The renaming of histories that turns one configuration into another with the same key, if there
is one. -/
def renamingOnto? (source target : Configuration) : Option Renaming :=
  renamingOfPairs? .empty (source.historyPairs target)

end Configuration

/-- Configurations by their number. -/
structure Registry where
  configurations : Array Configuration

namespace Registry

def empty : Registry := ⟨#[]⟩

/-- The configuration with this number, if there is one. -/
def get? (registry : Registry) (index : Nat) : Option Configuration :=
  registry.configurations[index]?

/-- The configuration with this number, which must exist. -/
def get (registry : Registry) (index : Nat) : Except Fault Configuration :=
  match registry.get? index with
  | some configuration => .ok configuration
  | none => .error (.unregisteredState index)

/-- Adds a configuration under the next number, even if an equivalent one is there. -/
def register (registry : Registry) (configuration : Configuration) : Nat × Registry :=
  (registry.configurations.size, ⟨registry.configurations.push configuration⟩)

/-- The first configuration with the candidate's key onto which the candidate can be renamed. -/
def findRenaming? (registry : Registry) (candidate : Configuration) : Option (Nat × Renaming) :=
  registry.configurations.toList.zipIdx.findSome? fun (configuration, index) =>
    if configuration.key = candidate.key then
      (candidate.renamingOnto? configuration).map fun pairing => (index, pairing)
    else none

end Registry

end TaggedRegex
