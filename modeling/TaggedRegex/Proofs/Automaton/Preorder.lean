import TaggedRegex.Proofs.Automaton.Groups

set_option autoImplicit false

/-!
Where the groups of an expression are. An address leads from an expression to one of its parts,
child by child, so that the order of the addresses is the preorder of the parts. The groups are
numbered in that order, and each lies in the group whose address is the longest one it goes on.
-/

namespace TaggedRegex

namespace Regex

/-- The parts of which an expression is made, from left to right. -/
def children : Regex → List Regex
  | .any | .lit _ | .set _ | .atEnd => []
  | .group body | .rep _ _ body => [body]
  | .alt parts | .cat parts => parts

/-- The part at an address. -/
def descend : Regex → List Nat → Option Regex
  | regex, [] => some regex
  | regex, i :: address => regex.children[i]?.bind fun child => child.descend address

mutual

/-- The addresses of the capture groups. -/
def groupAddresses : Regex → List (List Nat)
  | .any | .lit _ | .set _ | .atEnd => []
  | .group body => [] :: body.groupAddresses.map (0 :: ·)
  | .rep _ _ body => body.groupAddresses.map (0 :: ·)
  | .alt parts | .cat parts => groupAddressesFrom 0 parts

/-- The addresses of the capture groups in children, of which the first is number `start`. -/
def groupAddressesFrom (start : Nat) : List Regex → List (List Nat)
  | [] => []
  | child :: rest =>
      child.groupAddresses.map (start :: ·) ++ groupAddressesFrom (start + 1) rest

end

mutual

theorem length_groupAddresses (regex : Regex) : regex.groupAddresses.length = regex.groupCount := by
  cases regex with
  | any | lit | set | atEnd => rfl
  | group body =>
    rw [groupAddresses, List.length_cons, List.length_map, length_groupAddresses body, groupCount]
  | rep _ _ body => rw [groupAddresses, List.length_map, length_groupAddresses body, groupCount]
  | alt parts | cat parts =>
    rw [groupAddresses, length_groupAddressesFrom 0 parts, groupCount]

theorem length_groupAddressesFrom (start : Nat) (parts : List Regex) :
    (groupAddressesFrom start parts).length = groupCounts parts := by
  cases parts with
  | nil => rfl
  | cons child rest =>
    rw [groupAddressesFrom, List.length_append, List.length_map, length_groupAddresses child,
      length_groupAddressesFrom _ rest, groupCounts]

end

mutual

theorem mem_groupAddresses_iff (regex : Regex) (address : List Nat) :
    address ∈ regex.groupAddresses ↔ ∃ body, regex.descend address = some (.group body) := by
  cases regex with
  | any | lit | set | atEnd =>
    cases address with
    | nil => simp [groupAddresses, descend]
    | cons i address => simp [groupAddresses, descend, children]
  | group inner =>
    cases address with
    | nil => simp [groupAddresses, descend]
    | cons i address =>
      cases i with
      | zero => simp [groupAddresses, descend, children, mem_groupAddresses_iff inner]
      | succ i => simp [groupAddresses, descend, children]
  | rep quantifier greed inner =>
    cases address with
    | nil => simp [groupAddresses, descend]
    | cons i address =>
      cases i with
      | zero => simp [groupAddresses, descend, children, mem_groupAddresses_iff inner]
      | succ i => simp [groupAddresses, descend, children]
  | alt parts | cat parts =>
    cases address with
    | nil => simp [groupAddresses, descend, mem_groupAddressesFrom_iff 0 parts]
    | cons i address =>
      simp [groupAddresses, descend, children, mem_groupAddressesFrom_iff 0 parts]

theorem mem_groupAddressesFrom_iff (start : Nat) (parts : List Regex) (address : List Nat) :
    address ∈ groupAddressesFrom start parts ↔ ∃ i inner body, address = (start + i) :: inner ∧
      (parts[i]?.bind fun child => child.descend inner) = some (.group body) := by
  cases parts with
  | nil => simp [groupAddressesFrom]
  | cons child rest =>
    rw [groupAddressesFrom, List.mem_append, mem_groupAddressesFrom_iff (start + 1) rest,
      List.mem_map]
    constructor
    · rintro (⟨inner, member, rfl⟩ | ⟨i, inner, body, rfl, found⟩)
      · obtain ⟨body, found⟩ := (mem_groupAddresses_iff child inner).1 member
        exact ⟨0, inner, body, rfl, found⟩
      · exact ⟨i + 1, inner, body, by rw [Nat.add_assoc, Nat.add_comm 1], found⟩
    · rintro ⟨i, inner, body, rfl, found⟩
      cases i with
      | zero => exact Or.inl ⟨inner, (mem_groupAddresses_iff child inner).2 ⟨body, found⟩, rfl⟩
      | succ i =>
        exact Or.inr ⟨i, inner, body, by rw [Nat.add_assoc, Nat.add_comm 1], found⟩

end

/-- The children on the way to a group among them. -/
theorem le_of_mem_groupAddressesFrom {start : Nat} {parts : List Regex} {i : Nat}
    {address : List Nat} (member : i :: address ∈ groupAddressesFrom start parts) : start ≤ i := by
  obtain ⟨j, inner, body, same, -⟩ := (mem_groupAddressesFrom_iff start parts _).1 member
  rw [(List.cons.inj same).1]
  exact Nat.le_add_right start j

theorem ne_nil_of_mem_groupAddressesFrom {start : Nat} {parts : List Regex} {address : List Nat}
    (member : address ∈ groupAddressesFrom start parts) : ∃ i inner, address = i :: inner := by
  obtain ⟨j, inner, body, same, -⟩ := (mem_groupAddressesFrom_iff start parts _).1 member
  exact ⟨_, inner, same⟩

theorem sorted_map_cons {addresses : List (List Nat)} (sorted : addresses.Pairwise (· < ·))
    (i : Nat) : (addresses.map (i :: ·)).Pairwise (· < ·) := by
  rw [List.pairwise_map]
  exact sorted.imp fun lt => List.cons_lt_cons_iff.2 (Or.inr ⟨rfl, lt⟩)

mutual

/-- The groups are listed in preorder. -/
theorem sorted_groupAddresses (regex : Regex) : regex.groupAddresses.Pairwise (· < ·) := by
  cases regex with
  | any | lit | set | atEnd => exact List.Pairwise.nil
  | group body =>
    rw [groupAddresses, List.pairwise_cons]
    refine ⟨?_, sorted_map_cons (sorted_groupAddresses body) 0⟩
    intro address member
    obtain ⟨inner, -, rfl⟩ := List.mem_map.1 member
    exact List.nil_lt_cons 0 inner
  | rep _ _ body => exact sorted_map_cons (sorted_groupAddresses body) 0
  | alt parts | cat parts => exact sorted_groupAddressesFrom 0 parts

theorem sorted_groupAddressesFrom (start : Nat) (parts : List Regex) :
    (groupAddressesFrom start parts).Pairwise (· < ·) := by
  cases parts with
  | nil => exact List.Pairwise.nil
  | cons child rest =>
    rw [groupAddressesFrom, List.pairwise_append]
    refine ⟨sorted_map_cons (sorted_groupAddresses child) start,
      sorted_groupAddressesFrom (start + 1) rest, ?_⟩
    intro early earlyMember late lateMember
    obtain ⟨inner, -, rfl⟩ := List.mem_map.1 earlyMember
    obtain ⟨i, other, rfl⟩ := ne_nil_of_mem_groupAddressesFrom lateMember
    exact List.cons_lt_cons_iff.2 (Or.inl (le_of_mem_groupAddressesFrom lateMember))

end

/-! ### What lies around a group -/

/-- What is at `inner` lies inside what is at `outer`. -/
def Encloses (outer inner : List Nat) : Prop := outer <+: inner ∧ outer ≠ inner

theorem not_encloses_nil (outer : List Nat) : ¬ Encloses outer [] := fun encloses =>
  encloses.2 (List.prefix_nil.1 encloses.1)

theorem encloses_cons_iff {i j : Nat} {outer inner : List Nat} :
    Encloses (i :: outer) (j :: inner) ↔ i = j ∧ Encloses outer inner := by
  unfold Encloses
  rw [List.cons_prefix_cons, Ne, List.cons.injEq]
  constructor
  · rintro ⟨⟨rfl, starts⟩, other⟩
    exact ⟨rfl, starts, fun same => other ⟨rfl, same⟩⟩
  · rintro ⟨rfl, starts, other⟩
    exact ⟨⟨rfl, starts⟩, fun same => other same.2⟩

/-- With the addresses of groups numbered from `number` on, the group nearest around `address` is
`parent`; it is `outermost` if there is none. -/
def Nearest (addresses : List (List Nat)) (number outermost : Nat) (address : List Nat)
    (parent : Nat) : Prop :=
  (parent = outermost ∧ ∀ outer ∈ addresses, ¬ Encloses outer address) ∨
  ∃ k outer, addresses[k]? = some outer ∧ parent = number + k ∧ Encloses outer address ∧
    ∀ other ∈ addresses, Encloses other address → other <+: outer

namespace Nearest

variable {addresses : List (List Nat)} {number outermost parent : Nat} {address : List Nat}

theorem map_cons (nearest : Nearest addresses number outermost address parent) (i : Nat) :
    Nearest (addresses.map (i :: ·)) number outermost (i :: address) parent := by
  obtain ⟨rfl, none⟩ | ⟨k, outer, found, rfl, encloses, longest⟩ := nearest
  · refine Or.inl ⟨rfl, fun outer member encloses => ?_⟩
    obtain ⟨inner, listed, rfl⟩ := List.mem_map.1 member
    exact none inner listed (encloses_cons_iff.1 encloses).2
  · refine Or.inr ⟨k, i :: outer, by rw [List.getElem?_map, found]; rfl, rfl,
      encloses_cons_iff.2 ⟨rfl, encloses⟩, fun other member inside => ?_⟩
    obtain ⟨inner, listed, rfl⟩ := List.mem_map.1 member
    exact List.cons_prefix_cons.2 ⟨rfl, longest inner listed (encloses_cons_iff.1 inside).2⟩

/-- A group around everything else. -/
theorem within (nearest : Nearest addresses (number + 1) number address parent) :
    Nearest ([] :: addresses.map (0 :: ·)) number outermost (0 :: address) parent := by
  have empty : Encloses [] (0 :: address) := ⟨List.nil_prefix, (List.cons_ne_nil 0 address).symm⟩
  obtain ⟨same, none⟩ | ⟨k, outer, found, same, encloses, longest⟩ := nearest.map_cons 0
  · refine Or.inr ⟨0, [], rfl, same, empty, fun other member inside => ?_⟩
    rcases List.mem_cons.1 member with rfl | member
    · exact List.prefix_refl []
    · exact absurd inside (none other member)
  · refine Or.inr ⟨k + 1, outer, found, by omega, encloses, fun other member inside => ?_⟩
    rcases List.mem_cons.1 member with rfl | member
    · exact List.nil_prefix
    · exact longest other member inside

theorem append_left (nearest : Nearest addresses number outermost address parent)
    {others : List (List Nat)} (apart : ∀ other ∈ others, ¬ Encloses other address) :
    Nearest (addresses ++ others) number outermost address parent := by
  obtain ⟨same, none⟩ | ⟨k, outer, found, same, encloses, longest⟩ := nearest
  · refine Or.inl ⟨same, fun outer member => ?_⟩
    exact (List.mem_append.1 member).elim (none outer) (apart outer)
  · obtain ⟨within, -⟩ := List.getElem?_eq_some_iff.1 found
    refine Or.inr ⟨k, outer, by rw [List.getElem?_append_left within, found], same, encloses,
      fun other member inside => ?_⟩
    rcases List.mem_append.1 member with member | member
    · exact longest other member inside
    · exact absurd inside (apart other member)

theorem append_right {others : List (List Nat)}
    (nearest : Nearest addresses (number + others.length) outermost address parent)
    (apart : ∀ other ∈ others, ¬ Encloses other address) :
    Nearest (others ++ addresses) number outermost address parent := by
  obtain ⟨same, none⟩ | ⟨k, outer, found, same, encloses, longest⟩ := nearest
  · refine Or.inl ⟨same, fun outer member => ?_⟩
    exact (List.mem_append.1 member).elim (apart outer) (none outer)
  · refine Or.inr ⟨others.length + k, outer, ?_, by omega, encloses,
      fun other member inside => ?_⟩
    · rw [List.getElem?_append_right (Nat.le_add_right ..), Nat.add_sub_cancel_left, found]
    rcases List.mem_append.1 member with member | member
    · exact absurd inside (apart other member)
    · exact longest other member inside

end Nearest

mutual

/-- The groups are listed in the order of their addresses, each with what stands in it and with the
group nearest around it. -/
theorem nested_getElem? (regex : Regex) {number parent k : Nat} {entry : Group × Regex}
    (found : (regex.nested number parent)[k]? = some entry) :
    ∃ address, regex.groupAddresses[k]? = some address ∧
      regex.descend address = some (.group entry.2) ∧
      Nearest regex.groupAddresses number parent address entry.1.parent := by
  cases regex with
  | any | lit | set | atEnd => cases found
  | group body =>
    rw [nested] at found
    rw [groupAddresses]
    cases k with
    | zero =>
      obtain rfl := Option.some.inj found
      exact ⟨[], rfl, rfl, Or.inl ⟨rfl, fun outer _ => not_encloses_nil outer⟩⟩
    | succ k =>
      obtain ⟨address, here, leads, nearest⟩ := nested_getElem? body found
      refine ⟨0 :: address, ?_, leads, nearest.within⟩
      rw [List.getElem?_cons_succ, List.getElem?_map, here]
      rfl
  | rep quantifier greed body =>
    rw [nested] at found
    rw [groupAddresses]
    obtain ⟨address, here, leads, nearest⟩ := nested_getElem? body found
    refine ⟨0 :: address, ?_, leads, nearest.map_cons 0⟩
    rw [List.getElem?_map, here]
    rfl
  | alt parts | cat parts =>
    obtain ⟨i, address, here, leads, nearest⟩ := nestedAll_getElem? 0 parts found
    rw [Nat.zero_add] at here nearest
    exact ⟨i :: address, here, leads, nearest⟩

theorem nestedAll_getElem? (start : Nat) (parts : List Regex) {number parent k : Nat}
    {entry : Group × Regex} (found : (nestedAll number parent parts)[k]? = some entry) :
    ∃ i address, (groupAddressesFrom start parts)[k]? = some ((start + i) :: address) ∧
      (parts[i]?.bind fun child => child.descend address) = some (.group entry.2) ∧
      Nearest (groupAddressesFrom start parts) number parent ((start + i) :: address)
        entry.1.parent := by
  cases parts with
  | nil => cases found
  | cons child rest =>
    have counted := child.length_nested number parent
    have length : (child.groupAddresses.map (start :: ·)).length = child.groupCount := by
      rw [List.length_map, length_groupAddresses]
    rw [nestedAll] at found
    rw [groupAddressesFrom]
    -- Groups in different children do not enclose each other, as their addresses differ at once.
    by_cases early : k < child.groupCount
    · rw [List.getElem?_append_left (counted ▸ early)] at found
      obtain ⟨address, here, leads, nearest⟩ := nested_getElem? child found
      refine ⟨0, address, ?_, leads, (nearest.map_cons start).append_left ?_⟩
      · rw [List.getElem?_append_left (length ▸ early), List.getElem?_map, here]
        rfl
      · intro other member inside
        obtain ⟨i, inner, rfl⟩ := ne_nil_of_mem_groupAddressesFrom member
        have later := le_of_mem_groupAddressesFrom member
        have same := (encloses_cons_iff.1 inside).1
        omega
    · have late := Nat.le_of_not_lt early
      rw [List.getElem?_append_right (counted ▸ late), counted] at found
      obtain ⟨i, address, here, leads, nearest⟩ := nestedAll_getElem? (start + 1) rest found
      rw [Nat.add_assoc, Nat.add_comm 1] at here nearest
      rw [← length] at nearest
      refine ⟨i + 1, address, ?_, leads, nearest.append_right ?_⟩
      · rw [List.getElem?_append_right (length ▸ late), length, here]
      · intro other member inside
        obtain ⟨inner, -, rfl⟩ := List.mem_map.1 member
        have same := (encloses_cons_iff.1 inside).1
        omega

end

end Regex

end TaggedRegex
