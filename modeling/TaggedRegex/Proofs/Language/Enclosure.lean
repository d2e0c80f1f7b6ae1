import TaggedRegex.Proofs.Language.Nesting

set_option autoImplicit false

/-!
Groups inside groups. On every way through an expression each group is entered and left in turn,
every time inside the group around it.
-/

namespace TaggedRegex

namespace Waymarks

/-- Every group is passed through in turn, and the groups of the table lie inside each other as the
table says, except for a group that is excused. -/
structure Fits (table : List (Group × Regex)) (excused : Group → Prop) (tags : Waymarks) :
    Prop where
  alternates : ∀ group, tags.Alternates group
  inside : ∀ entry ∈ table, excused entry.1 ∨ tags.Inside entry.1.number entry.1.parent

namespace Fits

variable {table : List (Group × Regex)} {excused : Group → Prop} {tags first second : Waymarks}
  {number : Nat}

theorem nil : Fits table excused [] := by
  have absent : ∀ group, ∀ tag ∈ ([] : Waymarks), tag.group ≠ group :=
    fun _ _ member => absurd member List.not_mem_nil
  exact ⟨fun group => .of_absent (absent group),
    fun entry _ => Or.inr (.of_absent (absent entry.1.number))⟩

theorem append (early : first.Fits table excused) (late : second.Fits table excused) :
    Fits table excused (first ++ second) := by
  refine ⟨fun group => (early.alternates group).append (late.alternates group), ?_⟩
  intro entry listed
  obtain excused | earlyInside := early.inside entry listed
  · exact Or.inl excused
  obtain excused | lateInside := late.inside entry listed
  · exact Or.inl excused
  exact Or.inr (earlyInside.append (early.alternates _) lateInside)

theorem excuse {wider : Group → Prop} (fits : tags.Fits table excused)
    (implies : ∀ entry ∈ table, excused entry.1 → wider entry.1) : tags.Fits table wider :=
  ⟨fits.alternates, fun entry listed => (fits.inside entry listed).imp_left (implies entry listed)⟩

/-- The tags of a group around others hold what was excused for being inside it. -/
theorem wrap (fits : tags.Fits table fun group => group.parent = number)
    (absent : ∀ tag ∈ tags, tag.group ≠ number) :
    (tags.wrap number).Fits table fun group => group.number = number := by
  constructor
  · intro group
    by_cases same : number = group
    · rw [← same]
      exact ⟨1, ofGroup_wrap_self absent⟩
    · obtain ⟨count, rounds⟩ := fits.alternates group
      exact ⟨count, (ofGroup_wrap_of_ne same tags).trans rounds⟩
  · intro entry listed
    by_cases same : number = entry.1.number
    · exact Or.inl same.symm
    have alternates := fits.alternates entry.1.number
    obtain parent | inside := fits.inside entry listed
    · rw [parent]
      exact Or.inr (.of_wrap alternates same absent)
    · exact Or.inr (inside.wrap alternates same)

end Fits

end Waymarks

namespace Regex

variable {regex : Regex} {number parent : Nat} {tags : Waymarks} {table : List (Group × Regex)}

/-- Whatever way is taken, the tags on it fit the groups of the expression. -/
theorem Crosses.fits (crosses : regex.Crosses number tags)
    (listed : Listed table regex number parent) :
    tags.Fits table fun group => group.parent = parent := by
  induction crosses generalizing parent with
  | any | lit | set | atEnd | starDone | optNone | catNil => exact .nil
  | group crosses ih =>
    apply ((ih listed.of_group).wrap crosses.ne_of_outside).excuse
    intro entry member own
    rw [listed.eq_of_group member own]
  | starMore _ _ ihFirst ihMore => exact (ihFirst listed.of_rep).append (ihMore listed)
  | plus _ _ ihFirst ihMore =>
    exact (ihFirst listed.of_rep).append (ihMore (listed.quantified .star))
  | optSome _ ih => exact ih listed.of_rep
  | altHere _ ih => exact ih listed.of_branch.1
  | altLater _ ih => exact ih listed.of_branch.2
  | catCons _ _ ihFirst ihMore =>
    exact (ihFirst listed.of_item.1).append (ihMore listed.of_item.2)

/-- The fillers of a search cross nothing. -/
theorem Crosses.of_anchored {anchor : Anchor} (crosses : (regex.anchored anchor).Crosses 0 tags) :
    (Regex.group regex).Crosses 0 tags := by
  cases anchor with
  | full => exact crosses
  | search =>
    cases crosses with
    | catCons filler others =>
      cases others with
      | catCons entire others =>
        cases others with
        | catCons rear nothing =>
          cases nothing
          obtain rfl := filler.eq_nil rfl
          obtain rfl := rear.eq_nil rfl
          simp only [List.nil_append, List.append_nil]
          exact entire

/-- On a way through the anchored expression the entire match is passed through once, and every
other group in turn, inside the group around it. -/
theorem Crosses.fits_anchored {anchor : Anchor}
    (crosses : (regex.anchored anchor).Crosses 0 tags) :
    tags.ofGroup 0 = Waymarks.rounds 0 1 ∧
      tags.Fits regex.captureGroups fun group => group.number = 0 := by
  cases crosses.of_anchored with
  | group inside =>
    have absent := inside.ne_of_outside
    exact ⟨Waymarks.ofGroup_wrap_self absent,
      (inside.fits (listed_captureGroups regex).of_group).wrap absent⟩

end Regex

end TaggedRegex
