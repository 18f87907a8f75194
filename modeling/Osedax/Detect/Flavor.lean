import Osedax.Detect.Names

/-!
# Names that state their vendor

The guess asks for the OpenBSD filename pattern before it asks for the words of NetBSD and
DragonFly.  A name that states one of these two vendors is therefore attributed to it exactly when
no `install` or `cd` in it is followed by two digits; otherwise the warning names the OpenBSD image.
-/

namespace Osedax

open Window

/-- The words that state a vendor. -/
def BsdFlavor.vendorWords : BsdFlavor → List String
  | .freeBsd => ["freebsd"]
  | .openBsd => ["openbsd"]
  | .netBsd => ["netbsd"]
  | .dragonFly => ["dragonfly", "dfly"]
  | .unknown => []

/-- The lowercased name contains a word of the vendor. -/
def States (flavor : BsdFlavor) (name : String) : Prop :=
  ∃ word ∈ flavor.vendorWords, ∃ i, OccursAt (asBytes word) i (toAsciiLowercase (asBytes name))

/-- The name states this vendor and no other. -/
structure StatesOnly (flavor : BsdFlavor) (name : String) : Prop where
  states : States flavor name
  only : ∀ other, States other name → other = flavor

/-- The warning of an optical-only ISO with this name is for the vendor, and its text names the
vendor's USB image. -/
def WarnsFor (flavor : BsdFlavor) (name : String) : Prop :=
  ∀ udf et, ∃ w, bsdWarning (.iso .opticalOnly udf et) name = some w ∧ w.flavor = flavor ∧
    flavor.usbImageHint.toList <:+: w.message.toList

theorem states_iff_any {flavor : BsdFlavor} {name : String} :
    States flavor name ↔ (flavor.vendorWords.any fun word =>
      contains (toAsciiLowercase (asBytes name)) (asBytes word)) = true := by
  simp only [States, List.any_eq_true, contains_iff]

instance (flavor : BsdFlavor) (name : String) : Decidable (States flavor name) :=
  decidable_of_iff _ states_iff_any.symm

/-- The tests of the guess in terms of what the name states. -/
theorem guessBsdFlavor_eq (name : String) :
    guessBsdFlavor name =
      if States .freeBsd name then .freeBsd
      else if States .openBsd name ∨ ReleaseName (toAsciiLowercase (asBytes name)) then .openBsd
      else if States .netBsd name then .netBsd
      else if States .dragonFly name then .dragonFly
      else .unknown := by
  simp only [guessBsdFlavor, ← hasOpenbsdIsoName_iff, states_iff_any, BsdFlavor.vendorWords,
    List.any_cons, List.any_nil, Bool.or_false, Bool.or_eq_true]

theorem not_states_unknown (name : String) : ¬ States .unknown name := by
  rintro ⟨word, hword, -⟩
  exact absurd hword List.not_mem_nil

theorem hint_infix_message (flavor : BsdFlavor) :
    flavor.usbImageHint.toList <:+: flavor.message.toList := by
  unfold BsdFlavor.message
  rw [String.toList_append, String.toList_append]
  exact List.infix_append _ _ _

theorem warnsFor_iff {flavor : BsdFlavor} {name : String} :
    WarnsFor flavor name ↔ guessBsdFlavor name = flavor := by
  have hwarn (udf et : Bool) : bsdWarning (.iso .opticalOnly udf et) name =
      some ⟨guessBsdFlavor name, (guessBsdFlavor name).message⟩ := by simp [bsdWarning]
  apply Iff.intro
  · intro h
    obtain ⟨w, hw, rfl, -⟩ := h false false
    rw [hwarn] at hw
    exact congrArg BsdWarning.flavor (Option.some.inj hw)
  · rintro rfl udf et
    exact ⟨_, hwarn udf et, rfl, hint_infix_message _⟩

section

variable {flavor : BsdFlavor} {name : String} (h : StatesOnly flavor name)

include h

theorem StatesOnly.not_states {other : BsdFlavor} (hne : other ≠ flavor) : ¬ States other name :=
  fun hstates => hne (h.only other hstates)

/-- The test for the stated vendor is reached, since no test before it succeeds. -/
theorem StatesOnly.guessBsdFlavor_eq_self (hcond : flavor = .freeBsd ∨ flavor = .openBsd ∨
    ¬ ReleaseName (toAsciiLowercase (asBytes name))) : guessBsdFlavor name = flavor := by
  have hstates := h.states
  rw [guessBsdFlavor_eq]
  cases flavor with
  | freeBsd => rw [if_pos hstates]
  | openBsd => rw [if_neg (h.not_states (by decide)), if_pos (Or.inl hstates)]
  | netBsd =>
    have hrel : ¬ ReleaseName (toAsciiLowercase (asBytes name)) := by simpa using hcond
    rw [if_neg (h.not_states (by decide)), if_neg (not_or.2 ⟨h.not_states (by decide), hrel⟩),
      if_pos hstates]
  | dragonFly =>
    have hrel : ¬ ReleaseName (toAsciiLowercase (asBytes name)) := by simpa using hcond
    rw [if_neg (h.not_states (by decide)), if_neg (not_or.2 ⟨h.not_states (by decide), hrel⟩),
      if_neg (h.not_states (by decide)), if_pos hstates]
  | unknown => exact absurd hstates (not_states_unknown name)

/-- Only the words of FreeBSD are looked for before the OpenBSD filename pattern. -/
theorem StatesOnly.guessBsdFlavor_of_release (hfree : flavor ≠ .freeBsd)
    (hrel : ReleaseName (toAsciiLowercase (asBytes name))) : guessBsdFlavor name = .openBsd := by
  rw [guessBsdFlavor_eq, if_neg (h.not_states hfree.symm), if_pos (Or.inr hrel)]

end

/-- A stated vendor is the one guessed and warned for exactly when it is FreeBSD or OpenBSD or the
name has no OpenBSD release in it; otherwise the guess is OpenBSD. -/
theorem guessBsdFlavor_stated_iff {flavor : BsdFlavor} {name : String}
    (h : StatesOnly flavor name) :
    (guessBsdFlavor name = flavor ∧ WarnsFor flavor name ↔
      flavor = .freeBsd ∨ flavor = .openBsd ∨
        ¬ ReleaseName (toAsciiLowercase (asBytes name))) ∧
      (guessBsdFlavor name ≠ flavor → guessBsdFlavor name = .openBsd) := by
  rw [warnsFor_iff, and_self]
  by_cases hcond : flavor = .freeBsd ∨ flavor = .openBsd ∨
      ¬ ReleaseName (toAsciiLowercase (asBytes name))
  · have hguess : guessBsdFlavor name = flavor := h.guessBsdFlavor_eq_self hcond
    exact ⟨iff_of_true hguess hcond, fun hne => absurd hguess hne⟩
  · obtain ⟨hfree, hopen, hrel⟩ := by simpa only [not_or, not_not] using hcond
    have hguess : guessBsdFlavor name = .openBsd := h.guessBsdFlavor_of_release hfree hrel
    refine ⟨iff_of_false ?_ hcond, fun _ => hguess⟩
    rw [hguess]
    exact Ne.symm hopen

/-- A name without the tokens has no release in it. -/
theorem not_releaseName_of_contains {s : List UInt8}
    (h : ∀ token ∈ [asBytes "install", asBytes "cd"], contains s token = false) :
    ¬ ReleaseName s := by
  rintro ⟨token, htoken, i, d₁, d₂, -, -, pre, post, hs, hpre⟩
  have hfound : contains s token = true :=
    contains_iff.2 ⟨i, pre, [d₁, d₂] ++ post, by rw [hs, List.append_assoc], hpre⟩
  rw [h token htoken] at hfound
  contradiction

/-- A NetBSD image without a disc number. -/
theorem guessBsdFlavor_stated_iff_plainName :
    guessBsdFlavor "NetBSD-10.0-amd64.iso" = .netBsd ∧
      WarnsFor .netBsd "NetBSD-10.0-amd64.iso" := by
  have hstates : StatesOnly .netBsd "NetBSD-10.0-amd64.iso" := by
    refine ⟨by decide, ?_⟩
    intro other hother
    cases other with
    | netBsd => rfl
    | _ => exact absurd hother (by decide)
  have hplain := not_releaseName_of_contains
    (s := toAsciiLowercase (asBytes "NetBSD-10.0-amd64.iso")) (by decide)
  exact (guessBsdFlavor_stated_iff hstates).1.2 (Or.inr (Or.inr hplain))

/-- A NetBSD image whose name numbers its disc. -/
def numberedDisc : String := "NetBSD-10.0-amd64-cd01.iso"

theorem statesOnly_numberedDisc : StatesOnly .netBsd numberedDisc := by
  refine ⟨by decide, ?_⟩
  intro other hother
  cases other with
  | netBsd => rfl
  | _ => exact absurd hother (by decide)

/-- The name states NetBSD and is taken for OpenBSD. -/
theorem guessBsdFlavor_numberedDisc : StatesOnly .netBsd numberedDisc ∧
    guessBsdFlavor numberedDisc = .openBsd ∧ ¬ WarnsFor .netBsd numberedDisc := by
  have hrel : ReleaseName (toAsciiLowercase (asBytes numberedDisc)) :=
    ⟨asBytes "cd", by simp, 18, 0x30, 0x31, by decide, by decide,
      slice_length_eq_some_iff.1 (by decide)⟩
  have hguess : guessBsdFlavor numberedDisc = .openBsd := by
    rw [guessBsdFlavor_eq, if_neg (by decide), if_pos (Or.inr hrel)]
  refine ⟨statesOnly_numberedDisc, hguess, ?_⟩
  rw [warnsFor_iff, hguess]
  decide

end Osedax
