import Osedax.Device.Mounts

/-!
# Attribution of mounts to disks

A kernel partition name of a disk is the name of the disk with a number, after a `p` when the disk
name ends with a digit itself.  `isPartitionOf` decides exactly that.  In a set of names that the
kernel can give to distinct disks no device node belongs to two disks: the name without its
trailing digits is the disk name, or the disk name with the `p`.
-/

namespace Osedax

/-- What the kernel puts the number of a partition after. -/
def partitionStem (disk : String) : String := if endsWithDigit disk then disk ++ "p" else disk

/-- `part` is what the kernel calls a partition of `disk`. -/
def IsKernelPartition (disk part : String) : Prop :=
  ∃ digits : String, digits ≠ "" ∧ (∀ c ∈ digits.toList, c.isDigit) ∧
    part = partitionStem disk ++ digits

/-- The device node `dev` is the disk or one of its partitions. -/
def OwnsNode (disk dev : String) : Prop := dev = disk ∨ IsKernelPartition disk dev

/-- Names that distinct disks can have at the same time. -/
structure DiskNames (disks : Set String) : Prop where
  not_partition : ∀ d ∈ disks, ∀ e ∈ disks, d ≠ e → ¬ IsKernelPartition d e
  not_concat_p : ∀ d ∈ disks, ∀ e ∈ disks, endsWithDigit d → e ≠ d ++ "p"

/-! ## The test is the kernel's naming -/

theorem isPartitionNumber_iff {s : String} :
    isPartitionNumber s ↔ s ≠ "" ∧ ∀ c ∈ s.toList, c.isDigit := by
  unfold isPartitionNumber
  rw [Bool.and_eq_true, all_isAsciiDigit, List.all_eq_true,
    Bool.not_eq_true', String.isEmpty_eq_false_iff]

theorem any_stripPrefix_iff {s pre : String} {test : String → Bool} :
    (stripPrefix s pre).any test ↔ ∃ rest, s = pre ++ rest ∧ test rest := by
  rw [Option.any_eq_true]
  exact exists_congr fun rest => and_congr_left fun _ => stripPrefix_eq_some_iff

theorem isPartitionOf_iff {disk part : String} :
    isPartitionOf disk part ↔ IsKernelPartition disk part := by
  have hstem : isPartitionOf disk part ↔
      ∃ digits, part = partitionStem disk ++ digits ∧ isPartitionNumber digits := by
    unfold isPartitionOf
    rw [any_stripPrefix_iff, partitionStem]
    by_cases hdigit : endsWithDigit disk
    · simp only [if_pos hdigit, any_stripPrefix_iff]
      apply Iff.intro
      · rintro ⟨-, rfl, digits, rfl, h⟩
        exact ⟨digits, (String.append_assoc ..).symm, h⟩
      · rintro ⟨digits, rfl, h⟩
        exact ⟨"p" ++ digits, String.append_assoc .., digits, rfl, h⟩
    · simp only [if_neg hdigit]
  rw [hstem]
  refine exists_congr fun digits => ?_
  rw [isPartitionNumber_iff, and_comm, and_assoc]

example : isPartitionOf "sda" "sda15" = true ∧ isPartitionOf "mmcblk0" "mmcblk0p2" = true ∧
    isPartitionOf "nvme0n1" "nvme0n11" = false := by decide

theorem ownsNode_iff {disk dev : String} :
    (dev == disk || isPartitionOf disk dev) = true ↔ OwnsNode disk dev := by
  rw [Bool.or_eq_true, beq_iff_eq, isPartitionOf_iff, OwnsNode]

instance (disk dev : String) : Decidable (OwnsNode disk dev) :=
  decidable_of_iff _ ownsNode_iff

theorem mountsFor_eq (disk : String) (mounts : List (String × Path)) :
    mountsFor disk mounts =
      (mounts.filter fun entry => OwnsNode disk entry.1).map fun entry => ⟨entry.2⟩ := by
  unfold mountsFor
  congr 1
  refine List.filter_congr fun entry _ => ?_
  rw [Bool.eq_iff_iff, decide_eq_true_eq]
  exact ownsNode_iff

/-! ## A node has one owner -/

/-- The name of a partition without its number is the stem. -/
theorem rdropWhile_isDigit {stem digits : String} (hstem : endsWithDigit stem = false)
    (hdigits : ∀ c ∈ digits.toList, c.isDigit) :
    (stem ++ digits).toList.rdropWhile Char.isDigit = stem.toList := by
  rw [String.toList_append, List.rdropWhile, List.reverse_append,
    List.dropWhile_append_of_pos fun c hc => hdigits c (List.mem_reverse.1 hc)]
  unfold endsWithDigit at hstem
  rw [← List.head?_reverse] at hstem
  cases hrev : stem.toList.reverse with
  | nil => exact (List.reverse_eq_nil_iff.1 hrev).symm
  | cons c cs =>
    rw [hrev] at hstem
    have hc : ¬ c.isDigit = true := by
      rw [show c.isDigit = false from hstem]
      exact Bool.false_ne_true
    rw [List.dropWhile_cons_of_neg hc, ← hrev, List.reverse_reverse]

theorem endsWithDigit_partitionStem (disk : String) :
    endsWithDigit (partitionStem disk) = false := by
  unfold partitionStem
  split
  · unfold endsWithDigit
    rw [String.toList_append]
    show (disk.toList ++ ['p']).getLast?.any Char.isDigit = false
    rw [List.getLast?_concat]
    rfl
  · rename_i h
    exact Bool.eq_false_iff.2 h

theorem IsKernelPartition.stem_eq {d e part : String} (hd : IsKernelPartition d part)
    (he : IsKernelPartition e part) : partitionStem d = partitionStem e := by
  obtain ⟨digits, -, hdigits, rfl⟩ := hd
  obtain ⟨digits', -, hdigits', heq⟩ := he
  apply String.toList_injective
  rw [← rdropWhile_isDigit (endsWithDigit_partitionStem d) hdigits, heq,
    rdropWhile_isDigit (endsWithDigit_partitionStem e) hdigits']

section

variable {disks : Set String} (h : DiskNames disks) {d e dev : String} (hd : d ∈ disks)
  (he : e ∈ disks)

include h hd he

theorem DiskNames.eq_of_stem_eq (hstem : partitionStem d = partitionStem e) : d = e := by
  unfold partitionStem at hstem
  by_cases hdd : endsWithDigit d <;> by_cases hee : endsWithDigit e
  · rw [if_pos hdd, if_pos hee] at hstem
    exact (String.append_left_inj "p").1 hstem
  · rw [if_pos hdd, if_neg hee] at hstem
    exact absurd hstem.symm (h.not_concat_p d hd e he hdd)
  · rw [if_neg hdd, if_pos hee] at hstem
    exact absurd hstem (h.not_concat_p e he d hd hee)
  · rwa [if_neg hdd, if_neg hee] at hstem

theorem DiskNames.eq_of_ownsNode (hown : OwnsNode d dev) (hown' : OwnsNode e dev) : d = e := by
  by_contra hne
  cases hown with
  | inl hdev =>
    cases hown' with
    | inl hdev' => exact hne (hdev.symm.trans hdev')
    | inr hpart => exact h.not_partition e he d hd (Ne.symm hne) (hdev ▸ hpart)
  | inr hpart =>
    cases hown' with
    | inl hdev' => exact h.not_partition d hd e he hne (hdev' ▸ hpart)
    -- both are read off the node by dropping its trailing digits
    | inr hpart' => exact hne (h.eq_of_stem_eq hd he (hpart.stem_eq hpart'))

end

theorem mountsFor_singleton_ne_nil_iff {disk : String} {entry : String × Path} :
    mountsFor disk [entry] ≠ [] ↔ OwnsNode disk entry.1 := by
  rw [mountsFor_eq]
  by_cases hown : OwnsNode disk entry.1
  · simp [hown]
  · simp [hown]

/-- Every mount is attributed to the disk that owns its device node, and to no other disk. -/
theorem mountsFor_attribution {disks : Set String} (h : DiskNames disks)
    (mounts : List (String × Path)) :
    (∀ entry ∈ mounts, ∀ d ∈ disks, ∀ e ∈ disks,
      mountsFor d [entry] ≠ [] → mountsFor e [entry] ≠ [] → d = e) ∧
    (∀ d ∈ disks, ∀ entry ∈ mounts,
      mountsFor d [entry] = [⟨entry.2⟩] ↔ entry.1 = d ∨ IsKernelPartition d entry.1) ∧
    ∀ d ∈ disks, mountsFor d mounts =
      (mounts.filter fun entry => OwnsNode d entry.1).map fun entry => ⟨entry.2⟩ := by
  refine ⟨fun entry _ d hd e he hown hown' => ?_, fun d _ entry _ => ?_, fun d _ => ?_⟩
  · exact h.eq_of_ownsNode hd he (mountsFor_singleton_ne_nil_iff.1 hown)
      (mountsFor_singleton_ne_nil_iff.1 hown')
  · rw [mountsFor_eq]
    by_cases hown : OwnsNode d entry.1
    · exact iff_of_true (by simp [hown]) hown
    · exact iff_of_false (by simp [hown]) hown
  · exact mountsFor_eq d mounts

/-- A disk whose name continues another's, twice. -/
def sampleNames : List String := ["sda", "sdaa", "nvme0n1", "nvme0n11"]

theorem diskNames_sampleNames : DiskNames {d | d ∈ sampleNames} where
  not_partition d hd e he hne hpart := by
    have hdec : ∀ d ∈ sampleNames, ∀ e ∈ sampleNames, d ≠ e → ¬ isPartitionOf d e := by decide
    exact hdec d hd e he hne (isPartitionOf_iff.2 hpart)
  not_concat_p d hd e he := by
    have hdec : ∀ d ∈ sampleNames, ∀ e ∈ sampleNames, endsWithDigit d → e ≠ d ++ "p" := by decide
    exact hdec d hd e he

theorem mountsFor_attribution_sampleNames :
    mountsFor "nvme0n1" [("nvme0n11p1", Path.ofString "/srv"), ("nvme0n1p1", Path.root)] =
      [⟨Path.root⟩] := by
  have hmem : "nvme0n1" ∈ {d | d ∈ sampleNames} := List.mem_of_elem_eq_true rfl
  rw [(mountsFor_attribution diskNames_sampleNames _).2.2 "nvme0n1" hmem]
  decide

end Osedax
