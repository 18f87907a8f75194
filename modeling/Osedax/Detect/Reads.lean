import Osedax.Detect.HeadLength

/-!
# The verdict sees the probe windows only

Two heads of at least `detectionHeadLen` bytes that agree on `probeWindows` get the same verdict,
whatever else is in them and however long they are.
-/

namespace Osedax

open Window Magic

/-- The bytes that the probes are documented to look at: the leading magics and the OEM id, the
type, start and length of the partition entries, the boot signature with the GPT header at 512,
the ext superblock magic, the GPT header at 4096, the identifiers of the sixteen descriptors of the
Volume Recognition Sequence and the El Torito boot record up to the end of its system id. -/
def probeWindows : Set ℕ :=
  {i | i < 11 ∨ (∃ k < 4, i = 446 + 16 * k + 4 ∨ 446 + 16 * k + 8 ≤ i ∧ i < 446 + 16 * k + 16) ∨
    510 ≤ i ∧ i < 520 ∨ 1080 ≤ i ∧ i < 1082 ∨ 4096 ≤ i ∧ i < 4104 ∨
    (∃ k < 16, 32769 + 2048 * k ≤ i ∧ i < 32769 + 2048 * k + 5) ∨ 34816 ≤ i ∧ i < 34846}

theorem bootReads_subset : bootReads ⊆ probeWindows := by
  rintro i (hi | ⟨k, hk, hi⟩ | hi | hi | hi)
  · exact Or.inl hi
  · exact Or.inr (Or.inl ⟨k, hk, by omega⟩)
  all_goals
    simp only [probeWindows, Set.mem_ofPred_eq]
    omega

theorem opticalReads_subset : opticalReads ⊆ probeWindows := by
  rintro i (hi | hi)
  · exact Or.inr (Or.inr (Or.inr (Or.inr (Or.inr (Or.inl ⟨0, by decide, by omega⟩)))))
  · exact Or.inr (Or.inr (Or.inr (Or.inr (Or.inr (Or.inr hi)))))

theorem descriptor_subset {k : ℕ} (hk : k < 16) :
    Set.Ico (32769 + 2048 * k) (32769 + 2048 * k + 5) ⊆ probeWindows :=
  fun _ ⟨hlo, hhi⟩ => Or.inr (Or.inr (Or.inr (Or.inr (Or.inr (Or.inl ⟨k, hk, hlo, hhi⟩)))))

section

variable {a b : List UInt8} (h : AgreeOn probeWindows a b)

include h

theorem hasUdf_eq_of_agree : hasUdf a = hasUdf b := by
  rw [Bool.eq_iff_iff, hasUdf_iff, hasUdf_iff]
  exact exists_congr fun k => and_congr_right fun hk =>
    nsrAt_congr h (descriptor_subset hk)

theorem classify_eq_of_agree (ha : detectionHeadLen ≤ a.length)
    (hb : detectionHeadLen ≤ b.length) : classify a = classify b := by
  simp only [detectionHeadLen] at ha hb
  have hsame : SameProbes a b := sameProbes_of_agree (h.mono bootReads_subset)
    (h.mono opticalReads_subset) (by omega) (by omega)
  exact hsame.classify_eq (hasUdf_eq_of_agree h)

end

/-- Bytes written outside the probe windows do not change the verdict. -/
theorem inspect_overwrite {buf w : List UInt8} {off : ℕ} (hlen : detectionHeadLen ≤ buf.length)
    (hw : off + w.length ≤ buf.length)
    (hout : ∀ i ∈ probeWindows, i < off ∨ off + w.length ≤ i) (name : String) :
    inspect (overwrite buf off w) name = inspect buf name :=
  inspect_eq_iff.2
    (classify_eq_of_agree (agreeOn_overwrite hw hout) (by rwa [length_overwrite hw]) hlen)

/-- The verdict depends on nothing outside the probe windows. -/
theorem inspect_eq_of_agree {a b : List UInt8} (ha : detectionHeadLen ≤ a.length)
    (hb : detectionHeadLen ≤ b.length) (h : AgreeOn probeWindows a b) (name : String) :
    inspect a name = inspect b name :=
  inspect_eq_iff.2 (classify_eq_of_agree h ha hb)

theorem lt_of_mem_probeWindows {i : ℕ} (hi : i ∈ probeWindows) : i < detectionHeadLen := by
  simp only [detectionHeadLen]
  rcases hi with hi | ⟨k, hk, hi⟩ | hi | hi | hi | ⟨k, hk, hi⟩ | hi <;> omega

/-- No probe reads between the leading magics and the partition table. -/
theorem lt_or_le_of_mem_probeWindows {i : ℕ} (hi : i ∈ probeWindows) : i < 11 ∨ 446 ≤ i := by
  rcases hi with hi | ⟨k, hk, hi⟩ | hi | hi | hi | ⟨k, hk, hi⟩ | hi <;> omega

/-- One head has other bytes between the leading magics and the partition table, the other is
longer. -/
theorem inspect_eq_of_agree_filled :
    inspect (overwrite (List.replicate detectionHeadLen 0) 11 (List.replicate 435 0xFF)) "" =
      inspect (List.replicate detectionHeadLen 0 ++ [0x55, 0xAA]) "" := by
  have hlen : (List.replicate detectionHeadLen (0 : UInt8)).length = detectionHeadLen :=
    List.length_replicate
  have hgap : 11 + (List.replicate 435 (0xFF : UInt8)).length = 446 := by
    rw [List.length_replicate]
  have hfits : 11 + (List.replicate 435 (0xFF : UInt8)).length ≤
      (List.replicate detectionHeadLen (0 : UInt8)).length := by
    rw [hgap, hlen]
    decide
  have hfilled : AgreeOn probeWindows
      (overwrite (List.replicate detectionHeadLen (0 : UInt8)) 11 (List.replicate 435 0xFF))
      (List.replicate detectionHeadLen 0) := by
    refine agreeOn_overwrite hfits fun i hi => ?_
    rw [hgap]
    exact lt_or_le_of_mem_probeWindows hi
  have hlonger : AgreeOn probeWindows (List.replicate detectionHeadLen (0 : UInt8))
      (List.replicate detectionHeadLen 0 ++ [0x55, 0xAA]) := by
    refine agreeOn_of_extension (List.prefix_append _ _) fun i hi => ?_
    rw [hlen]
    exact lt_of_mem_probeWindows hi
  refine inspect_eq_of_agree ?_ ?_ (hfilled.trans hlonger) ""
  · rw [length_overwrite hfits, hlen]
  · rw [List.length_append, hlen]
    exact Nat.le_add_right _ _

end Osedax
