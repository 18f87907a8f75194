import Osedax.Detect.Classify

/-!
# Reading more of an image

Every probe that fires on a head keeps firing on each longer head (the `_mono` lemmas), so the
first step of the tree that fires can only move up (`rank_classify`).  Once a head is optical it
already contains everything branch 1a reads, so its hybrid verdict is final.
-/

namespace Osedax

open Window

/-- The kinds in the order of the tree, the first step highest. -/
def ImageKind.rank : ImageKind → ℕ
  | .unknown => 0
  | .bareFilesystem .ext => 1
  | .bareFilesystem .fat => 2
  | .bareFilesystem .ntfs => 3
  | .diskImage false => 4
  | .diskImage true => 5
  | .wim => 6
  | .iso _ _ _ => 7
  | .compressed _ => 8

/-- The tests of `classify`, in the order in which it makes them. -/
def treeSteps : List (List UInt8 → Bool) :=
  [fun head => (Magic.detectCompression head).isSome,
    fun head => Magic.hasIso9660 head || Magic.hasUdf head, Magic.isWim, Magic.hasGpt,
    Magic.hasMbrPartitionTable, Magic.isNtfsBootsector, Magic.isFatOrNtfsBootsector, Magic.isExt]

/-- The rank of a verdict is fixed by the first test that fires. -/
theorem rank_classify (head : List UInt8) :
    (classify head).rank + treeSteps.findIdx (fun test => test head) = 8 := by
  unfold classify treeSteps
  cases hc : Magic.detectCompression head with
  | some c => simp [List.findIdx_cons, ImageKind.rank, hc]
  | none =>
    simp only [List.findIdx_cons, hc, Option.isSome_none, cond_false]
    cases (Magic.hasIso9660 head || Magic.hasUdf head) <;> [skip; rfl]
    cases Magic.isWim head <;> [skip; rfl]
    cases Magic.hasGpt head <;> [skip; rfl]
    cases Magic.hasMbrPartitionTable head <;> [skip; rfl]
    cases Magic.isNtfsBootsector head <;> [skip; rfl]
    cases Magic.isFatOrNtfsBootsector head <;> [skip; rfl]
    cases Magic.isExt head <;> rfl

/-! ## No probe is retracted -/

section Mono

variable {a b : List UInt8} (hp : a <+: b)

include hp

theorem detectCompression_mono {c : Magic.Compression} (h : Magic.detectCompression a = some c) :
    Magic.detectCompression b = some c :=
  Magic.detectCompression_eq_some_iff.2 ((Magic.detectCompression_eq_some_iff.1 h).mono hp)

theorem hasIso9660_mono (h : Magic.hasIso9660 a = true) : Magic.hasIso9660 b = true :=
  Magic.hasIso9660_iff.2 ((Magic.hasIso9660_iff.1 h).mono hp)

theorem hasUdf_mono (h : Magic.hasUdf a = true) : Magic.hasUdf b = true := by
  obtain ⟨k, hk, hnsr⟩ := Magic.hasUdf_iff.1 h
  exact Magic.hasUdf_iff.2 ⟨k, hk, hnsr.mono hp⟩

theorem isSome_elTorito_mono (h : (Magic.elTorito a).isSome = true) :
    (Magic.elTorito b).isSome = true := by
  obtain ⟨hlen, htype, hmagic, hid⟩ := Magic.isSome_elTorito_iff.1 h
  exact Magic.isSome_elTorito_iff.2
    ⟨hlen.trans hp.length_le, htype.mono hp, hmagic.mono hp, hid.mono hp⟩

theorem isWim_mono (h : Magic.isWim a = true) : Magic.isWim b = true :=
  Magic.isWim_iff.2 ((Magic.isWim_iff.1 h).imp (OccursAt.mono hp) (OccursAt.mono hp))

theorem hasGpt_mono (h : Magic.hasGpt a = true) : Magic.hasGpt b = true :=
  Magic.hasGpt_iff.2 ((Magic.hasGpt_iff.1 h).imp (OccursAt.mono hp) (OccursAt.mono hp))

theorem mbrSignature_mono (h : Magic.mbrSignature a = true) : Magic.mbrSignature b = true :=
  Magic.mbrSignature_iff.2 ((Magic.mbrSignature_iff.1 h).mono hp)

theorem getD_eq_of_extension {i : ℕ} (hi : i < a.length) : a.getD i 0 = b.getD i 0 :=
  (agreeOn_of_extension (S := {i}) hp fun _ hj => hj ▸ hi).getD_eq rfl 0

/-- A signed table is complete, so its entries do not change any more. -/
theorem someEntry_mono {p : Magic.MbrPartition → Bool} (h : someEntry p a = true) :
    someEntry p b = true := by
  obtain ⟨hs, i, hi, he⟩ := someEntry_iff.1 h
  have hlen := Magic.le_length_of_mbrSignature hs
  have hbyte : ∀ j < 16, a.getD (446 + 16 * i + j) 0 = b.getD (446 + 16 * i + j) 0 :=
    fun j hj => getD_eq_of_extension hp (by omega)
  refine someEntry_iff.2 ⟨mbrSignature_mono hp hs, i, hi, ?_⟩
  rw [Magic.entryAt_eq] at he ⊢
  have hstatus := hbyte 0 (by decide)
  rw [Nat.add_zero] at hstatus
  simpa only [hstatus, hbyte, Nat.reduceLT] using he

theorem hasMbrPartitionTable_mono (h : Magic.hasMbrPartitionTable a = true) :
    Magic.hasMbrPartitionTable b = true := by
  rw [hasMbrPartitionTable_eq_someEntry] at h ⊢
  exact someEntry_mono hp h

theorem isFatOrNtfsBootsector_mono (h : Magic.isFatOrNtfsBootsector a = true) :
    Magic.isFatOrNtfsBootsector b = true := by
  obtain ⟨hs, hjump⟩ := Magic.isFatOrNtfsBootsector_iff.1 h
  have hlen := Magic.le_length_of_mbrSignature hs
  rw [getD_eq_of_extension hp (by omega : 0 < a.length),
    getD_eq_of_extension hp (by omega : 2 < a.length)] at hjump
  exact Magic.isFatOrNtfsBootsector_iff.2 ⟨mbrSignature_mono hp hs, hjump⟩

theorem isNtfsBootsector_mono (h : Magic.isNtfsBootsector a = true) :
    Magic.isNtfsBootsector b = true := by
  obtain ⟨hboot, hid⟩ := Magic.isNtfsBootsector_iff.1 h
  exact Magic.isNtfsBootsector_iff.2 ⟨isFatOrNtfsBootsector_mono hp hboot, hid.mono hp⟩

theorem isExt_mono (h : Magic.isExt a = true) : Magic.isExt b = true :=
  Magic.isExt_iff.2 ((Magic.isExt_iff.1 h).mono hp)

theorem treeSteps_mono {test : List UInt8 → Bool} (ht : test ∈ treeSteps) (h : test a = true) :
    test b = true := by
  simp only [treeSteps, List.mem_cons, List.not_mem_nil, or_false] at ht
  rcases ht with rfl | rfl | rfl | rfl | rfl | rfl | rfl | rfl
  · obtain ⟨c, hc⟩ := Option.isSome_iff_exists.1 h
    exact Option.isSome_iff_exists.2 ⟨c, detectCompression_mono hp hc⟩
  · rw [Bool.or_eq_true] at h ⊢
    exact h.imp (hasIso9660_mono hp) (hasUdf_mono hp)
  · exact isWim_mono hp h
  · exact hasGpt_mono hp h
  · exact hasMbrPartitionTable_mono hp h
  · exact isNtfsBootsector_mono hp h
  · exact isFatOrNtfsBootsector_mono hp h
  · exact isExt_mono hp h

theorem rank_classify_le : (classify a).rank ≤ (classify b).rank := by
  have hstep : treeSteps.findIdx (fun test => test b) ≤ treeSteps.findIdx fun test => test a :=
    List.findIdx_le_findIdx fun _ ht => treeSteps_mono hp ht
  have ha := rank_classify a
  have hb := rank_classify b
  omega

theorem classify_compressed_mono {c : Magic.Compression} (h : classify a = .compressed c) :
    classify b = .compressed c :=
  classify_eq_compressed_iff.2 (detectCompression_mono hp (classify_eq_compressed_iff.1 h))

/-- An optical head contains the boot area, so the compression probe and branch 1a are settled;
the `udf` and `elTorito` fields can only be raised. -/
theorem classify_iso_mono {hybrid : IsoHybrid} {udf et : Bool}
    (h : classify a = .iso hybrid udf et) :
    ∃ udf' et', classify b = .iso hybrid udf' et' ∧ (udf = true → udf' = true) ∧
      (et = true → et' = true) := by
  obtain ⟨hnone, hopt, rfl, rfl, rfl⟩ := classify_eq_iso_iff.1 h
  have hlen : 4104 ≤ a.length := by
    rcases hopt with hiso | hudf
    · have := (Magic.hasIso9660_iff.1 hiso).length_le
      omega
    · obtain ⟨k, -, hnsr⟩ := Magic.hasUdf_iff.1 hudf
      have := hnsr.length_le
      omega
  have hagree := agreeOn_bootReads_of_extension hp hlen
  refine ⟨Magic.hasUdf b, (Magic.elTorito b).isSome, classify_eq_iso_iff.2 ⟨?_, ?_, ?_, rfl, rfl⟩,
    hasUdf_mono hp, isSome_elTorito_mono hp⟩
  · rw [← detectCompression_eq_of_agree hagree, hnone]
  · exact hopt.imp (hasIso9660_mono hp) (hasUdf_mono hp)
  · exact (classifyHybrid_eq_of_agree hagree).symm

end Mono

/-- The warning depends on the kind through its hybrid field alone. -/
theorem bsdWarning_iso (hybrid : IsoHybrid) (udf et udf' et' : Bool) (name : String) :
    bsdWarning (.iso hybrid udf et) name = bsdWarning (.iso hybrid udf' et') name := rfl

/-- Reading on moves the verdict towards an earlier step of the tree; a compression wrapper and
an optical hybrid verdict are final. -/
theorem classify_append (head tail : List UInt8) :
    (classify head).rank ≤ (classify (head ++ tail)).rank ∧
    (∀ c, classify head = .compressed c → classify (head ++ tail) = .compressed c) ∧
    ∀ hybrid udf et, classify head = .iso hybrid udf et →
      (∃ udf' et', classify (head ++ tail) = .iso hybrid udf' et' ∧ (udf = true → udf' = true) ∧
        (et = true → et' = true)) ∧
      ∀ name, (inspect (head ++ tail) name).bsdWarning = (inspect head name).bsdWarning := by
  have hp : head <+: head ++ tail := List.prefix_append head tail
  refine ⟨rank_classify_le hp, fun c => classify_compressed_mono hp, fun hybrid udf et h => ?_⟩
  obtain ⟨udf', et', h', hudf, het⟩ := classify_iso_mono hp h
  refine ⟨⟨udf', et', h', hudf, het⟩, fun name => ?_⟩
  show bsdWarning (classify (head ++ tail)) name = bsdWarning (classify head) name
  rw [h, h']
  exact bsdWarning_iso hybrid udf' et' udf et name

end Osedax
