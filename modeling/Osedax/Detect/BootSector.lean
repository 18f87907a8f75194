import Osedax.Detect.Classify

/-!
# NTFS boot sectors

Bytes 446 to 510 of an NTFS boot sector are boot code and message text.  The tree asks for a
partition table before it asks for a filesystem, so it reads these bytes as four partition entries:
an NTFS volume is recognized exactly when none of them looks used.
-/

namespace Osedax

open Window Magic

/-- The head of an NTFS volume: jump, OEM id and boot signature, and nothing that makes the image
optical or a GPT disk. -/
structure NtfsVolume (head : List UInt8) : Prop where
  jump : head.getD 0 0 = 0xEB ∧ head.getD 2 0 = 0x90 ∨ head.getD 0 0 = 0xE9
  oemId : OccursAt (asBytes "NTFS    ") 3 head
  signature : OccursAt [0x55, 0xAA] 510 head
  notOptical : ∀ k < 16, ∀ id ∈ [iso9660Magic, udfNsr02, udfNsr03],
    ¬ OccursAt id (32769 + 2048 * k) head
  notGpt : ¬ OccursAt gptMagic 512 head ∧ ¬ OccursAt gptMagic 4096 head

/-- The 16 bytes of slot `i` read as an empty partition entry: the type byte is zero, or the eight
bytes of start and length are. -/
def EmptySlot (head : List UInt8) (i : ℕ) : Prop :=
  head.getD (446 + 16 * i + 4) 0 = 0 ∨ ∀ j, 8 ≤ j → j < 16 → head.getD (446 + 16 * i + j) 0 = 0

theorem isUsed_entryAt_eq_false_iff {head : List UInt8} {i : ℕ} :
    (entryAt head i).isUsed = false ↔ EmptySlot head i := by
  rw [← Bool.not_eq_true, isUsed_entryAt_iff, not_and_or, not_not, ← not_and_or, not_not,
    le32At_eq_zero_iff, le32At_eq_zero_iff, EmptySlot]
  simp only [Nat.add_assoc]
  refine or_congr_right ?_
  apply Iff.intro
  · rintro ⟨hstart, hsectors⟩ j hlo hhi
    by_cases hj : j < 12
    · have := hstart (j - 8) (by omega)
      rwa [Nat.add_sub_cancel' hlo] at this
    · have := hsectors (j - 12) (by omega)
      rwa [Nat.add_sub_cancel' (by omega)] at this
  · intro h
    exact ⟨fun j hj => h (8 + j) (by omega) (by omega),
      fun j hj => h (12 + j) (by omega) (by omega)⟩

namespace NtfsVolume

variable {head : List UInt8} (h : NtfsVolume head)

include h

theorem getD_zero : head.getD 0 0 = 0xEB ∨ head.getD 0 0 = 0xE9 := h.jump.imp_left And.left

theorem detectCompression_eq_none : detectCompression head = none := by
  rw [detectCompression_eq_none_iff]
  intro c
  apply not_hasMagic_of_first
  rcases h.getD_zero with hb | hb <;> rw [hb] <;> cases c <;> decide

theorem hasIso9660_eq_false : hasIso9660 head = false := by
  rw [← Bool.not_eq_true, hasIso9660_iff]
  exact h.notOptical 0 (by decide) _ (by simp)

theorem hasUdf_eq_false : hasUdf head = false := by
  rw [← Bool.not_eq_true, hasUdf_iff]
  rintro ⟨k, hk, hnsr | hnsr⟩
  · exact h.notOptical k hk _ (by simp) hnsr
  · exact h.notOptical k hk _ (by simp) hnsr

theorem isWim_eq_false : isWim head = false := by
  rw [← Bool.not_eq_true, isWim_iff]
  rintro (hw | hw)
  all_goals
    have hb := hw.getD_eq (i := 0) (by decide) 0
    rw [Nat.add_zero] at hb
    rcases h.getD_zero with hj | hj <;> exact absurd (hj.symm.trans hb) (by decide)

theorem hasGpt_eq_false : hasGpt head = false := by
  rw [← Bool.not_eq_true, hasGpt_iff, not_or]
  exact h.notGpt

theorem isNtfsBootsector_eq_true : isNtfsBootsector head = true :=
  isNtfsBootsector_iff.2
    ⟨isFatOrNtfsBootsector_iff.2 ⟨mbrSignature_iff.2 h.signature, h.jump⟩, h.oemId⟩

theorem classify_eq : classify head =
    if hasMbrPartitionTable head then .diskImage false else .bareFilesystem .ntfs := by
  rw [classify_of_raw h.detectCompression_eq_none h.hasIso9660_eq_false h.hasUdf_eq_false
    h.isWim_eq_false, h.hasGpt_eq_false, h.isNtfsBootsector_eq_true]
  rfl

theorem hasMbrPartitionTable_eq_false_iff :
    hasMbrPartitionTable head = false ↔ ∀ i < 4, EmptySlot head i := by
  rw [← Bool.not_eq_true, hasMbrPartitionTable_iff, mbrSignature_iff, and_iff_right h.signature]
  push Not
  simp only [← isUsed_entryAt_eq_false_iff, Bool.not_eq_true]

end NtfsVolume

/-- An NTFS volume is recognized exactly when the four slots of its boot code read as empty
partition entries; otherwise it is taken for a partitioned disk. -/
theorem classify_ntfsVolume_iff {head : List UInt8} (h : NtfsVolume head) :
    (classify head = .bareFilesystem .ntfs ↔ ∀ i < 4, EmptySlot head i) ∧
      (classify head ≠ .bareFilesystem .ntfs → classify head = .diskImage false) := by
  rw [h.classify_eq, ← h.hasMbrPartitionTable_eq_false_iff]
  cases hasMbrPartitionTable head <;> simp

/-- The boot sector of an NTFS volume with the given contents from byte 446 on. -/
def ntfsBootSector (code : List UInt8) : List UInt8 :=
  [0xEB, 0x52, 0x90] ++ (asBytes "NTFS    " ++ (List.replicate 435 0 ++ (code ++ [0x55, 0xAA])))

theorem length_ntfsBootSector (code : List UInt8) :
    (ntfsBootSector code).length = 448 + code.length := by
  have hid : (asBytes "NTFS    ").length = 8 := by decide
  simp only [ntfsBootSector, List.length_append, List.length_replicate, hid, List.length_cons,
    List.length_nil]
  omega

theorem ntfsVolume_ntfsBootSector {code : List UInt8} (hlen : code.length = 64) :
    NtfsVolume (ntfsBootSector code) := by
  have hsize := length_ntfsBootSector code
  have short {w : List UInt8} {off : ℕ} (hoff : 512 < off + w.length) :
      ¬ OccursAt w off (ntfsBootSector code) := by
    intro h
    have := h.length_le
    omega
  have hid : ∀ id ∈ [iso9660Magic, udfNsr02, udfNsr03], id.length = 5 := by decide
  refine ⟨Or.inl ⟨rfl, rfl⟩, ⟨[0xEB, 0x52, 0x90], _, rfl, rfl⟩, ?signature, ?optical,
    ⟨short (by decide), short (by decide)⟩⟩
  case signature =>
    refine ⟨[0xEB, 0x52, 0x90] ++ (asBytes "NTFS    " ++ (List.replicate 435 0 ++ code)), [],
      ?_, ?_⟩
    · simp only [ntfsBootSector, List.append_assoc, List.append_nil]
    · have hoem : (asBytes "NTFS    ").length = 8 := by decide
      simp only [List.length_append, List.length_replicate, hoem, hlen, List.length_cons,
        List.length_nil]
  case optical =>
    intro k _ id hmem
    exact short (by rw [hid id hmem]; omega)

/-- Message text of the kind that a boot sector ends in. -/
def bootMessage : List UInt8 :=
  asBytes "BOOTMGR is compressed\r\nPress Ctrl+Alt+Del to restart\r\n" ++ List.replicate 10 0

/-- The volume is taken for a partitioned disk because of its error message. -/
theorem classify_bootMessage : NtfsVolume (ntfsBootSector bootMessage) ∧
    classify (ntfsBootSector bootMessage) = .diskImage false := by
  have hvolume : NtfsVolume (ntfsBootSector bootMessage) :=
    ntfsVolume_ntfsBootSector (by decide)
  have htable : hasMbrPartitionTable (ntfsBootSector bootMessage) = true := by decide +kernel
  refine ⟨hvolume, ?_⟩
  rw [hvolume.classify_eq, htable]
  rfl

theorem classify_ntfsVolume_iff_empty :
    (classify (ntfsBootSector (List.replicate 64 0)) = .bareFilesystem .ntfs ↔
      ∀ i < 4, EmptySlot (ntfsBootSector (List.replicate 64 0)) i) ∧
    (classify (ntfsBootSector (List.replicate 64 0)) ≠ .bareFilesystem .ntfs →
      classify (ntfsBootSector (List.replicate 64 0)) = .diskImage false) :=
  classify_ntfsVolume_iff (ntfsVolume_ntfsBootSector List.length_replicate)

end Osedax
