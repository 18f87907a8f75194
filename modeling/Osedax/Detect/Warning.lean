import Osedax.Detect.Classify

/-!
# The optical-only warning

The warning fires exactly on the bytes that STEP 1 and STEP 1a of the detection tree describe,
whatever the name of the image is, and it splits the optical verdicts: with it the image is not
raw-writable, without it it is.
-/

namespace Osedax

open Window Magic

/-! ## The trigger, on the bytes -/

/-- The 16 bytes of partition entry `i` are a UEFI marker (type 0xEE or 0xEF), or have a type and
a start or a length. -/
def EntryMarked (buf : List UInt8) (i : ℕ) : Prop :=
  buf.getD (446 + 16 * i + 4) 0 = 0xEE ∨ buf.getD (446 + 16 * i + 4) 0 = 0xEF ∨
    buf.getD (446 + 16 * i + 4) 0 ≠ 0 ∧
      (le32At buf (446 + 16 * i + 8) ≠ 0 ∨ le32At buf (446 + 16 * i + 12) ≠ 0)

/-- An optical filesystem that is neither compressed nor carries a partition table. -/
structure OpticalOnlyTrigger (head : List UInt8) : Prop where
  plain : ∀ c, ¬ HasMagic c head
  optical : OccursAt (asBytes "CD001") 32769 head ∨
    ∃ k < 16, OccursAt (asBytes "NSR02") (32769 + 2048 * k) head ∨
      OccursAt (asBytes "NSR03") (32769 + 2048 * k) head
  noGpt : ¬ OccursAt (asBytes "EFI PART") 512 head ∧ ¬ OccursAt (asBytes "EFI PART") 4096 head
  noTable : ¬ (OccursAt [0x55, 0xAA] 510 head ∧ ∃ i < 4, EntryMarked head i)

/-! ## The model fires on the trigger -/

/-- The two tests of branch 1a together accept an entry exactly when its bytes mark it. -/
theorem entryMarked_iff {buf : List UInt8} {i : ℕ} :
    ((entryAt buf i).isUsed || (entryAt buf i).isGptProtective || (entryAt buf i).isEsp) = true ↔
      EntryMarked buf i := by
  have htype : (entryAt buf i).partType = buf.getD (446 + 16 * i + 4) 0 := by rw [entryAt_eq]
  rw [Bool.or_eq_true, Bool.or_eq_true, isUsed_entryAt_iff, MbrPartition.isGptProtective,
    MbrPartition.isEsp, htype, beq_iff_eq, beq_iff_eq, EntryMarked]
  tauto

theorem isSome_bsdWarning_iff {kind : ImageKind} {name : String} :
    (bsdWarning kind name).isSome = true ↔ ∃ udf et, kind = .iso .opticalOnly udf et := by
  cases kind with
  | iso hybrid udf et => cases hybrid <;> simp [bsdWarning]
  | _ => simp [bsdWarning]

theorem isDdWritable_eq_false_iff {hybrid : IsoHybrid} :
    hybrid.isDdWritable = false ↔ hybrid = .opticalOnly := by
  cases hybrid <;> decide

theorem classify_opticalOnly_iff {head : List UInt8} :
    (∃ udf et, classify head = .iso .opticalOnly udf et) ↔ OpticalOnlyTrigger head := by
  have hoptical : hasIso9660 head = true ∨ hasUdf head = true ↔
      OccursAt (asBytes "CD001") 32769 head ∨
        ∃ k < 16, OccursAt (asBytes "NSR02") (32769 + 2048 * k) head ∨
          OccursAt (asBytes "NSR03") (32769 + 2048 * k) head := by
    rw [hasIso9660_iff, hasUdf_iff]
    rfl
  have hhybrid : classifyHybrid head = .opticalOnly ↔
      (¬ OccursAt (asBytes "EFI PART") 512 head ∧ ¬ OccursAt (asBytes "EFI PART") 4096 head) ∧
        ¬ (OccursAt [0x55, 0xAA] 510 head ∧ ∃ i < 4, EntryMarked head i) := by
    rw [← isDdWritable_eq_false_iff, ← Bool.not_eq_true, isDdWritable_classifyHybrid_iff, not_or,
      hasGpt_iff, not_or, someEntry_iff, mbrSignature_iff]
    simp only [entryMarked_iff]
    rfl
  apply Iff.intro
  · intro ⟨udf, et, h⟩
    obtain ⟨hnone, hopt, hhyb, -, -⟩ := classify_eq_iso_iff.1 h
    obtain ⟨hgpt, htable⟩ := hhybrid.1 hhyb
    exact ⟨detectCompression_eq_none_iff.1 hnone, hoptical.1 hopt, hgpt, htable⟩
  · intro ⟨hnone, hopt, hgpt, htable⟩
    exact ⟨_, _, classify_eq_iso_iff.2
      ⟨detectCompression_eq_none_iff.2 hnone, hoptical.2 hopt, hhybrid.2 ⟨hgpt, htable⟩, rfl, rfl⟩⟩

/-- The warning fires exactly on its trigger and whatever the name; a verdict that carries it is
never raw-writable, and an optical verdict without it always is. -/
theorem inspect_warning (head : List UInt8) (name : String) :
    ((inspect head name).bsdWarning.isSome = true ↔ OpticalOnlyTrigger head) ∧
    (∀ name', (inspect head name').bsdWarning.isSome = (inspect head name).bsdWarning.isSome ∧
      (inspect head name').kind = (inspect head name).kind ∧
      (inspect head name').isDdWritable = (inspect head name).isDdWritable) ∧
    ((inspect head name).bsdWarning.isSome = true → (inspect head name).isDdWritable = false) ∧
    ∀ hybrid udf et, (inspect head name).kind = .iso hybrid udf et →
      (inspect head name).bsdWarning = none → (inspect head name).isDdWritable = true := by
  have hfires (name : String) : (inspect head name).bsdWarning.isSome = true ↔
      ∃ udf et, classify head = .iso .opticalOnly udf et := isSome_bsdWarning_iff
  refine ⟨(hfires name).trans classify_opticalOnly_iff, fun name' => ⟨?_, rfl, rfl⟩, ?_, ?_⟩
  · rw [Bool.eq_iff_iff, hfires, hfires]
  · intro h
    obtain ⟨udf, et, hkind⟩ := (hfires name).1 h
    simp only [Verdict.isDdWritable, inspect, hkind]
    rfl
  · intro hybrid udf et hkind hnone
    have hne : hybrid ≠ .opticalOnly := by
      rintro rfl
      have hsome := (hfires name).2 ⟨udf, et, hkind⟩
      rw [hnone] at hsome
      exact Bool.false_ne_true hsome
    unfold Verdict.isDdWritable
    rw [hkind]
    exact Bool.eq_true_of_not_eq_false fun h => hne (isDdWritable_eq_false_iff.1 h)

end Osedax
