import Osedax.Detect.Warning

/-!
# The two tests of the partition table

STEP 3 asks for a used entry, STEP 1a for a used entry or a UEFI type marker.  Writing the ISO 9660
identifier into a head turns the first question into the second, and the answers differ exactly on
the tables whose only occupied entries are bare 0xEE/0xEF markers: entries of that type with neither
start nor length, which branch 1a counts as a UEFI signal.
-/

namespace Osedax

open Window Magic

/-- The head with an ISO 9660 identifier written into it. -/
def withIsoIdentifier (head : List UInt8) : List UInt8 := overwrite head 32769 iso9660Magic

/-- Partition entry `i` has a UEFI type but neither start nor length. -/
def BareMarker (buf : List UInt8) (i : ℕ) : Prop :=
  (buf.getD (446 + 16 * i + 4) 0 = 0xEE ∨ buf.getD (446 + 16 * i + 4) 0 = 0xEF) ∧
    le32At buf (446 + 16 * i + 8) = 0 ∧ le32At buf (446 + 16 * i + 12) = 0

theorem entryMarked_iff_isUsed {buf : List UInt8} {i : ℕ} :
    EntryMarked buf i ↔ (entryAt buf i).isUsed = true ∨ BareMarker buf i := by
  have hee : (0xEE : UInt8) ≠ 0 := by decide
  have hef : (0xEF : UInt8) ≠ 0 := by decide
  rw [isUsed_entryAt_iff, EntryMarked, BareMarker]
  grind

/-- STEP 1a alone, on a head that becomes optical. -/
theorem classify_withIsoIdentifier_iff {head : List UInt8} (hlen : 32774 ≤ head.length)
    (hplain : ∀ c, ¬ HasMagic c head) :
    (∃ hybrid udf et, classify (withIsoIdentifier head) = .iso hybrid udf et ∧
      hybrid.isDdWritable = true) ↔ (classifyHybrid head).isDdWritable = true := by
  have hagree : AgreeOn bootReads (withIsoIdentifier head) head :=
    agreeOn_overwrite hlen fun i hi => Or.inl ((lt_of_mem_bootReads hi).trans (by decide))
  have hiso : hasIso9660 (withIsoIdentifier head) = true :=
    hasIso9660_iff.2 (occursAt_overwrite hlen)
  have hnone : detectCompression (withIsoIdentifier head) = none := by
    rw [detectCompression_eq_of_agree hagree, detectCompression_eq_none_iff.2 hplain]
  simp only [classify_eq_iso_iff, classifyHybrid_eq_of_agree hagree]
  apply Iff.intro
  · rintro ⟨_, _, _, ⟨-, -, rfl, -⟩, h⟩
    exact h
  · exact fun h => ⟨_, _, _, ⟨hnone, Or.inl hiso, rfl, rfl, rfl⟩, h⟩

theorem hybrid_iff_diskImage_or_bareMarker {head : List UInt8} :
    (classifyHybrid head).isDdWritable = true ↔
      (hasGpt head = true ∨ hasMbrPartitionTable head = true) ∨
        mbrSignature head = true ∧ ∃ i < 4, BareMarker head i := by
  rw [isDdWritable_classifyHybrid_iff, someEntry_iff, hasMbrPartitionTable_iff]
  simp only [entryMarked_iff, entryMarked_iff_isUsed]
  grind

/-- A head that holds the place of the ISO identifier and reaches STEP 3. -/
structure RawHead (head : List UInt8) : Prop where
  long : 32774 ≤ head.length
  plain : ∀ c, ¬ HasMagic c head
  notWim : ¬ OccursAt wimMagic 0 head ∧ ¬ OccursAt wimPipableMagic 0 head
  notIso : ¬ OccursAt iso9660Magic 32769 head
  notUdf : ∀ k < 16, ¬ NsrAt k head

theorem RawHead.classify_diskImage_iff {head : List UInt8} (h : RawHead head) :
    (∃ gpt, classify head = .diskImage gpt) ↔
      hasGpt head = true ∨ hasMbrPartitionTable head = true := by
  have hwim : isWim head = false := by
    rw [← Bool.not_eq_true, isWim_iff, not_or]
    exact h.notWim
  have hiso : hasIso9660 head = false := by
    rw [← Bool.not_eq_true, hasIso9660_iff]
    exact h.notIso
  have hudf : hasUdf head = false := by
    rw [← Bool.not_eq_true, hasUdf_iff]
    intro ⟨k, hk, hnsr⟩
    exact h.notUdf k hk hnsr
  rw [classify_of_raw (detectCompression_eq_none_iff.2 h.plain) hiso hudf hwim]
  split_ifs <;> simp_all

/-- With the ISO identifier written in, the head is a raw-writable ISO when it was a disk image
before, and besides only when its signed table has a bare UEFI marker. -/
theorem withIsoIdentifier_ddWritable_iff {head : List UInt8} (h : RawHead head) :
    (∃ hybrid udf et, classify (withIsoIdentifier head) = .iso hybrid udf et ∧
        hybrid.isDdWritable = true) ↔
      (∃ gpt, classify head = .diskImage gpt) ∨
        OccursAt [0x55, 0xAA] 510 head ∧ ∃ i < 4, BareMarker head i := by
  rw [classify_withIsoIdentifier_iff h.long h.plain, h.classify_diskImage_iff,
    hybrid_iff_diskImage_or_bareMarker, mbrSignature_iff]

/-! ## A table with nothing but a bare marker -/

/-- A zero head, long enough for the ISO identifier, with the boot signature and a first partition
entry of type 0xEE. -/
def bareMarkerHead : List UInt8 :=
  overwrite (overwrite (List.replicate 32774 0x00) 450 [0xEE]) 510 [0x55, 0xAA]

theorem length_replicate_overwrite (off : ℕ) (w : List UInt8) (h : off + w.length ≤ 32774) :
    (overwrite (List.replicate 32774 0x00) off w).length = 32774 := by
  rw [length_overwrite (by rwa [List.length_replicate]), List.length_replicate]

theorem agreeOn_bareMarkerHead {S : Set ℕ} (hS : ∀ i ∈ S, i < 510 ∨ 512 ≤ i) :
    AgreeOn S bareMarkerHead (overwrite (List.replicate 32774 0x00) 450 [0xEE]) :=
  agreeOn_overwrite (by rw [length_replicate_overwrite _ _ (by decide)]; decide) hS

theorem getD_bareMarkerHead {i : ℕ} (h450 : i ≠ 450) (h510 : i < 510 ∨ 512 ≤ i) :
    bareMarkerHead.getD i 0 = 0 := by
  have houter := agreeOn_bareMarkerHead (S := {i}) fun j hj => by rwa [Set.mem_singleton_iff.1 hj]
  have hinner : AgreeOn {i} (overwrite (List.replicate 32774 (0x00 : UInt8)) 450 [0xEE])
      (List.replicate 32774 0x00) := by
    refine agreeOn_overwrite (by rw [List.length_replicate]; decide) fun j hj => ?_
    rw [Set.mem_singleton_iff.1 hj, List.length_singleton]
    omega
  rw [houter.getD_eq rfl, hinner.getD_eq rfl, List.getD_eq_getElem?_getD,
    List.getElem?_getD_replicate_default_eq]

theorem getD_bareMarkerHead_450 : bareMarkerHead.getD 450 0 = 0xEE := by
  have houter := agreeOn_bareMarkerHead (S := {450}) fun j hj => by
    rw [Set.mem_singleton_iff.1 hj]
    decide
  rw [houter.getD_eq rfl]
  exact (occursAt_overwrite (by rw [List.length_replicate]; decide)).getD_eq (i := 0) (by decide) 0

theorem le32At_bareMarkerHead {off : ℕ} (hlo : 450 < off) (hhi : off + 4 ≤ 510) :
    le32At bareMarkerHead off = 0 := by
  rw [le32At_eq_zero_iff]
  intro j hj
  exact getD_bareMarkerHead (by omega) (Or.inl (by omega))

theorem bareMarker_bareMarkerHead : BareMarker bareMarkerHead 0 :=
  ⟨Or.inl getD_bareMarkerHead_450, le32At_bareMarkerHead (by decide) (by decide),
    le32At_bareMarkerHead (by decide) (by decide)⟩

theorem not_occursAt_bareMarkerHead {w : List UInt8} {off : ℕ} (hfirst : w.getD 0 0 ≠ 0)
    (h450 : off ≠ 450) (h510 : off < 510 ∨ 512 ≤ off) : ¬ OccursAt w off bareMarkerHead := by
  intro h
  have hw : 0 < w.length := by
    cases w with
    | nil => exact absurd rfl hfirst
    | cons b w => simp
  have hbyte := h.getD_eq (i := 0) hw 0
  rw [Nat.add_zero, getD_bareMarkerHead h450 h510] at hbyte
  exact hfirst hbyte.symm

theorem rawHead_bareMarkerHead : RawHead bareMarkerHead where
  long := by
    have hinner := length_replicate_overwrite 450 [0xEE] (by decide)
    unfold bareMarkerHead
    rw [length_overwrite (by rw [hinner]; decide), hinner]
  plain := not_hasMagic_of_zero (getD_bareMarkerHead (by decide) (by decide))
  notWim := ⟨not_occursAt_bareMarkerHead (by decide) (by decide) (by decide),
    not_occursAt_bareMarkerHead (by decide) (by decide) (by decide)⟩
  notIso := not_occursAt_bareMarkerHead (by decide) (by decide) (by decide)
  notUdf k _ hnsr := by
    have hbyte := hnsr.getD_eq
    rw [getD_bareMarkerHead (by omega) (by omega)] at hbyte
    exact absurd hbyte (by decide)

theorem withIsoIdentifier_ddWritable_bareMarkerHead :
    (∃ hybrid udf et, classify (withIsoIdentifier bareMarkerHead) = .iso hybrid udf et ∧
        hybrid.isDdWritable = true) ↔
      (∃ gpt, classify bareMarkerHead = .diskImage gpt) ∨
        OccursAt [0x55, 0xAA] 510 bareMarkerHead ∧ ∃ i < 4, BareMarker bareMarkerHead i :=
  withIsoIdentifier_ddWritable_iff rawHead_bareMarkerHead

/-- The bare marker makes the ISO raw-writable, and leaves the raw head without a table. -/
theorem bareMarkerHead_ddWritable_not_diskImage :
    RawHead bareMarkerHead ∧
      (∃ hybrid udf et, classify (withIsoIdentifier bareMarkerHead) = .iso hybrid udf et ∧
        hybrid.isDdWritable = true) ∧
      ¬ ∃ gpt, classify bareMarkerHead = .diskImage gpt := by
  have hraw := rawHead_bareMarkerHead
  have hsig : mbrSignature bareMarkerHead = true :=
    mbrSignature_iff.2 (occursAt_overwrite (by
      rw [length_replicate_overwrite _ _ (by decide)]
      decide))
  refine ⟨hraw, ?_, ?_⟩
  · rw [classify_withIsoIdentifier_iff hraw.long hraw.plain, hybrid_iff_diskImage_or_bareMarker]
    exact Or.inr ⟨hsig, 0, by decide, bareMarker_bareMarkerHead⟩
  · rw [hraw.classify_diskImage_iff, hasGpt_iff, hasMbrPartitionTable_iff]
    rintro ((h | h) | ⟨-, i, hi, hused⟩)
    · exact not_occursAt_bareMarkerHead (by decide) (by decide) (by decide) h
    · exact not_occursAt_bareMarkerHead (by decide) (by decide) (by decide) h
    · obtain ⟨-, hstart | hcount⟩ := isUsed_entryAt_iff.1 hused
      · exact hstart (le32At_bareMarkerHead (by omega) (by omega))
      · exact hcount (le32At_bareMarkerHead (by omega) (by omega))

end Osedax
