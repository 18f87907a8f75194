import Osedax.Detect.Codec
import Osedax.Detect.Evidence

/-!
# Making an ISO hybrid

What `isohybrid` does to an ISO: a boot record with code, a partition table and the signature is
written in front of the optical file system.  The image stays the ISO that it was, and branch 1a
answers with the written entries and the GPT that was there (`classify_withMbr`); the warning is
gone exactly if one of the two says that the image boots.
-/

namespace Osedax

open Window Magic

/-- A boot record: code that is no compressed stream, and four slots. -/
structure Mbr where
  code : List UInt8
  slots : Vector Slot 4
  length_code : 6 ≤ code.length ∧ code.length ≤ 446
  plain : ∀ c, ¬ HasMagic c code

namespace Mbr

variable (mbr : Mbr)

/-- The code, the signature and the slots. -/
def writes : List (ℕ × List UInt8) :=
  (0, mbr.code) :: (510, [0x55, 0xAA]) :: (List.finRange 4).map (slotWrite mbr.slots)

def someSlot (p : MbrPartition → Bool) : Bool := mbr.slots.any fun slot => p slot.entry

variable {mbr}

theorem mem_writes_iff {w : ℕ × List UInt8} : w ∈ mbr.writes ↔
    w = (0, mbr.code) ∨ w = (510, [0x55, 0xAA]) ∨ ∃ i, w = slotWrite mbr.slots i := by
  simp only [writes, List.mem_cons, List.mem_map, List.mem_finRange, true_and, eq_comm]

theorem end_le_of_mem_writes {w : ℕ × List UInt8} (hw : w ∈ mbr.writes) :
    w.1 + w.2.length ≤ 512 := by
  rcases mem_writes_iff.1 hw with rfl | rfl | ⟨i, rfl⟩
  · have hcode := mbr.length_code.2
    show 0 + mbr.code.length ≤ 512
    omega
  · exact le_rfl
  · have := i.isLt
    simp only [slotWrite, Slot.length_bytes]
    omega

theorem pairwise_apart_writes (mbr : Mbr) : mbr.writes.Pairwise Apart := by
  have hcode := mbr.length_code.2
  unfold writes
  rw [List.pairwise_cons, List.pairwise_cons, List.pairwise_map]
  refine ⟨fun w hw => ?_, fun w hw => ?_, ?_⟩
  · left
    rcases List.mem_cons.1 hw with rfl | hw
    · show 0 + mbr.code.length ≤ 510
      omega
    · obtain ⟨i, -, rfl⟩ := List.mem_map.1 hw
      show 0 + mbr.code.length ≤ 446 + 16 * (i : ℕ)
      omega
  · right
    obtain ⟨i, -, rfl⟩ := List.mem_map.1 hw
    have := i.isLt
    simp only [slotWrite, Slot.length_bytes]
    omega
  · refine (List.pairwise_lt_finRange 4).imp fun {i j} hij => ?_
    have hij' : (i : ℕ) < j := hij
    simp only [Apart, slotWrite, Slot.length_bytes]
    omega

end Mbr

/-! ## The probes behind the boot record -/

section

variable {mbr : Mbr} {head : List UInt8} {ws : List (ℕ × List UInt8)} (hlen : 512 ≤ head.length)
  (hws : ws.Perm mbr.writes)

include hlen hws

theorem mbr_fits {w : ℕ × List UInt8} (hw : w ∈ ws) : w.1 + w.2.length ≤ head.length :=
  (Mbr.end_le_of_mem_writes (hws.mem_iff.1 hw)).trans hlen

theorem agreeOn_withMbr : AgreeOn (Set.Ici 512) (writeAll head ws) head :=
  agreeOn_writeAll (fun _ => mbr_fits hlen hws) fun _ hw _ hi =>
    Or.inr ((Mbr.end_le_of_mem_writes (hws.mem_iff.1 hw)).trans hi)

theorem occursAt_withMbr {w : ℕ × List UInt8} (hw : w ∈ mbr.writes) (hne : w.2 ≠ []) :
    OccursAt w.2 w.1 (writeAll head ws) :=
  occursAt_writeAll (fun _ => mbr_fits hlen hws)
    ((hws.pairwise_iff Apart.symm).2 mbr.pairwise_apart_writes) (hws.mem_iff.2 hw) hne

theorem someEntry_withMbr (p : MbrPartition → Bool) :
    someEntry p (writeAll head ws) = mbr.someSlot p := by
  have hsig : mbrSignature (writeAll head ws) = true := mbrSignature_iff.2
    (occursAt_withMbr hlen hws (Mbr.mem_writes_iff.2 (Or.inr (Or.inl rfl))) (List.cons_ne_nil _ _))
  have hentry (i : Fin 4) : entryAt (writeAll head ws) i = mbr.slots[i].entry := by
    apply entryAt_of_occursAt
    refine occursAt_withMbr hlen hws (Mbr.mem_writes_iff.2 (Or.inr (Or.inr ⟨i, rfl⟩))) ?_
    exact List.ne_nil_of_length_eq_add_one mbr.slots[i].length_bytes
  rw [Bool.eq_iff_iff, someEntry_iff, and_iff_right hsig, Mbr.someSlot, Vector.any_eq_true]
  refine exists_congr fun i => exists_prop.symm.trans (exists_congr fun hi => ?_)
  rw [hentry ⟨i, hi⟩]
  rfl

theorem detectCompression_withMbr : detectCompression (writeAll head ws) = none := by
  rw [detectCompression_eq_none_iff]
  rintro c ⟨m, hm, hpre⟩
  have hcode : mbr.code <+: writeAll head ws := by
    have hne : mbr.code ≠ [] := List.ne_nil_of_length_pos (by have := mbr.length_code.1; omega)
    have hocc := occursAt_withMbr hlen hws (Mbr.mem_writes_iff.2 (Or.inl rfl)) hne
    rwa [occursAt_iff_prefix_drop (Nat.zero_le _), List.drop_zero] at hocc
  have hmagic : ∀ c : Compression, ∀ m ∈ c.magics, m.length ≤ 6 := by
    intro c
    cases c <;> decide
  -- the code is longer than any magic
  refine mbr.plain c ⟨m, hm, List.prefix_of_prefix_length_le hpre hcode ?_⟩
  exact (hmagic c m hm).trans mbr.length_code.1

theorem hasGpt_withMbr : hasGpt (writeAll head ws) = hasGpt head := by
  have hagree := agreeOn_withMbr hlen hws
  have hlength : gptMagic.length = 8 := rfl
  rw [Bool.eq_iff_iff, hasGpt_iff, hasGpt_iff]
  refine or_congr ?_ ?_
  all_goals
    refine hagree.occursAt_iff (by decide) fun i hi => Set.mem_Ici.2 ?_
    have := (Set.mem_Ico.1 hi).1
    omega

theorem hasUdf_withMbr : hasUdf (writeAll head ws) = hasUdf head := by
  rw [Bool.eq_iff_iff, hasUdf_iff, hasUdf_iff]
  refine exists_congr fun k => and_congr_right fun _ => ?_
  refine nsrAt_congr (agreeOn_withMbr hlen hws) fun i hi => Set.mem_Ici.2 ?_
  have := (Set.mem_Ico.1 hi).1
  omega

theorem hasIso9660_withMbr : hasIso9660 (writeAll head ws) = hasIso9660 head :=
  hasIso9660_congr (agreeOn_withMbr hlen hws) fun i hi => Set.mem_Ici.2 (by
    have := (Set.mem_Ico.1 hi).1
    omega)

theorem isSome_elTorito_withMbr :
    (elTorito (writeAll head ws)).isSome = (elTorito head).isSome := by
  have hagree := agreeOn_withMbr hlen hws
  rw [Bool.eq_iff_iff, isSome_elTorito_iff, isSome_elTorito_iff,
    length_writeAll fun _ => mbr_fits hlen hws]
  refine and_congr_right fun _ => and_congr ?_ (and_congr ?_ ?_)
  all_goals
    refine hagree.occursAt_iff (by decide) fun i hi => Set.mem_Ici.2 ?_
    have := (Set.mem_Ico.1 hi).1
    omega

end

/-- An optical head reaches past the boot record. -/
theorem le_length_of_optical {head : List UInt8}
    (h : hasIso9660 head = true ∨ hasUdf head = true) : 512 ≤ head.length := by
  rcases h with h | h
  · have hlen : iso9660Magic.length = 5 := rfl
    have := (hasIso9660_iff.1 h).length_le
    omega
  · obtain ⟨k, -, hnsr⟩ := hasUdf_iff.1 h
    have := hnsr.length_le
    omega

/-- With a boot record the ISO is the same ISO, with the hybrid of its slots and its GPT; the
warning stays exactly if none of these boots. -/
theorem classify_withMbr {head : List UInt8} {hybrid : IsoHybrid} {udf et : Bool} {mbr : Mbr}
    {ws : List (ℕ × List UInt8)} (h : classify head = .iso hybrid udf et)
    (hws : ws.Perm mbr.writes) :
    classify (writeAll head ws) =
      .iso (.ofFlags (mbr.someSlot fun e => e.isUsed && !e.isGptProtective && !e.isEsp)
        (hasGpt head || mbr.someSlot fun e => e.isGptProtective || e.isEsp)) udf et ∧
    ∀ name, (inspect (writeAll head ws) name).bsdWarning.isSome = true ↔
      hasGpt head = false ∧
        mbr.someSlot (fun e => e.isUsed || e.isGptProtective || e.isEsp) = false := by
  obtain ⟨-, hoptical, -, hudf, het⟩ := classify_eq_iso_iff.1 h
  have hlen := le_length_of_optical hoptical
  have hclassify : classify (writeAll head ws) =
      .iso (.ofFlags (mbr.someSlot fun e => e.isUsed && !e.isGptProtective && !e.isEsp)
        (hasGpt head || mbr.someSlot fun e => e.isGptProtective || e.isEsp)) udf et := by
    rw [classify_eq_iso_iff, classifyHybrid_eq, someEntry_withMbr hlen hws,
      someEntry_withMbr hlen hws, hasGpt_withMbr hlen hws, hasIso9660_withMbr hlen hws,
      hasUdf_withMbr hlen hws, isSome_elTorito_withMbr hlen hws]
    exact ⟨detectCompression_withMbr hlen hws, hoptical, rfl, hudf, het⟩
  refine ⟨hclassify, fun name => ?_⟩
  have hwarning : (inspect (writeAll head ws) name).bsdWarning.isSome = true ↔
      (classifyHybrid (writeAll head ws)).isDdWritable = false := by
    show (bsdWarning (classify (writeAll head ws)) name).isSome = true ↔ _
    rw [isSome_bsdWarning_iff, isDdWritable_eq_false_iff]
    obtain ⟨hnone, hopt, -, hflags⟩ := classify_eq_iso_iff.1 hclassify
    apply Iff.intro
    · intro ⟨_, _, hiso⟩
      exact (classify_eq_iso_iff.1 hiso).2.2.1
    · exact fun hhybrid => ⟨udf, et, classify_eq_iso_iff.2 ⟨hnone, hopt, hhybrid, hflags⟩⟩
  rw [hwarning, ← Bool.not_eq_true, isDdWritable_classifyHybrid_iff, hasGpt_withMbr hlen hws,
    someEntry_withMbr hlen hws, not_or, Bool.not_eq_true, Bool.not_eq_true]

/-- A zero head with the ISO identifier. -/
def isoHead : List UInt8 := overwrite (List.replicate 32774 0x00) 32769 iso9660Magic

theorem classify_isoHead : classify isoHead =
    .iso (classifyHybrid isoHead) (hasUdf isoHead) (elTorito isoHead).isSome := by
  have hfits : 32769 + iso9660Magic.length ≤ (List.replicate 32774 (0x00 : UInt8)).length := by
    rw [List.length_replicate]
    exact le_rfl
  have hzero : isoHead.getD 0 0 = 0 := by
    have hagree : AgreeOn {0} isoHead (List.replicate 32774 0x00) :=
      agreeOn_overwrite hfits fun i hi => Or.inl (by rw [Set.mem_singleton_iff.1 hi]; decide)
    rw [hagree.getD_eq (Set.mem_singleton 0)]
    rfl
  refine classify_eq_iso_iff.2 ⟨?_, Or.inl ?_, rfl, rfl, rfl⟩
  · rw [detectCompression_eq_none_iff]
    exact not_hasMagic_of_zero hzero
  · exact hasIso9660_iff.2 (occursAt_overwrite hfits)

/-- The start of an isolinux boot record, with a partition in each slot. -/
def isolinuxMbr : Mbr where
  code := [0x33, 0xED, 0xFA, 0x8E, 0xD5, 0xBC]
  slots := Vector.replicate 4 linuxSlot
  length_code := by decide
  plain c := not_hasMagic_of_first (by cases c <;> decide)

/-- The ISO can be written raw afterwards. -/
theorem classify_withMbr_isoHead :
    ∃ hybrid udf et, classify (writeAll isoHead isolinuxMbr.writes) = .iso hybrid udf et ∧
      hybrid.isDdWritable = true := by
  refine ⟨_, _, _, (classify_withMbr classify_isoHead (List.Perm.refl isolinuxMbr.writes)).1, ?_⟩
  rw [isDdWritable_ofFlags, Bool.or_eq_true]
  exact Or.inl (Vector.any_eq_true.2 ⟨0, by decide, by rfl⟩)

end Osedax
