import Mathlib.Data.List.FinRange
import Osedax.Detect.Probes
import Osedax.Support.Writes

/-!
# Writing what the decoders read

Encoders for a partition-table slot and for the El Torito boot record.  Written into any buffer
that is long enough, in any order, they are read back by `mbrPartitions` and `elTorito` exactly,
whatever else the buffer holds.
-/

namespace Osedax

open Window Magic

/-! ## Little-endian numbers -/

/-- `u32::to_le_bytes`. -/
def u32ToLeBytes (n : UInt32) : List UInt8 :=
  [UInt8.ofNat n.toNat, UInt8.ofNat (n.toNat / 2 ^ 8), UInt8.ofNat (n.toNat / 2 ^ 16),
    UInt8.ofNat (n.toNat / 2 ^ 24)]

theorem u32FromLeBytes_toLeBytes (n : UInt32) :
    u32FromLeBytes (UInt8.ofNat n.toNat) (UInt8.ofNat (n.toNat / 2 ^ 8))
      (UInt8.ofNat (n.toNat / 2 ^ 16)) (UInt8.ofNat (n.toNat / 2 ^ 24)) = n := by
  have hlt := n.toNat_lt
  apply UInt32.toNat_inj.1
  rw [toNat_u32FromLeBytes, UInt8.toNat_ofNat', UInt8.toNat_ofNat', UInt8.toNat_ofNat',
    UInt8.toNat_ofNat']
  omega

/-! ## The encoders -/

/-- What stands in a slot of the partition table: an entry with the CHS bytes around its type. -/
structure Slot where
  entry : MbrPartition
  chsFirst : Vector UInt8 3
  chsLast : Vector UInt8 3

def Slot.bytes (s : Slot) : List UInt8 :=
  s.entry.status :: (s.chsFirst.toList ++ s.entry.partType :: (s.chsLast.toList ++
    (u32ToLeBytes s.entry.startLba ++ u32ToLeBytes s.entry.sectors)))

/-- What stands in the boot record: a version byte, padding and the LBA of the catalog. -/
structure BootRecord where
  version : UInt8
  padding : Vector UInt8 41
  catalogLba : UInt32

def BootRecord.bytes (r : BootRecord) : List UInt8 :=
  0x00 :: (iso9660Magic ++ r.version :: (elToritoId ++
    (r.padding.toList ++ u32ToLeBytes r.catalogLba)))

/-- The write of slot `i`. -/
def slotWrite (slots : Vector Slot 4) (i : Fin 4) : ℕ × List UInt8 := (446 + 16 * i, slots[i].bytes)

def recordWrite (record : BootRecord) : ℕ × List UInt8 := (34816, record.bytes)

/-- The five writes. -/
def diskWrites (slots : Vector Slot 4) (record : BootRecord) : List (ℕ × List UInt8) :=
  recordWrite record :: (List.finRange 4).map (slotWrite slots)

theorem Slot.length_bytes (s : Slot) : s.bytes.length = 16 := by
  simp only [bytes, u32ToLeBytes, List.length_cons, List.length_append, List.length_nil,
    Vector.length_toList]

theorem BootRecord.length_bytes (r : BootRecord) : r.bytes.length = 75 := by
  have hmagic : iso9660Magic.length = 5 := rfl
  have hid : elToritoId.length = 23 := rfl
  simp only [bytes, u32ToLeBytes, List.length_cons, List.length_append, List.length_nil,
    Vector.length_toList, hmagic, hid]

/-! ## Reading back -/

theorem Slot.mbrEntry_bytes (s : Slot) : mbrEntry s.bytes = s.entry := by
  obtain ⟨a, b, c, hfirst⟩ := List.length_eq_three.1 s.chsFirst.length_toList
  obtain ⟨d, e, f, hlast⟩ := List.length_eq_three.1 s.chsLast.length_toList
  unfold bytes
  rw [hfirst, hlast]
  show MbrPartition.mk s.entry.status s.entry.partType (u32FromLeBytes _ _ _ _)
    (u32FromLeBytes _ _ _ _) = s.entry
  exact congrArg₂ (MbrPartition.mk _ _) (u32FromLeBytes_toLeBytes _) (u32FromLeBytes_toLeBytes _)

theorem entryAt_of_occursAt {buf : List UInt8} {s : Slot} {i : ℕ}
    (h : OccursAt s.bytes (446 + 16 * i) buf) : entryAt buf i = s.entry := by
  have hpre := (occursAt_iff_prefix_drop (Nat.le_of_add_right_le h.length_le)).1 h
  have htake := List.prefix_iff_eq_take.1 hpre
  rw [s.length_bytes] at htake
  rw [entryAt, ← mbrEntry_take, ← htake, s.mbrEntry_bytes]

theorem elTorito_of_occursAt {buf : List UInt8} {r : BootRecord}
    (h : OccursAt r.bytes 34816 buf) : elTorito buf = some ⟨r.catalogLba⟩ := by
  have hlen := r.length_bytes
  have hregion : region buf elToritoBrvdOffset 75 = some r.bytes :=
    slice_eq_some_iff.2 ⟨h, hlen⟩
  have hmagic : subslice r.bytes 1 6 = iso9660Magic :=
    (subslice_eq_iff (w := iso9660Magic) (by omega)).2 ⟨[0x00], _, rfl, rfl⟩
  have hid : elToritoId.isPrefixOf (subslice r.bytes 7 39) = true :=
    (isPrefixOf_subslice_iff (by omega) (by decide)).2
      ⟨0x00 :: (iso9660Magic ++ [r.version]), r.padding.toList ++ u32ToLeBytes r.catalogLba,
        by simp [BootRecord.bytes], rfl⟩
  have hlba : OccursAt (u32ToLeBytes r.catalogLba) 71 r.bytes := by
    refine ⟨0x00 :: (iso9660Magic ++ r.version :: (elToritoId ++ r.padding.toList)), [], ?_, ?_⟩
    · simp [BootRecord.bytes]
    · have hmagic : iso9660Magic.length = 5 := rfl
      have hid : elToritoId.length = 23 := rfl
      simp only [List.length_cons, List.length_append, Vector.length_toList, hmagic, hid]
  have hbyte (i : ℕ) (hi : i < 4) :
      r.bytes.getD (71 + i) 0 = (u32ToLeBytes r.catalogLba).getD i 0 := hlba.getD_eq hi 0
  unfold elTorito
  rw [hregion]
  dsimp only
  rw [if_neg (by rw [ne_eq, not_not]; rfl), if_neg (by rw [hmagic, ne_eq, not_not]),
    if_neg (by rw [hid]; decide), hbyte 0 (by decide), hbyte 1 (by decide), hbyte 2 (by decide),
    hbyte 3 (by decide)]
  exact congrArg (fun lba => some (ElTorito.mk lba)) (u32FromLeBytes_toLeBytes r.catalogLba)

/-! ## The five writes -/

section

variable {slots : Vector Slot 4} {record : BootRecord}

theorem mem_diskWrites_iff {w : ℕ × List UInt8} :
    w ∈ diskWrites slots record ↔ w = recordWrite record ∨ ∃ i, w = slotWrite slots i := by
  simp only [diskWrites, List.mem_cons, List.mem_map, List.mem_finRange, true_and, eq_comm]

theorem end_le_of_mem_diskWrites {w : ℕ × List UInt8} (hw : w ∈ diskWrites slots record) :
    w.1 + w.2.length ≤ 34891 := by
  rcases mem_diskWrites_iff.1 hw with rfl | ⟨i, rfl⟩
  · rw [recordWrite, record.length_bytes]
  · have := i.isLt
    simp only [slotWrite, Slot.length_bytes]
    omega

/-- The signature bytes are in none of the windows. -/
theorem signature_apart {w : ℕ × List UInt8} (hw : w ∈ diskWrites slots record) :
    ∀ i ∈ Set.Ico 510 512, i < w.1 ∨ w.1 + w.2.length ≤ i := by
  rintro i ⟨hlo, hhi⟩
  rcases mem_diskWrites_iff.1 hw with rfl | ⟨k, rfl⟩
  · exact Or.inl (hhi.trans (by decide : 512 < 34816))
  · have := k.isLt
    simp only [slotWrite, Slot.length_bytes]
    omega

theorem pairwise_apart_diskWrites : (diskWrites slots record).Pairwise Apart := by
  unfold diskWrites
  rw [List.pairwise_cons, List.pairwise_map]
  apply And.intro
  · intro w hw
    obtain ⟨i, -, rfl⟩ := List.mem_map.1 hw
    have := i.isLt
    simp only [Apart, recordWrite, slotWrite, Slot.length_bytes]
    omega
  · refine (List.pairwise_lt_finRange 4).imp fun {i j} hij => ?_
    have hij' : (i : ℕ) < j := hij
    simp only [Apart, slotWrite, Slot.length_bytes]
    omega

section

variable {buf : List UInt8} {ws : List (ℕ × List UInt8)} (hlen : 34891 ≤ buf.length)
  (hws : ws.Perm (diskWrites slots record))

include hlen hws

theorem end_le_length {w : ℕ × List UInt8} (hw : w ∈ ws) : w.1 + w.2.length ≤ buf.length :=
  (end_le_of_mem_diskWrites (hws.mem_iff.1 hw)).trans hlen

/-- Each of the five words stands in its window after the writes, in whatever order. -/
theorem occursAt_of_diskWrites {w : ℕ × List UInt8} (hw : w ∈ diskWrites slots record)
    (hne : w.2 ≠ []) : OccursAt w.2 w.1 (writeAll buf ws) := by
  refine occursAt_writeAll (fun _ => end_le_length hlen hws) ?_ (hws.mem_iff.2 hw) hne
  exact (hws.pairwise_iff Apart.symm).2 pairwise_apart_diskWrites

theorem entryAt_diskWrites (i : Fin 4) : entryAt (writeAll buf ws) i = slots[i].entry := by
  refine entryAt_of_occursAt ?_
  refine occursAt_of_diskWrites hlen hws (w := slotWrite slots i)
    (mem_diskWrites_iff.2 (Or.inr ⟨i, rfl⟩)) ?_
  exact List.ne_nil_of_length_eq_add_one slots[i].length_bytes

theorem elTorito_diskWrites : elTorito (writeAll buf ws) = some ⟨record.catalogLba⟩ := by
  refine elTorito_of_occursAt ?_
  refine occursAt_of_diskWrites hlen hws (w := recordWrite record)
    (mem_diskWrites_iff.2 (Or.inl rfl)) ?_
  exact List.ne_nil_of_length_eq_add_one record.length_bytes

theorem mbrPartitions_diskWrites :
    mbrPartitions (writeAll buf ws) = some (slots.map Slot.entry) := by
  have hlong : 510 ≤ (writeAll buf ws).length := by
    rw [length_writeAll fun _ => end_le_length hlen hws]
    omega
  rw [mbrPartitions_of_le hlong, Option.some_inj]
  simp only [entryAt_diskWrites hlen hws]
  apply Vector.ext
  intro i hi
  rw [Vector.getElem_ofFn, Vector.getElem_map]
  rfl

/-- The signature is that of the buffer, the used entries are those written. -/
theorem hasMbrPartitionTable_diskWrites : hasMbrPartitionTable (writeAll buf ws) = true ↔
    OccursAt [0x55, 0xAA] 510 buf ∧ ∃ i : Fin 4, slots[i].entry.isUsed = true := by
  have hsame : AgreeOn (Set.Ico 510 512) (writeAll buf ws) buf :=
    agreeOn_writeAll (fun _ => end_le_length hlen hws) fun w hw =>
      signature_apart (hws.mem_iff.1 hw)
  rw [hasMbrPartitionTable_iff, mbrSignature_iff,
    hsame.occursAt_iff (by decide) (Set.Subset.refl _)]
  refine and_congr_right fun _ => ?_
  apply Iff.intro
  · intro ⟨i, hi, hused⟩
    exact ⟨⟨i, hi⟩, (entryAt_diskWrites hlen hws ⟨i, hi⟩).symm ▸ hused⟩
  · intro ⟨i, hused⟩
    exact ⟨i, i.isLt, (entryAt_diskWrites hlen hws i).symm ▸ hused⟩

end

end

/-- The decoders invert the encoders, whatever the order of the writes and the other bytes. -/
theorem decode_diskWrites {buf : List UInt8} {slots : Vector Slot 4} {record : BootRecord}
    {ws : List (ℕ × List UInt8)} (hlen : 34891 ≤ buf.length)
    (hws : ws.Perm (diskWrites slots record)) :
    mbrPartitions (writeAll buf ws) = some (slots.map Slot.entry) ∧
      elTorito (writeAll buf ws) = some ⟨record.catalogLba⟩ ∧
      (hasMbrPartitionTable (writeAll buf ws) = true ↔
        OccursAt [0x55, 0xAA] 510 buf ∧ ∃ i : Fin 4, slots[i].entry.isUsed = true) :=
  ⟨mbrPartitions_diskWrites hlen hws, elTorito_diskWrites hlen hws,
    hasMbrPartitionTable_diskWrites hlen hws⟩

/-- A bootable Linux partition. -/
def linuxSlot : Slot where
  entry := ⟨0x80, 0x83, 2048, 1000000⟩
  chsFirst := Vector.replicate 3 0xFE
  chsLast := Vector.replicate 3 0xFF

def bootRecord : BootRecord where
  version := 1
  padding := Vector.replicate 41 0
  catalogLba := 0x1234

theorem decode_diskWrites_linuxSlot :
    elTorito (writeAll (List.replicate 34891 0)
      (diskWrites (Vector.replicate 4 linuxSlot) bootRecord)) = some ⟨0x1234⟩ :=
  (decode_diskWrites (by rw [List.length_replicate]) (List.Perm.refl _)).2.1

end Osedax
