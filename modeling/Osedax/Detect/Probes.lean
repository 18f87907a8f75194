import Mathlib.Data.List.GetD
import Mathlib.Tactic.Ring
import Osedax.Detect.Tree

/-!
# What each probe looks for

One characterization per probe, in terms of the words that stand in fixed windows of the buffer
(`Window.OccursAt`) and of the four partition-table entries `entryAt`.  Later files use these and
never unfold a probe.
-/

namespace Osedax

open Window

namespace Magic

theorem region_beq_iff {buf w : List UInt8} {off len : ℕ} (h : w.length = len) :
    (region buf off len == some w) = true ↔ OccursAt w off buf := by
  rw [beq_iff_eq, region, slice_eq_some_iff]
  simp [h]

theorem startsWith_iff {buf pre : List UInt8} : startsWith buf pre = true ↔ pre <+: buf := by
  simp only [startsWith, Bool.and_eq_true, decide_eq_true_eq, beq_iff_eq]
  apply Iff.intro
  · rintro ⟨-, h⟩
    exact h ▸ List.take_prefix _ _
  · exact fun h => ⟨h.length_le, (List.prefix_iff_eq_take.1 h).symm⟩

theorem hasIso9660_iff {buf : List UInt8} :
    hasIso9660 buf = true ↔ OccursAt iso9660Magic 32769 buf :=
  region_beq_iff rfl

theorem hasIso9660_congr {S : Set ℕ} {a b : List UInt8} (h : AgreeOn S a b)
    (hS : Set.Ico 32769 32774 ⊆ S) : hasIso9660 a = hasIso9660 b := by
  rw [Bool.eq_iff_iff, hasIso9660_iff, hasIso9660_iff]
  exact h.occursAt_iff (by decide) hS

/-! ## Compression -/

/-- The leading bytes of each compression wrapper.  A bzip2 stream has one for each block size. -/
def Compression.magics : Compression → List (List UInt8)
  | .gzip => [[0x1F, 0x8B]]
  | .xz => [[0xFD, 0x37, 0x7A, 0x58, 0x5A, 0x00]]
  | .zstd => [[0x28, 0xB5, 0x2F, 0xFD]]
  | .bzip2 => (List.range 9).map fun i => [0x42, 0x5A, 0x68, 0x31 + UInt8.ofNat i]
  | .lz4 => [[0x04, 0x22, 0x4D, 0x18]]
  | .sevenZip => [[0x37, 0x7A, 0xBC, 0xAF, 0x27, 0x1C]]

theorem asBytes_xz : asBytes "7zXZ" = [0x37, 0x7A, 0x58, 0x5A] := by decide

theorem asBytes_bzip2 : asBytes "BZh" = [0x42, 0x5A, 0x68] := by decide

/-- The buffer starts with a magic of the wrapper `c`. -/
def HasMagic (c : Compression) (buf : List UInt8) : Prop := ∃ m ∈ c.magics, m <+: buf

theorem HasMagic.mono {c : Compression} {a b : List UInt8} (hp : a <+: b) :
    HasMagic c a → HasMagic c b := fun ⟨m, hm, h⟩ => ⟨m, hm, h.trans hp⟩

/-- The block-size digits of bzip2 are the nine bytes from `1` on. -/
theorem exists_blockSize_iff {d : UInt8} :
    (∃ i < 9, 0x31 + UInt8.ofNat i = d) ↔ 0x31 ≤ d ∧ d ≤ 0x39 := by
  apply Iff.intro
  · rintro ⟨i, hi, rfl⟩
    have hdigits : ∀ i < 9, (0x31 : UInt8) ≤ 0x31 + UInt8.ofNat i ∧
        0x31 + UInt8.ofNat i ≤ 0x39 := by decide
    exact hdigits i hi
  · intro ⟨hlo, hhi⟩
    have hlo' : 0x31 ≤ d.toNat := hlo
    have hhi' : d.toNat ≤ 0x39 := hhi
    refine ⟨d.toNat - 0x31, by omega, ?_⟩
    have hone : (0x31 : UInt8).toNat = 0x31 := rfl
    apply UInt8.toNat_inj.1
    rw [UInt8.toNat_add, UInt8.toNat_ofNat', hone]
    omega

theorem hasMagic_bzip2_iff {buf : List UInt8} :
    HasMagic .bzip2 buf ↔
      (startsWith buf (asBytes "BZh") && buf[3]?.any fun b => 0x31 ≤ b && b ≤ 0x39) = true := by
  rw [Bool.and_eq_true, startsWith_iff, asBytes_bzip2]
  apply Iff.intro
  · rintro ⟨m, hm, t, rfl⟩
    obtain ⟨i, hi, rfl⟩ := List.mem_map.1 hm
    refine ⟨⟨(0x31 + UInt8.ofNat i) :: t, rfl⟩, ?_⟩
    simpa using exists_blockSize_iff.1 ⟨i, List.mem_range.1 hi, rfl⟩
  · rintro ⟨⟨t, rfl⟩, hd⟩
    cases t with
    | nil => exact absurd hd (by decide)
    | cons d t =>
      have hd : 0x31 ≤ d ∧ d ≤ 0x39 := by simpa using hd
      obtain ⟨i, hi, rfl⟩ := exists_blockSize_iff.2 hd
      exact ⟨_, List.mem_map.2 ⟨i, List.mem_range.2 hi, rfl⟩, t, rfl⟩

/-- No two wrappers share a magic, so the order of the tests does not matter. -/
theorem detectCompression_eq_some_iff {buf : List UInt8} {c : Compression} :
    detectCompression buf = some c ↔ HasMagic c buf := by
  apply Iff.intro
  · intro h
    unfold detectCompression at h
    split_ifs at h with h₁ h₂ h₃ h₄ h₅ h₆ <;> obtain rfl := Option.some.inj h
    · exact ⟨_, List.mem_singleton_self _, startsWith_iff.1 h₁⟩
    · exact ⟨_, List.mem_singleton_self _, startsWith_iff.1 h₂⟩
    · exact ⟨_, List.mem_singleton_self _, startsWith_iff.1 h₃⟩
    · exact ⟨_, List.mem_singleton_self _, startsWith_iff.1 h₄⟩
    · exact ⟨_, List.mem_singleton_self _, startsWith_iff.1 h₅⟩
    · exact hasMagic_bzip2_iff.2 h₆
  · intro h
    cases c with
    | bzip2 =>
      have hb := hasMagic_bzip2_iff.1 h
      obtain ⟨t, rfl⟩ := startsWith_iff.1 (Bool.and_eq_true_iff.1 hb).1
      unfold detectCompression
      rw [if_pos hb]
      simp [startsWith, asBytes_xz, asBytes_bzip2]
    | _ =>
      obtain ⟨m, hm, t, rfl⟩ := h
      obtain rfl := List.mem_singleton.1 hm
      simp [detectCompression, startsWith, asBytes_xz]

theorem detectCompression_eq_none_iff {buf : List UInt8} :
    detectCompression buf = none ↔ ∀ c, ¬ HasMagic c buf := by
  simp only [Option.eq_none_iff_forall_ne_some, Ne, detectCompression_eq_some_iff]

/-- A buffer has no magic with another first byte. -/
theorem not_hasMagic_of_first {buf : List UInt8} {c : Compression}
    (hfirst : ∀ m ∈ c.magics, m.getD 0 0 ≠ buf.getD 0 0) : ¬ HasMagic c buf := by
  have hne : ∀ m ∈ c.magics, m ≠ [] := by cases c <;> decide
  rintro ⟨m, hm, t, rfl⟩
  cases m with
  | nil => exact hne [] hm rfl
  | cons b m => exact hfirst _ hm rfl

/-- No wrapper starts with a zero byte. -/
theorem not_hasMagic_of_zero {buf : List UInt8} (h : buf.getD 0 0 = 0) (c : Compression) :
    ¬ HasMagic c buf := by
  apply not_hasMagic_of_first
  rw [h]
  cases c <;> decide

/-! ## The Volume Recognition Sequence -/

/-- Descriptor `k` of the Volume Recognition Sequence carries an NSR identifier. -/
def NsrAt (k : ℕ) (buf : List UInt8) : Prop :=
  OccursAt udfNsr02 (32769 + 2048 * k) buf ∨ OccursAt udfNsr03 (32769 + 2048 * k) buf

theorem NsrAt.length_le {k : ℕ} {buf : List UInt8} (h : NsrAt k buf) :
    32769 + 2048 * k + 5 ≤ buf.length := by
  rcases h with h | h <;> exact h.length_le

theorem NsrAt.getD_eq {k : ℕ} {buf : List UInt8} (h : NsrAt k buf) :
    buf.getD (32769 + 2048 * k) 0 = 0x4E := by
  rcases h with h | h <;> exact h.getD_eq (i := 0) (by decide) 0

theorem NsrAt.mono {k : ℕ} {a b : List UInt8} (hp : a <+: b) (h : NsrAt k a) : NsrAt k b :=
  h.imp (OccursAt.mono hp) (OccursAt.mono hp)

/-- An NSR descriptor is recognized by its five identifier bytes. -/
theorem nsrAt_congr {k : ℕ} {S : Set ℕ} {a b : List UInt8} (h : AgreeOn S a b)
    (hS : Set.Ico (32769 + 2048 * k) (32769 + 2048 * k + 5) ⊆ S) : NsrAt k a ↔ NsrAt k b :=
  or_congr (h.occursAt_iff (by decide) hS) (h.occursAt_iff (by decide) hS)

theorem nsrAt_take_iff {k n : ℕ} {buf : List UInt8} :
    NsrAt k (buf.take n) ↔ NsrAt k buf ∧ 32769 + 2048 * k + 5 ≤ n := by
  have len02 : udfNsr02.length = 5 := rfl
  have len03 : udfNsr03.length = 5 := rfl
  simp only [NsrAt, occursAt_take_iff, len02, len03]
  tauto

theorem nsrAt_iff_region {k : ℕ} {buf id : List UInt8}
    (h : region buf (vrsStart + k * isoSector + 1) 5 = some id) :
    NsrAt k buf ↔ (id == udfNsr02 || id == udfNsr03) = true := by
  have hoff : vrsStart + k * isoSector + 1 = 32769 + 2048 * k := by
    simp only [vrsStart, isoSector]
    ring
  rw [hoff, region] at h
  unfold NsrAt
  rw [← slice_length_eq_some_iff, ← slice_length_eq_some_iff]
  change slice buf _ 5 = _ ∨ slice buf _ 5 = _ ↔ _
  rw [h]
  simp

/-- The walk over ascending descriptor numbers may stop at the first descriptor that does not
exist, since no later one exists either. -/
theorem hasUdfLoop_iff {buf : List UInt8} {ks : List ℕ} (sorted : ks.Pairwise (· < ·)) :
    hasUdfLoop buf ks = true ↔ ∃ k ∈ ks, NsrAt k buf := by
  induction ks with
  | nil => simp [hasUdfLoop]
  | cons k ks ih =>
    rw [List.pairwise_cons] at sorted
    simp only [hasUdfLoop]
    cases h : region buf (vrsStart + k * isoSector + 1) 5 with
    | none =>
      have hshort := slice_eq_none_iff.1 h
      simp only [vrsStart, isoSector] at hshort
      refine iff_of_false Bool.false_ne_true ?_
      intro ⟨j, hj, hn⟩
      have hlen := hn.length_le
      rcases List.mem_cons.1 hj with rfl | hj
      · omega
      · have := sorted.1 j hj
        omega
    | some id =>
      simp only [List.mem_cons, exists_eq_or_imp, nsrAt_iff_region h]
      split_ifs with hid
      · simp [hid]
      · rw [ih sorted.2]
        simp [hid]

theorem hasUdf_iff {buf : List UInt8} : hasUdf buf = true ↔ ∃ k < 16, NsrAt k buf := by
  unfold hasUdf
  rw [hasUdfLoop_iff List.pairwise_lt_range]
  simp only [List.mem_range]

/-! ## El Torito -/

theorem getD_zero_eq_iff {l : List UInt8} {b : UInt8} (hl : l ≠ []) :
    l.getD 0 0 = b ↔ OccursAt [b] 0 l := by
  obtain ⟨c, rest, rfl⟩ := List.exists_cons_of_ne_nil hl
  rw [occursAt_iff_prefix_drop (Nat.zero_le _)]
  simp [eq_comm]

theorem subslice_eq_iff {l w : List UInt8} {lo : ℕ} (hlo : lo ≤ l.length) :
    subslice l lo (lo + w.length) = w ↔ OccursAt w lo l := by
  unfold subslice
  rw [occursAt_iff_prefix_drop hlo, List.prefix_iff_eq_take, Nat.add_sub_cancel_left, eq_comm]

theorem isPrefixOf_subslice_iff {l w : List UInt8} {lo hi : ℕ} (hlo : lo ≤ l.length)
    (hw : w.length ≤ hi - lo) : w.isPrefixOf (subslice l lo hi) = true ↔ OccursAt w lo l := by
  unfold subslice
  rw [occursAt_iff_prefix_drop hlo, List.isPrefixOf_iff_prefix, List.prefix_take_iff,
    and_iff_left hw]

theorem isSome_elTorito_iff {buf : List UInt8} :
    (elTorito buf).isSome = true ↔ 34891 ≤ buf.length ∧ OccursAt [0x00] 34816 buf ∧
      OccursAt iso9660Magic 34817 buf ∧ OccursAt elToritoId 34823 buf := by
  unfold elTorito
  cases h : region buf elToritoBrvdOffset 75 with
  | none =>
    have hshort := slice_eq_none_iff.1 h
    simp only [elToritoBrvdOffset] at hshort
    refine iff_of_false (by simp) ?_
    rintro ⟨hlen, -⟩
    omega
  | some brvd =>
    have hlen : brvd.length = 75 := (slice_eq_some_iff.1 h).2
    have hbuf : 34891 ≤ buf.length := by
      have := (slice_eq_some_iff.1 h).1.length_le
      rwa [hlen] at this
    have inside (w : List UInt8) (i : ℕ) (hi : i + w.length ≤ 75) :
        OccursAt w i brvd ↔ OccursAt w (34816 + i) buf := occursAt_slice_iff h hi
    have htype : brvd.getD 0 0 = 0x00 ↔ OccursAt [0x00] 34816 buf :=
      (getD_zero_eq_iff (List.ne_nil_of_length_eq_add_one hlen)).trans (inside _ 0 (by decide))
    have hid : subslice brvd 1 6 = iso9660Magic ↔ OccursAt iso9660Magic 34817 buf :=
      (subslice_eq_iff (w := iso9660Magic) (by omega)).trans (inside _ 1 (by decide))
    have hsys : elToritoId.isPrefixOf (subslice brvd 7 39) = true ↔
        OccursAt elToritoId 34823 buf :=
      (isPrefixOf_subslice_iff (by omega) (by decide)).trans (inside _ 7 (by decide))
    rw [← htype, ← hid, ← hsys]
    dsimp only
    split_ifs <;> simp_all

/-! ## MBR and GPT -/

theorem mbrSignature_iff {buf : List UInt8} :
    mbrSignature buf = true ↔ OccursAt [0x55, 0xAA] 510 buf :=
  region_beq_iff rfl

theorem le_length_of_mbrSignature {buf : List UInt8} (h : mbrSignature buf = true) :
    512 ≤ buf.length :=
  (mbrSignature_iff.1 h).length_le

theorem hasGpt_iff {buf : List UInt8} :
    hasGpt buf = true ↔ OccursAt gptMagic 512 buf ∨ OccursAt gptMagic 4096 buf := by
  unfold hasGpt
  rw [Bool.or_eq_true]
  exact or_congr (region_beq_iff rfl) (region_beq_iff rfl)

/-- Entry `i` of the partition table, read straight from the buffer. -/
def entryAt (buf : List UInt8) (i : ℕ) : MbrPartition := mbrEntry (buf.drop (446 + 16 * i))

theorem getD_drop (buf : List UInt8) (off j : ℕ) :
    (buf.drop off).getD j 0 = buf.getD (off + j) 0 := by
  rw [List.getD_eq_getElem?_getD, List.getD_eq_getElem?_getD, List.getElem?_drop]

theorem entryAt_eq (buf : List UInt8) (i : ℕ) :
    entryAt buf i =
      { status := buf.getD (446 + 16 * i) 0
        partType := buf.getD (446 + 16 * i + 4) 0
        startLba := u32FromLeBytes (buf.getD (446 + 16 * i + 8) 0) (buf.getD (446 + 16 * i + 9) 0)
          (buf.getD (446 + 16 * i + 10) 0) (buf.getD (446 + 16 * i + 11) 0)
        sectors := u32FromLeBytes (buf.getD (446 + 16 * i + 12) 0) (buf.getD (446 + 16 * i + 13) 0)
          (buf.getD (446 + 16 * i + 14) 0) (buf.getD (446 + 16 * i + 15) 0) } := by
  simp only [entryAt, mbrEntry, getD_drop, Nat.add_zero]

/-- The little-endian 32-bit number at `off`, as far as the buffer goes. -/
def le32At (buf : List UInt8) (off : ℕ) : ℕ :=
  (buf.getD off 0).toNat + 2 ^ 8 * (buf.getD (off + 1) 0).toNat +
    2 ^ 16 * (buf.getD (off + 2) 0).toNat + 2 ^ 24 * (buf.getD (off + 3) 0).toNat

theorem le32At_eq_zero_iff {buf : List UInt8} {off : ℕ} :
    le32At buf off = 0 ↔ ∀ j < 4, buf.getD (off + j) 0 = 0 := by
  unfold le32At
  apply Iff.intro
  · intro h j hj
    apply UInt8.toNat_inj.1
    rw [UInt8.toNat_zero]
    obtain rfl | rfl | rfl | rfl : j = 0 ∨ j = 1 ∨ j = 2 ∨ j = 3 := by omega
    · rw [Nat.add_zero]
      omega
    all_goals omega
  · intro h
    have h0 := h 0 (by decide)
    rw [Nat.add_zero] at h0
    rw [h0, h 1 (by decide), h 2 (by decide), h 3 (by decide)]
    rfl

theorem toNat_u32FromLeBytes (b₀ b₁ b₂ b₃ : UInt8) :
    (u32FromLeBytes b₀ b₁ b₂ b₃).toNat =
      b₀.toNat + 2 ^ 8 * b₁.toNat + 2 ^ 16 * b₂.toNat + 2 ^ 24 * b₃.toNat := by
  have h₀ := b₀.toNat_lt
  have h₁ := b₁.toNat_lt
  have h₂ := b₂.toNat_lt
  have h₃ := b₃.toNat_lt
  unfold u32FromLeBytes
  rw [UInt32.toNat_ofNat_of_lt']
  simp only [UInt32.size]
  omega

theorem toNat_startLba_entryAt (buf : List UInt8) (i : ℕ) :
    (entryAt buf i).startLba.toNat = le32At buf (446 + 16 * i + 8) := by
  rw [entryAt_eq, toNat_u32FromLeBytes]
  rfl

theorem toNat_sectors_entryAt (buf : List UInt8) (i : ℕ) :
    (entryAt buf i).sectors.toNat = le32At buf (446 + 16 * i + 12) := by
  rw [entryAt_eq, toNat_u32FromLeBytes]
  rfl

theorem isUsed_entryAt_iff {buf : List UInt8} {i : ℕ} :
    (entryAt buf i).isUsed = true ↔ buf.getD (446 + 16 * i + 4) 0 ≠ 0 ∧
      (le32At buf (446 + 16 * i + 8) ≠ 0 ∨ le32At buf (446 + 16 * i + 12) ≠ 0) := by
  rw [← toNat_startLba_entryAt, ← toNat_sectors_entryAt, MbrPartition.isUsed, entryAt_eq]
  simp only [Bool.and_eq_true, Bool.or_eq_true, bne_iff_ne, ne_eq, ← UInt32.toNat_inj,
    UInt32.toNat_zero]

theorem mbrEntry_take (l : List UInt8) : mbrEntry (l.take 16) = mbrEntry l := by
  simp [mbrEntry, List.getD_eq_getElem?_getD]

theorem mbrPartitions_of_le {buf : List UInt8} (h : 510 ≤ buf.length) :
    mbrPartitions buf = some (Vector.ofFn fun i : Fin 4 => entryAt buf i) := by
  have htable : region buf mbrPartitionTableOffset 64 = some ((buf.drop 446).take 64) :=
    slice_eq_some_of_length_le h
  unfold mbrPartitions
  rw [htable, Option.map_some]
  congr 2
  funext i
  have hi : (i : ℕ) < 4 := i.isLt
  have hwidth : min ((i : ℕ) * 16 + 16 - i * 16) (64 - i * 16) = 16 := by omega
  unfold entryAt
  rw [← mbrEntry_take (buf.drop _), subslice, List.drop_take, List.drop_drop,
    List.take_take, hwidth, Nat.mul_comm 16]

theorem any_ofFn {n : ℕ} {α : Type*} (f : ℕ → α) (p : α → Bool) :
    (Vector.ofFn fun i : Fin n => f i).any p = (List.range n).any fun i => p (f i) := by
  rw [Bool.eq_iff_iff]
  simp only [Vector.any_eq_true, Vector.getElem_ofFn, exists_prop, List.any_eq_true, List.mem_range]

theorem hasMbrPartitionTable_iff {buf : List UInt8} :
    hasMbrPartitionTable buf = true ↔
      mbrSignature buf = true ∧ ∃ i < 4, (entryAt buf i).isUsed = true := by
  simp only [← List.mem_range, ← List.any_eq_true]
  unfold hasMbrPartitionTable
  cases hs : mbrSignature buf with
  | false => simp
  | true =>
    have := le_length_of_mbrSignature hs
    rw [mbrPartitions_of_le (by omega)]
    simp only [Option.any_some, Bool.not_true, Bool.false_eq_true, ↓reduceIte, true_and, any_ofFn]

/-! ## Bare filesystems and WIM -/

theorem isFatOrNtfsBootsector_iff {buf : List UInt8} :
    isFatOrNtfsBootsector buf = true ↔ mbrSignature buf = true ∧
      (buf.getD 0 0 = 0xEB ∧ buf.getD 2 0 = 0x90 ∨ buf.getD 0 0 = 0xE9) := by
  unfold isFatOrNtfsBootsector
  cases h : region buf 0 3 with
  | none =>
    have hshort := slice_eq_none_iff.1 h
    refine iff_of_false (by simp) ?_
    rintro ⟨hs, -⟩
    have := le_length_of_mbrSignature hs
    omega
  | some head =>
    obtain ⟨⟨pre, post, rfl, hpre⟩, hlen⟩ := slice_eq_some_iff.1 h
    obtain rfl := List.length_eq_zero_iff.1 hpre
    have hget (i : ℕ) (hi : i < 3) : ([] ++ (head ++ post)).getD i 0 = head.getD i 0 := by
      rw [List.nil_append, List.getD_append _ _ _ _ (by omega)]
    rw [hget 0 (by decide), hget 2 (by decide)]
    simp only [Bool.and_eq_true, Bool.or_eq_true, beq_iff_eq]
    exact and_comm

theorem isNtfsBootsector_iff {buf : List UInt8} :
    isNtfsBootsector buf = true ↔
      isFatOrNtfsBootsector buf = true ∧ OccursAt (asBytes "NTFS    ") 3 buf := by
  unfold isNtfsBootsector
  rw [Bool.and_eq_true]
  exact and_congr_right fun _ => region_beq_iff rfl

theorem isExt_iff {buf : List UInt8} : isExt buf = true ↔ OccursAt [0x53, 0xEF] 1080 buf :=
  region_beq_iff rfl

theorem isWim_iff {buf : List UInt8} :
    isWim buf = true ↔ OccursAt wimMagic 0 buf ∨ OccursAt wimPipableMagic 0 buf := by
  have hwim : OccursAt wimMagic 0 buf ↔ region buf 0 8 = some wimMagic :=
    slice_length_eq_some_iff.symm
  have hpipable : OccursAt wimPipableMagic 0 buf ↔ region buf 0 8 = some wimPipableMagic :=
    slice_length_eq_some_iff.symm
  rw [hwim, hpipable, isWim]
  cases region buf 0 8 <;> simp

end Magic

/-! ## The hybrid branch -/

/-- The answer of branch 1a, from its two tests. -/
def IsoHybrid.ofFlags (bios uefi : Bool) : IsoHybrid :=
  match bios, uefi with
  | true, true => .biosAndUefiHybrid
  | false, true => .uefiHybrid
  | true, false => .biosHybrid
  | false, false => .opticalOnly

/-- Some entry of a signed partition table satisfies `p`. -/
def someEntry (p : Magic.MbrPartition → Bool) (head : List UInt8) : Bool :=
  Magic.mbrSignature head && (List.range 4).any fun i => p (Magic.entryAt head i)

theorem someEntry_iff {p : Magic.MbrPartition → Bool} {head : List UInt8} :
    someEntry p head = true ↔
      Magic.mbrSignature head = true ∧ ∃ i < 4, p (Magic.entryAt head i) = true := by
  simp only [someEntry, Bool.and_eq_true, List.any_eq_true, List.mem_range]

theorem hasMbrPartitionTable_eq_someEntry (head : List UInt8) :
    Magic.hasMbrPartitionTable head = someEntry (fun e => e.isUsed) head := by
  rw [Bool.eq_iff_iff, Magic.hasMbrPartitionTable_iff, someEntry_iff]

theorem filter_mbrPartitions_any (p : Magic.MbrPartition → Bool) (head : List UInt8) :
    ((Magic.mbrPartitions head).filter fun _ => Magic.mbrSignature head).any
      (fun parts => parts.any p) = someEntry p head := by
  unfold someEntry
  cases hs : Magic.mbrSignature head with
  | false => cases Magic.mbrPartitions head <;> simp
  | true =>
    have := Magic.le_length_of_mbrSignature hs
    rw [Magic.mbrPartitions_of_le (by omega)]
    simp only [Option.filter_some, ↓reduceIte, Option.any_some, Magic.any_ofFn, Bool.true_and]

theorem classifyHybrid_eq (head : List UInt8) :
    classifyHybrid head =
      .ofFlags (someEntry (fun e => e.isUsed && !e.isGptProtective && !e.isEsp) head)
        (Magic.hasGpt head || someEntry (fun e => e.isGptProtective || e.isEsp) head) := by
  unfold classifyHybrid
  simp only [filter_mbrPartitions_any]
  rfl

theorem isDdWritable_ofFlags (bios uefi : Bool) :
    (IsoHybrid.ofFlags bios uefi).isDdWritable = (bios || uefi) := by
  cases bios <;> cases uefi <;> rfl

/-- An optical image is raw-writable when it has a GPT header, or a signed table with an entry
that is used or carries one of the two UEFI types. -/
theorem isDdWritable_classifyHybrid_iff {head : List UInt8} :
    (classifyHybrid head).isDdWritable = true ↔ Magic.hasGpt head = true ∨
      someEntry (fun e => e.isUsed || e.isGptProtective || e.isEsp) head = true := by
  rw [classifyHybrid_eq, isDdWritable_ofFlags]
  simp only [Bool.or_eq_true, someEntry_iff]
  apply Iff.intro
  · rintro (⟨hs, i, hi, he⟩ | h | ⟨hs, i, hi, he⟩)
    · simp only [Bool.and_eq_true] at he
      exact Or.inr ⟨hs, i, hi, Or.inl (Or.inl he.1.1)⟩
    · exact Or.inl h
    · exact Or.inr ⟨hs, i, hi, he.elim (fun h => Or.inl (Or.inr h)) Or.inr⟩
  · rintro (h | ⟨hs, i, hi, he⟩)
    · exact Or.inr (Or.inl h)
    · by_cases hm : (Magic.entryAt head i).isGptProtective = true ∨
          (Magic.entryAt head i).isEsp = true
      · exact Or.inr (Or.inr ⟨hs, i, hi, hm⟩)
      · refine Or.inl ⟨hs, i, hi, ?_⟩
        simp_all

end Osedax
