import Osedax.Detect.Probes

/-!
# The verdict from the probes

`classify` as a function of its probes: when it answers `compressed` or `iso`, and that two heads
on which every probe agrees get the same kind.  The second half says which bytes each probe other
than the walk over the Volume Recognition Sequence reads.
-/

namespace Osedax

open Window

theorem classify_eq_compressed_iff {head : List UInt8} {c : Magic.Compression} :
    classify head = .compressed c ↔ Magic.detectCompression head = some c := by
  unfold classify
  cases Magic.detectCompression head with
  | some c' => simp
  | none => dsimp only; split_ifs <;> simp

theorem classify_eq_iso_iff {head : List UInt8} {hybrid : IsoHybrid} {udf et : Bool} :
    classify head = .iso hybrid udf et ↔ Magic.detectCompression head = none ∧
      (Magic.hasIso9660 head = true ∨ Magic.hasUdf head = true) ∧
      classifyHybrid head = hybrid ∧ Magic.hasUdf head = udf ∧
      (Magic.elTorito head).isSome = et := by
  unfold classify
  cases Magic.detectCompression head with
  | some c => simp
  | none =>
    simp only [← Bool.or_eq_true, true_and]
    split_ifs with hiso <;> simp [hiso]

/-- STEP 3 and what follows it, on a head that no earlier step takes. -/
theorem classify_of_raw {head : List UInt8} (hnone : Magic.detectCompression head = none)
    (hiso : Magic.hasIso9660 head = false) (hudf : Magic.hasUdf head = false)
    (hwim : Magic.isWim head = false) :
    classify head =
      if Magic.hasGpt head then .diskImage true
      else if Magic.hasMbrPartitionTable head then .diskImage false
      else if Magic.isNtfsBootsector head then .bareFilesystem .ntfs
      else if Magic.isFatOrNtfsBootsector head then .bareFilesystem .fat
      else if Magic.isExt head then .bareFilesystem .ext
      else .unknown := by
  unfold classify
  simp only [hnone, hiso, hudf, hwim, Bool.or_false, Bool.false_eq_true, ↓reduceIte]

/-- Every probe of the tree except the walk over the Volume Recognition Sequence gives the same
answer on both heads. -/
structure SameProbes (a b : List UInt8) : Prop where
  detectCompression : Magic.detectCompression a = Magic.detectCompression b
  hasIso9660 : Magic.hasIso9660 a = Magic.hasIso9660 b
  classifyHybrid : classifyHybrid a = classifyHybrid b
  elTorito : (Magic.elTorito a).isSome = (Magic.elTorito b).isSome
  isWim : Magic.isWim a = Magic.isWim b
  hasGpt : Magic.hasGpt a = Magic.hasGpt b
  hasMbrPartitionTable : Magic.hasMbrPartitionTable a = Magic.hasMbrPartitionTable b
  isNtfsBootsector : Magic.isNtfsBootsector a = Magic.isNtfsBootsector b
  isFatOrNtfsBootsector : Magic.isFatOrNtfsBootsector a = Magic.isFatOrNtfsBootsector b
  isExt : Magic.isExt a = Magic.isExt b

theorem SameProbes.classify_eq {a b : List UInt8} (h : SameProbes a b)
    (hudf : Magic.hasUdf a = Magic.hasUdf b) : classify a = classify b := by
  simp only [classify, hudf, h.detectCompression, h.hasIso9660, h.classifyHybrid, h.elTorito,
    h.isWim, h.hasGpt, h.hasMbrPartitionTable, h.isNtfsBootsector, h.isFatOrNtfsBootsector,
    h.isExt]

/-! ## What the probes read -/

/-- The positions below the optical area that the tree looks at: the leading magics, the type,
start and length of the four partition entries, the boot signature with the GPT header behind it,
the ext superblock and the other GPT header. -/
def bootReads : Set ℕ :=
  {i | i < 11 ∨ (∃ k < 4, i = 450 + 16 * k ∨ 454 + 16 * k ≤ i ∧ i < 462 + 16 * k) ∨
    510 ≤ i ∧ i < 520 ∨ 1080 ≤ i ∧ i < 1082 ∨ 4096 ≤ i ∧ i < 4104}

/-- The ISO 9660 identifier and the part of the El Torito descriptor that is compared. -/
def opticalReads : Set ℕ := {i | 32769 ≤ i ∧ i < 32774 ∨ 34816 ≤ i ∧ i < 34846}

theorem lt_of_mem_bootReads {i : ℕ} (hi : i ∈ bootReads) : i < 4104 := by
  rcases hi with hi | ⟨k, hk, hi⟩ | hi | hi | hi <;> omega

/-- Of the El Torito descriptor, type and identifiers are compared, and the rest has to be there. -/
theorem isSome_elTorito_eq_of_agree {a b : List UInt8} (ho : AgreeOn opticalReads a b)
    (ha : 34891 ≤ a.length) (hb : 34891 ≤ b.length) :
    (Magic.elTorito a).isSome = (Magic.elTorito b).isSome := by
  have hlenMagic : Magic.iso9660Magic.length = 5 := rfl
  have hlenId : Magic.elToritoId.length = 23 := rfl
  have hlenType : [(0x00 : UInt8)].length = 1 := rfl
  rw [Bool.eq_iff_iff, Magic.isSome_elTorito_iff, Magic.isSome_elTorito_iff]
  refine and_congr (iff_of_true ha hb) (and_congr ?_ (and_congr ?_ ?_))
  all_goals
    refine ho.occursAt_iff (by decide) fun i ⟨hlo, hhi⟩ => ?_
    simp only [opticalReads, Set.mem_ofPred_eq]
    omega

section Reads

variable {a b : List UInt8} (h : AgreeOn bootReads a b)

include h

theorem detectCompression_eq_of_agree :
    Magic.detectCompression a = Magic.detectCompression b := by
  have hmagic : ∀ c : Magic.Compression, ∀ m ∈ c.magics, m ≠ [] ∧ m.length ≤ 6 := by
    intro c
    cases c <;> decide
  apply Option.ext
  intro c
  simp only [Magic.detectCompression_eq_some_iff, Magic.HasMagic]
  refine exists_congr fun m => and_congr_right fun hm => ?_
  obtain ⟨hne, hlen⟩ := hmagic c m hm
  have hread : OccursAt m 0 a ↔ OccursAt m 0 b := h.occursAt_iff hne fun i hi =>
    Or.inl (by have := hi.2; omega)
  rwa [occursAt_iff_prefix_drop (Nat.zero_le _), occursAt_iff_prefix_drop (Nat.zero_le _)] at hread

theorem mbrSignature_eq_of_agree : Magic.mbrSignature a = Magic.mbrSignature b := by
  rw [Bool.eq_iff_iff, Magic.mbrSignature_iff, Magic.mbrSignature_iff]
  refine h.occursAt_iff (by decide) fun i ⟨hlo, hhi⟩ => ?_
  have hlen : [(0x55 : UInt8), 0xAA].length = 2 := rfl
  simp only [bootReads, Set.mem_ofPred_eq]
  omega

theorem hasGpt_eq_of_agree : Magic.hasGpt a = Magic.hasGpt b := by
  have hlen : Magic.gptMagic.length = 8 := rfl
  rw [Bool.eq_iff_iff, Magic.hasGpt_iff, Magic.hasGpt_iff]
  refine or_congr ?_ ?_
  all_goals
    refine h.occursAt_iff (by decide) fun i ⟨hlo, hhi⟩ => ?_
    simp only [bootReads, Set.mem_ofPred_eq]
    omega

theorem getD_eq_of_agree {i : ℕ} (hi : i ∈ bootReads) : a.getD i 0 = b.getD i 0 := h.getD_eq hi 0

/-- A test of a partition entry that does not look at its status byte. -/
theorem someEntry_eq_of_agree {p : Magic.MbrPartition → Bool}
    (hp : ∀ s s' t l n, p ⟨s, t, l, n⟩ = p ⟨s', t, l, n⟩) : someEntry p a = someEntry p b := by
  have hentry : ∀ i < 4, p (Magic.entryAt a i) = p (Magic.entryAt b i) := by
    intro i hi
    have hbyte : ∀ j, j = 4 ∨ 8 ≤ j ∧ j < 16 →
        a.getD (446 + 16 * i + j) 0 = b.getD (446 + 16 * i + j) 0 := by
      intro j hj
      exact getD_eq_of_agree h (Or.inr (Or.inl ⟨i, hi, by omega⟩))
    rw [Magic.entryAt_eq, Magic.entryAt_eq, hp _ (b.getD (446 + 16 * i) 0)]
    simp only [hbyte, Nat.reduceLeDiff, Nat.reduceLT, and_self, or_true, true_or]
  simp only [someEntry, mbrSignature_eq_of_agree h]
  congr 1
  rw [Bool.eq_iff_iff, List.any_eq_true, List.any_eq_true]
  refine exists_congr fun i => and_congr_right fun hi => ?_
  rw [hentry i (List.mem_range.1 hi)]

theorem classifyHybrid_eq_of_agree : classifyHybrid a = classifyHybrid b := by
  rw [classifyHybrid_eq, classifyHybrid_eq, hasGpt_eq_of_agree h,
    someEntry_eq_of_agree h fun _ _ _ _ _ => rfl, someEntry_eq_of_agree h fun _ _ _ _ _ => rfl]

theorem isFatOrNtfsBootsector_eq_of_agree :
    Magic.isFatOrNtfsBootsector a = Magic.isFatOrNtfsBootsector b := by
  rw [Bool.eq_iff_iff, Magic.isFatOrNtfsBootsector_iff, Magic.isFatOrNtfsBootsector_iff,
    mbrSignature_eq_of_agree h, getD_eq_of_agree h (i := 0) (Or.inl (by decide)),
    getD_eq_of_agree h (i := 2) (Or.inl (by decide))]

theorem isNtfsBootsector_eq_of_agree : Magic.isNtfsBootsector a = Magic.isNtfsBootsector b := by
  have hlen : (asBytes "NTFS    ").length = 8 := by decide
  rw [Bool.eq_iff_iff, Magic.isNtfsBootsector_iff, Magic.isNtfsBootsector_iff,
    isFatOrNtfsBootsector_eq_of_agree h]
  exact and_congr_right fun _ =>
    h.occursAt_iff (by decide) fun i ⟨hlo, hhi⟩ => Or.inl (by omega)

theorem isExt_eq_of_agree : Magic.isExt a = Magic.isExt b := by
  have hlen : [(0x53 : UInt8), 0xEF].length = 2 := rfl
  rw [Bool.eq_iff_iff, Magic.isExt_iff, Magic.isExt_iff]
  refine h.occursAt_iff (by decide) fun i ⟨hlo, hhi⟩ => ?_
  simp only [bootReads, Set.mem_ofPred_eq]
  omega

theorem isWim_eq_of_agree : Magic.isWim a = Magic.isWim b := by
  have hlen : Magic.wimMagic.length = 8 := rfl
  have hlenPipable : Magic.wimPipableMagic.length = 8 := rfl
  rw [Bool.eq_iff_iff, Magic.isWim_iff, Magic.isWim_iff]
  refine or_congr ?_ ?_
  all_goals exact h.occursAt_iff (by decide) fun i ⟨hlo, hhi⟩ => Or.inl (by omega)

/-- The probes see nothing outside `bootReads` and `opticalReads`, once both heads reach past the
El Torito descriptor. -/
theorem sameProbes_of_agree (ho : AgreeOn opticalReads a b) (ha : 34891 ≤ a.length)
    (hb : 34891 ≤ b.length) : SameProbes a b where
  detectCompression := detectCompression_eq_of_agree h
  hasIso9660 := Magic.hasIso9660_congr ho fun i hi => Or.inl hi
  classifyHybrid := classifyHybrid_eq_of_agree h
  elTorito := isSome_elTorito_eq_of_agree ho ha hb
  isWim := isWim_eq_of_agree h
  hasGpt := hasGpt_eq_of_agree h
  hasMbrPartitionTable := by
    rw [hasMbrPartitionTable_eq_someEntry, hasMbrPartitionTable_eq_someEntry,
      someEntry_eq_of_agree h fun _ _ _ _ _ => rfl]
  isNtfsBootsector := isNtfsBootsector_eq_of_agree h
  isFatOrNtfsBootsector := isFatOrNtfsBootsector_eq_of_agree h
  isExt := isExt_eq_of_agree h

end Reads

theorem agreeOn_bootReads_of_extension {a b : List UInt8} (hp : a <+: b)
    (ha : 4104 ≤ a.length) : AgreeOn bootReads a b :=
  agreeOn_of_extension hp fun _ hi => (lt_of_mem_bootReads hi).trans_le ha

/-- A head that reaches past the El Torito descriptor already shows what any longer head shows,
the walk over the Volume Recognition Sequence aside. -/
theorem sameProbes_of_extension {a b : List UInt8} (hp : a <+: b) (ha : 34891 ≤ a.length) :
    SameProbes a b := by
  refine sameProbes_of_agree (agreeOn_bootReads_of_extension hp (by omega))
    (agreeOn_of_extension hp fun i hi => ?_) ha (ha.trans hp.length_le)
  rcases hi with hi | hi <;> omega

end Osedax
