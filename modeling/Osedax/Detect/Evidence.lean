import Osedax.Detect.Extension
import Osedax.Detect.Warning

/-!
# The strongest evidence

What the bytes of a head are evidence for, one rule for each kind and in no order (`Evidence`).
A head can be evidence for several kinds: an isohybrid is an ISO and a disk image, an NTFS volume
an MBR.  The tree answers with the one of highest rank, and that is all it does:
`classify_eq_iff_strongest`.
-/

namespace Osedax

open Window Magic

/-! ## Evidence -/

/-- The boot sector starts with a jump and has the signature. -/
def BootSector (head : List UInt8) : Prop :=
  OccursAt [0x55, 0xAA] 510 head ∧
    (head.getD 0 0 = 0xEB ∧ head.getD 2 0 = 0x90 ∨ head.getD 0 0 = 0xE9)

/-- Entry `i` of the partition table has a type, and a start or a length. -/
def EntryUsed (head : List UInt8) (i : ℕ) : Prop :=
  head.getD (446 + 16 * i + 4) 0 ≠ 0 ∧
    (le32At head (446 + 16 * i + 8) ≠ 0 ∨ le32At head (446 + 16 * i + 12) ≠ 0)

/-- Entry `i` has one of the two UEFI types. -/
def EntryUefi (head : List UInt8) (i : ℕ) : Prop :=
  head.getD (446 + 16 * i + 4) 0 = 0xEE ∨ head.getD (446 + 16 * i + 4) 0 = 0xEF

/-- A GPT header stands where sectors of 512 or of 4096 bytes put it. -/
def GptHeader (head : List UInt8) : Prop :=
  OccursAt (asBytes "EFI PART") 512 head ∨ OccursAt (asBytes "EFI PART") 4096 head

/-- A signed partition table has an entry with the property. -/
def SignedEntry (p : List UInt8 → ℕ → Prop) (head : List UInt8) : Prop :=
  OccursAt [0x55, 0xAA] 510 head ∧ ∃ i < 4, p head i

/-- What the optical kind says of the head beside that it is optical. -/
structure OpticalFlags (head : List UInt8) (hybrid : IsoHybrid) (udf elTorito : Bool) : Prop where
  bios : hybrid = .biosHybrid ∨ hybrid = .biosAndUefiHybrid ↔
    SignedEntry (fun head i => EntryUsed head i ∧ ¬ EntryUefi head i) head
  uefi : hybrid = .uefiHybrid ∨ hybrid = .biosAndUefiHybrid ↔
    GptHeader head ∨ SignedEntry EntryUefi head
  udf : udf = true ↔ ∃ k < 16, NsrAt k head
  elTorito : elTorito = true ↔ 34891 ≤ head.length ∧ OccursAt [0x00] 34816 head ∧
    OccursAt (asBytes "CD001") 34817 head ∧ OccursAt (asBytes "EL TORITO SPECIFICATION") 34823 head

/-- The head is evidence that the image is of the kind. -/
inductive Evidence (head : List UInt8) : ImageKind → Prop
  | compressed (c : Compression) (h : HasMagic c head) : Evidence head (.compressed c)
  | iso (hybrid : IsoHybrid) (udf elTorito : Bool)
      (h : OccursAt (asBytes "CD001") 32769 head ∨ ∃ k < 16, NsrAt k head)
      (hflags : OpticalFlags head hybrid udf elTorito) : Evidence head (.iso hybrid udf elTorito)
  | wim (h : OccursAt wimMagic 0 head ∨ OccursAt wimPipableMagic 0 head) : Evidence head .wim
  | gpt (h : GptHeader head) : Evidence head (.diskImage true)
  | mbr (h : SignedEntry EntryUsed head) : Evidence head (.diskImage false)
  | ntfs (h : BootSector head) (hname : OccursAt (asBytes "NTFS    ") 3 head) :
      Evidence head (.bareFilesystem .ntfs)
  | fat (h : BootSector head) : Evidence head (.bareFilesystem .fat)
  | ext (h : OccursAt [0x53, 0xEF] 1080 head) : Evidence head (.bareFilesystem .ext)
  | unknown : Evidence head .unknown

/-! ## The probes look for it -/

variable {head : List UInt8} {kind : ImageKind}

theorem bootSector_iff : isFatOrNtfsBootsector head = true ↔ BootSector head := by
  rw [isFatOrNtfsBootsector_iff, mbrSignature_iff]
  rfl

theorem gptHeader_iff : hasGpt head = true ↔ GptHeader head := hasGpt_iff

theorem signedEntry_iff {p : MbrPartition → Bool} {q : List UInt8 → ℕ → Prop}
    (h : ∀ i, p (entryAt head i) = true ↔ q head i) :
    someEntry p head = true ↔ SignedEntry q head := by
  rw [someEntry_iff, mbrSignature_iff]
  simp only [h]
  rfl

theorem entryUefi_iff {i : ℕ} :
    ((entryAt head i).isGptProtective || (entryAt head i).isEsp) = true ↔ EntryUefi head i := by
  rw [Bool.or_eq_true, MbrPartition.isGptProtective, MbrPartition.isEsp, entryAt_eq, beq_iff_eq,
    beq_iff_eq]
  rfl

theorem ofFlags_bios_iff (bios uefi : Bool) : IsoHybrid.ofFlags bios uefi = .biosHybrid ∨
    IsoHybrid.ofFlags bios uefi = .biosAndUefiHybrid ↔ bios = true := by
  cases bios <;> cases uefi <;> decide

theorem ofFlags_uefi_iff (bios uefi : Bool) : IsoHybrid.ofFlags bios uefi = .uefiHybrid ∨
    IsoHybrid.ofFlags bios uefi = .biosAndUefiHybrid ↔ uefi = true := by
  cases bios <;> cases uefi <;> decide

/-- Branch 1a and the flags of the kind say what the bytes show. -/
theorem opticalFlags_classify (head : List UInt8) :
    OpticalFlags head (classifyHybrid head) (hasUdf head) (elTorito head).isSome := by
  have hbios : someEntry (fun e => e.isUsed && !e.isGptProtective && !e.isEsp) head = true ↔
      SignedEntry (fun head i => EntryUsed head i ∧ ¬ EntryUefi head i) head := by
    refine signedEntry_iff fun i => ?_
    rw [← entryUefi_iff, EntryUsed, ← isUsed_entryAt_iff]
    simp [and_assoc]
  have huefi : someEntry (fun e => e.isGptProtective || e.isEsp) head = true ↔
      SignedEntry EntryUefi head := signedEntry_iff fun i => entryUefi_iff
  refine ⟨?_, ?_, hasUdf_iff, isSome_elTorito_iff⟩
  · rw [← hbios, classifyHybrid_eq, ofFlags_bios_iff]
  · rw [← huefi, ← gptHeader_iff, ← Bool.or_eq_true, classifyHybrid_eq, ofFlags_uefi_iff]

/-- The flags are determined by the bytes. -/
theorem OpticalFlags.eq {hybrid hybrid' : IsoHybrid} {udf udf' et et' : Bool}
    (h : OpticalFlags head hybrid udf et) (h' : OpticalFlags head hybrid' udf' et') :
    hybrid = hybrid' ∧ udf = udf' ∧ et = et' := by
  refine ⟨?_, Bool.eq_iff_iff.2 (h.udf.trans h'.udf.symm),
    Bool.eq_iff_iff.2 (h.elTorito.trans h'.elTorito.symm)⟩
  have hbios := h.bios.trans h'.bios.symm
  have huefi := h.uefi.trans h'.uefi.symm
  cases hybrid <;> cases hybrid' <;> simp at hbios huefi ⊢

/-! ## The tree takes the strongest -/

/-- The answer of the tree is supported by the head. -/
theorem evidence_classify (head : List UInt8) : Evidence head (classify head) := by
  cases hc : detectCompression head with
  | some c =>
    rw [classify_eq_compressed_iff.2 hc]
    exact .compressed c (detectCompression_eq_some_iff.1 hc)
  | none =>
    by_cases hoptical : hasIso9660 head = true ∨ hasUdf head = true
    · rw [classify_eq_iso_iff.2 ⟨hc, hoptical, rfl, rfl, rfl⟩]
      refine .iso _ _ _ ?_ (opticalFlags_classify head)
      rwa [hasIso9660_iff, hasUdf_iff] at hoptical
    · rw [not_or, Bool.not_eq_true, Bool.not_eq_true] at hoptical
      unfold classify
      simp only [hc, hoptical, Bool.or_self, Bool.false_eq_true, ↓reduceIte]
      split_ifs with hwim hgpt hmbr hntfs hfat hext
      · exact .wim (isWim_iff.1 hwim)
      · exact .gpt (gptHeader_iff.1 hgpt)
      · rw [hasMbrPartitionTable_eq_someEntry] at hmbr
        exact .mbr ((signedEntry_iff fun i => isUsed_entryAt_iff).1 hmbr)
      · obtain ⟨hboot, hname⟩ := isNtfsBootsector_iff.1 hntfs
        exact .ntfs (bootSector_iff.1 hboot) hname
      · exact .fat (bootSector_iff.1 hfat)
      · exact .ext (isExt_iff.1 hext)
      · exact .unknown

/-- Evidence for a kind makes the test of its step fire. -/
theorem Evidence.fires (h : Evidence head kind) (hkind : kind ≠ .unknown) :
    ∃ test, treeSteps[8 - kind.rank]? = some test ∧ test head = true := by
  cases h with
  | compressed c h =>
    refine ⟨_, rfl, ?_⟩
    rw [detectCompression_eq_some_iff.2 h, Option.isSome_some]
  | iso hybrid udf et h hflags =>
    refine ⟨_, rfl, ?_⟩
    rw [Bool.or_eq_true, hasIso9660_iff, hasUdf_iff]
    exact h
  | wim h => exact ⟨_, rfl, isWim_iff.2 h⟩
  | gpt h => exact ⟨_, rfl, gptHeader_iff.2 h⟩
  | mbr h =>
    refine ⟨_, rfl, ?_⟩
    rw [hasMbrPartitionTable_eq_someEntry]
    exact (signedEntry_iff fun i => isUsed_entryAt_iff).2 h
  | ntfs h hname => exact ⟨_, rfl, isNtfsBootsector_iff.2 ⟨bootSector_iff.2 h, hname⟩⟩
  | fat h => exact ⟨_, rfl, bootSector_iff.2 h⟩
  | ext h => exact ⟨_, rfl, isExt_iff.2 h⟩
  | unknown => exact absurd rfl hkind

theorem rank_le_eight (kind : ImageKind) : kind.rank ≤ 8 := by
  cases kind with
  | diskImage gpt => cases gpt <;> decide
  | bareFilesystem hint => cases hint <;> decide
  | _ => simp [ImageKind.rank]

/-- No evidence outranks the answer. -/
theorem Evidence.rank_le (h : Evidence head kind) : kind.rank ≤ (classify head).rank := by
  by_cases hkind : kind = .unknown
  · rw [hkind]
    exact Nat.zero_le _
  · obtain ⟨test, hget, htest⟩ := h.fires hkind
    have hrank := rank_classify head
    have hbound := rank_le_eight kind
    have hfirst : treeSteps.findIdx (fun test => test head) ≤ 8 - kind.rank := by
      by_contra hlt
      obtain ⟨_, rfl⟩ := List.getElem?_eq_some_iff.1 hget
      have hnot := List.not_of_lt_findIdx (Nat.lt_of_not_le hlt)
      exact absurd htest (Bool.eq_false_iff.1 hnot)
    omega

/-- Two kinds of one rank are supported only if they are one kind. -/
theorem Evidence.eq_of_rank_eq {kind' : ImageKind} (h : Evidence head kind)
    (h' : Evidence head kind') (hrank : kind.rank = kind'.rank) : kind = kind' := by
  cases h with
  | compressed c h =>
    cases h' with
    | compressed c' h' =>
      -- the magics exclude each other
      have hsome := (detectCompression_eq_some_iff.2 h).symm.trans
        (detectCompression_eq_some_iff.2 h')
      rw [Option.some.inj hsome]
    | _ => simp [ImageKind.rank] at hrank
  | iso hybrid udf et h hflags =>
    cases h' with
    | iso hybrid' udf' et' h' hflags' =>
      obtain ⟨rfl, rfl, rfl⟩ := hflags.eq hflags'
      rfl
    | _ => simp [ImageKind.rank] at hrank
  | _ => cases h' <;> first | rfl | simp [ImageKind.rank] at hrank

/-- The tree answers with the kind of highest rank that the head is evidence for. -/
theorem classify_eq_iff_strongest : classify head = kind ↔
    Evidence head kind ∧ ∀ kind', Evidence head kind' → kind'.rank ≤ kind.rank := by
  apply Iff.intro
  · rintro rfl
    exact ⟨evidence_classify head, fun _ h => h.rank_le⟩
  · intro ⟨h, hmax⟩
    exact (evidence_classify head).eq_of_rank_eq h
      (le_antisymm (hmax _ (evidence_classify head)) h.rank_le)

end Osedax
