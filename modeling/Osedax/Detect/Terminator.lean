import Osedax.Detect.HeadLength

/-!
# The end of the Volume Recognition Sequence

The documentation of `hasUdf` says that the walk stops at a terminator.  It does not: the loop
never looks for `TEA01` and goes on to whatever follows the sequence.  It agrees with its
documentation exactly on the images where no NSR descriptor is reached only past a terminator, and
what follows a terminator is seen unless the branch is decided before (`isoEndsAt_iff`).
-/

namespace Osedax

open Window Magic

/-- Descriptor `k` of the Volume Recognition Sequence is the terminator. -/
def TeaAt (k : ℕ) (buf : List UInt8) : Prop := OccursAt udfTea01 (32769 + 2048 * k) buf

/-- The documented answer: an NSR descriptor before any terminator. -/
def UdfInSequence (buf : List UInt8) : Prop := ∃ k < 16, NsrAt k buf ∧ ∀ j < k, ¬ TeaAt j buf

/-- Where an NSR descriptor follows a terminator, another one stands before that terminator. -/
def NsrBeforeTerminator (buf : List UInt8) : Prop :=
  ∀ j k, j < k → k < 16 → TeaAt j buf → NsrAt k buf → ∃ i < j, NsrAt i buf

theorem not_teaAt_of_nsrAt {k : ℕ} {buf : List UInt8} (h : NsrAt k buf) : ¬ TeaAt k buf := by
  intro ht
  have hbyte := ht.getD_eq (i := 0) (by decide) 0
  rw [Nat.add_zero, h.getD_eq] at hbyte
  exact absurd hbyte (by decide)

theorem hasUdf_of_udfInSequence {buf : List UInt8} (h : UdfInSequence buf) : hasUdf buf = true := by
  obtain ⟨k, hk, hnsr, -⟩ := h
  exact hasUdf_iff.2 ⟨k, hk, hnsr⟩

/-- The first NSR descriptor decides. -/
theorem udfInSequence_of_nsrBeforeTerminator {buf : List UInt8} (hbefore : NsrBeforeTerminator buf)
    {k : ℕ} (hk : k < 16) (hnsr : NsrAt k buf) : UdfInSequence buf := by
  induction k using Nat.strong_induction_on with
  | _ k ih =>
    by_cases hfirst : ∀ j < k, ¬ TeaAt j buf
    · exact ⟨k, hk, hnsr, hfirst⟩
    · push Not at hfirst
      obtain ⟨j, hj, htea⟩ := hfirst
      obtain ⟨i, hi, hnsr'⟩ := hbefore j k hj hk htea hnsr
      exact ih i (hi.trans hj) (by omega) hnsr'

theorem hasUdf_iff_udfInSequence {buf : List UInt8} :
    (hasUdf buf = true ↔ UdfInSequence buf) ↔ NsrBeforeTerminator buf := by
  apply Iff.intro
  · intro h j k hj hk htea hnsr
    obtain ⟨i, -, hnsr', hno⟩ := h.1 (hasUdf_iff.2 ⟨k, hk, hnsr⟩)
    have hij : ¬ j < i := fun hlt => hno j hlt htea
    have hne : i ≠ j := by
      rintro rfl
      exact not_teaAt_of_nsrAt hnsr' htea
    exact ⟨i, by omega, hnsr'⟩
  · intro h
    refine ⟨fun hudf => ?_, hasUdf_of_udfInSequence⟩
    obtain ⟨k, hk, hnsr⟩ := hasUdf_iff.1 hudf
    exact udfInSequence_of_nsrBeforeTerminator h hk hnsr

/-! ## Data behind the terminator -/

/-- What stands behind the sector of descriptor `j` has no part in the choice of the optical branch
and in its `udf` field. -/
def IsoEndsAt (j : ℕ) (buf : List UInt8) : Prop :=
  ∀ other, AgreeOn (Set.Iio (34816 + 2048 * j)) buf other →
    ∀ udf, (∃ hybrid et, classify buf = .iso hybrid udf et) ↔
      ∃ hybrid et, classify other = .iso hybrid udf et

/-- The identifiers of the descriptors up to `j` stand before the next sector. -/
theorem descriptor_below {j k : ℕ} (hk : k ≤ j) :
    Set.Ico (32769 + 2048 * k) (32769 + 2048 * k + 5) ⊆ Set.Iio (34816 + 2048 * j) := by
  rintro i ⟨-, hi⟩
  show i < _
  omega

section

variable {a b : List UInt8} {j : ℕ} (h : AgreeOn (Set.Iio (34816 + 2048 * j)) a b)

include h

theorem detectCompression_eq_of_agree_below : detectCompression a = detectCompression b := by
  refine detectCompression_eq_of_agree (h.mono fun i hi => ?_)
  exact (lt_of_mem_bootReads hi).trans_le (by omega)

/-- Of the probes behind the first sectors the branch asks the walk only. -/
theorem iso_iff_of_hasUdf_eq (hudf : hasUdf a = hasUdf b) (udf : Bool) :
    (∃ hybrid et, classify a = .iso hybrid udf et) ↔
      ∃ hybrid et, classify b = .iso hybrid udf et := by
  have hiso : hasIso9660 a = hasIso9660 b :=
    hasIso9660_congr h (descriptor_below (Nat.zero_le j))
  simp only [classify_eq_iso_iff, hudf, hiso, detectCompression_eq_of_agree_below h]
  apply Iff.intro
  all_goals
    rintro ⟨_, _, hnone, hopt, -, rfl, -⟩
    exact ⟨_, _, hnone, hopt, rfl, rfl, rfl⟩

/-- A descriptor that is found before the cut is found behind any other tail. -/
theorem hasUdf_eq_of_nsrAt {i : ℕ} (hi : i ≤ j) (hi16 : i < 16) (hnsr : NsrAt i a) :
    hasUdf a = hasUdf b := by
  have hnsr' : NsrAt i b := (nsrAt_congr h (descriptor_below hi)).1 hnsr
  rw [hasUdf_iff.2 ⟨i, hi16, hnsr⟩, hasUdf_iff.2 ⟨i, hi16, hnsr'⟩]

/-- From the last descriptor on nothing is left to walk. -/
theorem hasUdf_eq_of_le (hj : 15 ≤ j) : hasUdf a = hasUdf b := by
  rw [Bool.eq_iff_iff, hasUdf_iff, hasUdf_iff]
  exact exists_congr fun k => and_congr_right fun hk =>
    nsrAt_congr h (descriptor_below (by omega))

end

section

variable {buf : List UInt8} {j : ℕ}

theorem isoEndsAt_of_hasMagic {c : Compression} (hmagic : HasMagic c buf) : IsoEndsAt j buf := by
  intro other h udf
  have hbuf : detectCompression buf = some c := detectCompression_eq_some_iff.2 hmagic
  have hother : detectCompression other = some c := by
    rw [← detectCompression_eq_of_agree_below h, hbuf]
  simp only [classify_eq_iso_iff, hbuf, hother, Option.some_ne_none, false_and, exists_false]

/-- The image ends with the terminator's sector, or an NSR descriptor stands in the next one. -/
theorem exists_tails (htea : TeaAt j buf) (hj : j < 15) (hlen : 34816 + 2048 * j ≤ buf.length)
    (hfirst : ∀ i < j, ¬ NsrAt i buf) : ∃ short long,
      AgreeOn (Set.Iio (34816 + 2048 * j)) buf short ∧ hasUdf short = false ∧
      AgreeOn (Set.Iio (34816 + 2048 * j)) buf long ∧ hasUdf long = true := by
  have htake : (buf.take (34816 + 2048 * j)).length = 34816 + 2048 * j :=
    List.length_take_of_le hlen
  have hbelow : ∀ i ∈ Set.Iio (34816 + 2048 * j), i < (buf.take (34816 + 2048 * j)).length :=
    fun i hi => htake.symm ▸ hi
  have hshort : AgreeOn (Set.Iio (34816 + 2048 * j)) buf (buf.take (34816 + 2048 * j)) :=
    (agreeOn_of_extension (List.take_prefix _ _) hbelow).symm
  refine ⟨_, buf.take (34816 + 2048 * j) ++ (0x00 :: udfNsr02), hshort, ?_, ?_, ?_⟩
  · rw [Bool.eq_false_iff]
    intro hudf
    obtain ⟨k, -, hnsr, hend⟩ := hasUdf_take_iff.1 hudf
    have hkj : ¬ k < j := fun hlt => hfirst k hlt hnsr
    obtain rfl : k = j := by omega
    exact not_teaAt_of_nsrAt hnsr htea
  · exact hshort.trans (agreeOn_of_extension (List.prefix_append _ _) hbelow)
  · refine hasUdf_iff.2 ⟨j + 1, by omega, Or.inl ?_⟩
    refine ⟨buf.take (34816 + 2048 * j) ++ [0x00], [], ?_, ?_⟩
    · simp only [List.append_assoc, List.singleton_append, List.append_nil]
    · rw [List.length_append, htake, List.length_singleton]
      omega

/-- Where a terminator stands, the branch ends there exactly if it is not taken for a compressed
image, is decided before, or has nothing left behind it to see. -/
theorem isoEndsAt_iff (htea : TeaAt j buf) : IsoEndsAt j buf ↔
    (∃ c, HasMagic c buf) ∨ (∃ i < j, NsrAt i buf) ∨ 15 ≤ j ∨
      buf.length < 34816 + 2048 * j := by
  apply Iff.intro
  · intro hends
    by_contra hno
    simp only [not_or, not_exists, not_and, not_le, not_lt] at hno
    obtain ⟨hmagic, hfirst, hj, hlen⟩ := hno
    obtain ⟨short, long, hshort, hshortUdf, hlong, hlongUdf⟩ := exists_tails htea hj hlen hfirst
    have hnone : detectCompression long = none := by
      rw [← detectCompression_eq_of_agree_below hlong]
      exact detectCompression_eq_none_iff.2 hmagic
    -- both tails give the answer of `buf`, one with an NSR descriptor and one without
    have hiso : ∃ hybrid et, classify long = .iso hybrid true et :=
      ⟨_, _, classify_eq_iso_iff.2 ⟨hnone, Or.inr hlongUdf, rfl, hlongUdf, rfl⟩⟩
    obtain ⟨_, _, hiso'⟩ := (hends short hshort true).1 ((hends long hlong true).2 hiso)
    have hudf := (classify_eq_iso_iff.1 hiso').2.2.2.1
    rw [hshortUdf] at hudf
    exact Bool.false_ne_true hudf
  · rintro (⟨c, hmagic⟩ | ⟨i, hi, hnsr⟩ | hj | hlen)
    · exact isoEndsAt_of_hasMagic hmagic
    · intro other h
      by_cases hi16 : i < 16
      · exact iso_iff_of_hasUdf_eq h (hasUdf_eq_of_nsrAt h hi.le hi16 hnsr)
      · exact iso_iff_of_hasUdf_eq h (hasUdf_eq_of_le h (by omega))
    · exact fun other h => iso_iff_of_hasUdf_eq h (hasUdf_eq_of_le h hj)
    · intro other h udf
      rw [h.eq_of_length_lt hlen]

end

/-- The walk keeps to its documentation exactly when no NSR descriptor is found only past a
terminator.  The optical branch ends at a terminator exactly when the image is taken for a
compressed one, an NSR descriptor stands before the terminator, or no descriptor can follow it. -/
theorem hasUdf_stops_iff (buf : List UInt8) :
    ((hasUdf buf = true ↔ UdfInSequence buf) ↔ NsrBeforeTerminator buf) ∧
    ∀ j, TeaAt j buf → (IsoEndsAt j buf ↔
      (∃ c, HasMagic c buf) ∨ (∃ i < j, NsrAt i buf) ∨ 15 ≤ j ∨
        buf.length < 34816 + 2048 * j) :=
  ⟨hasUdf_iff_udfInSequence, fun _ htea => isoEndsAt_iff htea⟩

/-- A sequence that ends in its first descriptor, with file data that looks like an NSR descriptor
in the sector behind it. -/
def nsrBehindTerminator : List UInt8 :=
  List.replicate 32769 0x00 ++ (udfTea01 ++ (List.replicate 2043 0x00 ++ udfNsr02))

theorem hasUdf_nsrBehindTerminator :
    hasUdf nsrBehindTerminator = true ∧ ¬ UdfInSequence nsrBehindTerminator := by
  have htea : TeaAt 0 nsrBehindTerminator := ⟨_, _, rfl, List.length_replicate⟩
  have hnsr : NsrAt 1 nsrBehindTerminator := by
    refine Or.inl ⟨List.replicate 32769 0x00 ++ (udfTea01 ++ List.replicate 2043 0x00), [], ?_, ?_⟩
    · simp only [nsrBehindTerminator, List.append_assoc, List.append_nil]
    · have hlen : udfTea01.length = 5 := rfl
      simp only [List.length_append, List.length_replicate, hlen]
  refine ⟨hasUdf_iff.2 ⟨1, by decide, hnsr⟩, ?_⟩
  rintro ⟨k, -, hk, hno⟩
  cases k with
  | zero => exact not_teaAt_of_nsrAt hk htea
  | succ k => exact hno 0 (Nat.succ_pos k) htea

end Osedax
