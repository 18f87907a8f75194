import Osedax.Detect.Classify

/-!
# How much of the head is enough

`headLen` covers every window of the tree except the tail of the Volume Recognition Sequence:
`hasUdf` walks sixteen descriptors, the last of which ends at byte 63494.  Inspecting a truncated
head is therefore exact as long as the cut does not hide the only NSR descriptors of the image
(`inspect_take_eq_iff`); `detectionHeadLen` is past the last window, and enough for every image.
-/

namespace Osedax

open Window Magic

theorem hasUdf_take_iff {image : List UInt8} {n : ℕ} :
    hasUdf (image.take n) = true ↔
      ∃ k < 16, NsrAt k image ∧ 32769 + 2048 * k + 5 ≤ n := by
  simp only [hasUdf_iff, nsrAt_take_iff]

/-- The only probe that can tell a head of at least `headLen` bytes from the image is the walk. -/
theorem sameProbes_take {image : List UInt8} {n : ℕ} (hn : headLen ≤ n) :
    SameProbes (image.take n) image := by
  by_cases hlen : image.length ≤ n
  · rw [List.take_of_length_le hlen]
    exact ⟨rfl, rfl, rfl, rfl, rfl, rfl, rfl, rfl, rfl, rfl⟩
  · refine sameProbes_of_extension (List.take_prefix n image) ?_
    rw [List.length_take]
    simp only [headLen] at hn
    omega

theorem inspect_eq_iff {a b : List UInt8} {name : String} :
    inspect a name = inspect b name ↔ classify a = classify b := by
  apply Iff.intro
  · exact congrArg Verdict.kind
  · intro h
    simp only [inspect, h]

/-- When no compression magic decides first, a hidden NSR descriptor changes the kind: it is the
`udf` field of an optical image, and may be all that makes the image optical. -/
theorem classify_ne_of_hasUdf_ne {a b : List UInt8} (hb : detectCompression b = none)
    (ha : hasUdf a = false) (hudf : hasUdf b = true) : classify a ≠ classify b := by
  have hiso : classify b = .iso (classifyHybrid b) true (elTorito b).isSome :=
    classify_eq_iso_iff.2 ⟨hb, Or.inr hudf, rfl, hudf, rfl⟩
  rw [hiso]
  intro h
  have := (classify_eq_iso_iff.1 h).2.2.2.1
  rw [ha] at this
  exact Bool.false_ne_true this

theorem inspect_take_eq_iff_hasUdf {image : List UInt8} {name : String} {n : ℕ}
    (hn : headLen ≤ n) : inspect (image.take n) name = inspect image name ↔
      detectCompression image ≠ none ∨ hasUdf (image.take n) = hasUdf image := by
  have hsame : SameProbes (image.take n) image := sameProbes_take hn
  rw [inspect_eq_iff]
  by_cases hudf : hasUdf (image.take n) = hasUdf image
  · exact iff_of_true (hsame.classify_eq hudf) (Or.inr hudf)
  · rw [or_iff_left hudf]
    have htake : hasUdf (image.take n) = false := by
      rw [Bool.eq_false_iff]
      intro h
      obtain ⟨k, hk, hnsr, -⟩ := hasUdf_take_iff.1 h
      exact hudf (h.trans (hasUdf_iff.2 ⟨k, hk, hnsr⟩).symm)
    have hwhole : hasUdf image = true := by
      rw [htake] at hudf
      exact Bool.eq_true_of_not_eq_false (Ne.symm hudf)
    apply Iff.intro
    · intro h hnone
      exact classify_ne_of_hasUdf_ne hnone htake hwhole h
    · intro h
      obtain ⟨c, hc⟩ := Option.ne_none_iff_exists'.1 h
      have htakeC := hsame.detectCompression.trans hc
      rw [classify_eq_compressed_iff.2 hc, classify_eq_compressed_iff.2 htakeC]

/-- A head cut at `n` bytes gets the verdict of the whole image exactly when the cut hides no
decisive NSR descriptor. -/
theorem inspect_take_eq_iff {image : List UInt8} {name : String} {n : ℕ} (hn : headLen ≤ n) :
    inspect (image.take n) name = inspect image name ↔
      (∃ c, HasMagic c image) ∨ (∀ k < 16, ¬ NsrAt k image) ∨
        ∃ k < 16, NsrAt k image ∧ 32769 + 2048 * k + 5 ≤ n := by
  rw [inspect_take_eq_iff_hasUdf hn, Option.ne_none_iff_exists']
  refine or_congr (exists_congr fun c => detectCompression_eq_some_iff) ?_
  rw [Bool.eq_iff_iff, hasUdf_take_iff, hasUdf_iff]
  apply Iff.intro
  · intro h
    by_cases hnone : ∀ k < 16, ¬ NsrAt k image
    · exact Or.inl hnone
    · push Not at hnone
      exact Or.inr (h.2 hnone)
  · rintro (h | h)
    · exact iff_of_false (fun ⟨k, hk, hnsr, _⟩ => h k hk hnsr) fun ⟨k, hk, hnsr⟩ => h k hk hnsr
    · obtain ⟨k, hk, hnsr, -⟩ := id h
      exact iff_of_true h ⟨k, hk, hnsr⟩

/-- An image of `m` zero bytes that ends in an NSR identifier. -/
def nsrAfterZeros (m : ℕ) : List UInt8 := List.replicate m 0x00 ++ udfNsr02

/-- An image with a file behind its fourth descriptor, longer than `headLen`. -/
def earlyNsr : List UInt8 := nsrAfterZeros (32769 + 2048 * 3) ++ List.replicate 4096 0x00

theorem inspect_take_eq_iff_earlyNsr : headLen < earlyNsr.length ∧
    inspect (earlyNsr.take headLen) "" = inspect earlyNsr "" := by
  have hnsr : NsrAt 3 earlyNsr := by
    refine Or.inl ⟨List.replicate (32769 + 2048 * 3) 0x00, List.replicate 4096 0x00, ?_,
      List.length_replicate⟩
    rw [earlyNsr, nsrAfterZeros, List.append_assoc]
  refine ⟨?_, (inspect_take_eq_iff le_rfl).2 (Or.inr (Or.inr ⟨3, by decide, hnsr, by decide⟩))⟩
  have hlen : udfNsr02.length = 5 := rfl
  simp only [earlyNsr, nsrAfterZeros, List.length_append, List.length_replicate, hlen]
  decide

theorem hasUdf_nsrAfterZeros {k : ℕ} (hk : k < 16) :
    hasUdf (nsrAfterZeros (32769 + 2048 * k)) = true :=
  hasUdf_iff.2 ⟨k, hk, Or.inl ⟨List.replicate _ 0x00, [], by rw [nsrAfterZeros, List.append_nil],
    List.length_replicate⟩⟩

theorem getD_nsrAfterZeros {m i : ℕ} (hi : i < m) : (nsrAfterZeros m).getD i 0 = 0 := by
  unfold nsrAfterZeros
  rw [List.getD_append _ _ _ _ (by rwa [List.length_replicate]),
    List.getD_replicate _ hi]

/-- `headLen` bytes are not enough: an image with its NSR descriptor in the sixth place is
optical, its first `headLen` bytes are not. -/
theorem inspect_take_nsrAfterZeros_ne :
    inspect ((nsrAfterZeros (32769 + 2048 * 5)).take headLen) "" ≠
      inspect (nsrAfterZeros (32769 + 2048 * 5)) "" := by
  have hnone : detectCompression (nsrAfterZeros (32769 + 2048 * 5)) = none :=
    detectCompression_eq_none_iff.2 (not_hasMagic_of_zero (getD_nsrAfterZeros (by omega)))
  have htake : hasUdf ((nsrAfterZeros (32769 + 2048 * 5)).take headLen) = false := by
    rw [Bool.eq_false_iff]
    intro h
    obtain ⟨k, -, hnsr, hend⟩ := hasUdf_take_iff.1 h
    simp only [headLen] at hend
    have hbyte := hnsr.getD_eq
    rw [getD_nsrAfterZeros (by omega)] at hbyte
    exact absurd hbyte (by decide)
  rw [Ne, inspect_eq_iff]
  exact classify_ne_of_hasUdf_ne hnone htake (hasUdf_nsrAfterZeros (by decide))

/-- The length that the callers are told to read is enough for every image. -/
theorem inspect_take_of_detectionHeadLen_le {image : List UInt8} {name : String} {n : ℕ}
    (hn : detectionHeadLen ≤ n) : inspect (image.take n) name = inspect image name := by
  simp only [detectionHeadLen] at hn
  have hhead : headLen ≤ n := by
    simp only [headLen]
    omega
  refine (inspect_take_eq_iff_hasUdf hhead).2 (Or.inr ?_)
  rw [Bool.eq_iff_iff, hasUdf_take_iff, hasUdf_iff]
  refine exists_congr fun k => and_congr_right fun hk => and_iff_left ?_
  omega

end Osedax
