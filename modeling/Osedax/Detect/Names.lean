import Osedax.Detect.Tree
import Osedax.Support.Search

/-!
# The OpenBSD filename search

`hasOpenbsdIsoName` finds every `install` or `cd` that two digits follow: its loop resumes behind
each token it has tried, and neither token overlaps itself.  The flavor that a name suggests does
not depend on the case of its letters.
-/

namespace Osedax

open Window

/-! ## `str::find` -/

theorem find_eq_none_iff {pat s : List UInt8} : find pat s = none ↔ ∀ i, ¬ OccursAt pat i s := by
  induction s with
  | nil =>
    rw [find, ite_eq_right_iff]
    apply Iff.intro
    · intro h i hi
      have hlen := hi.length_le
      rw [List.length_nil, Nat.le_zero, Nat.add_eq_zero_iff, List.length_eq_zero_iff] at hlen
      exact absurd (h (List.isEmpty_iff.2 hlen.2)) (Option.some_ne_none 0)
    · intro h hempty
      refine absurd (occursAt_zero_iff.2 ?_) (h 0)
      rw [List.isEmpty_iff.1 hempty]
  | cons b s ih =>
    rw [find]
    split_ifs with hp
    · rw [List.isPrefixOf_iff_prefix] at hp
      exact iff_of_false not_false fun h => h 0 (occursAt_zero_iff.2 hp)
    · rw [List.isPrefixOf_iff_prefix] at hp
      rw [Option.map_eq_none_iff, ih]
      apply Iff.intro
      · intro h i hi
        cases i with
        | zero => exact hp (occursAt_zero_iff.1 hi)
        | succ i => exact h i (occursAt_succ_cons_iff.1 hi)
      · exact fun h i hi => h (i + 1) (occursAt_succ_cons_iff.2 hi)

/-- `find` answers the first occurrence. -/
theorem occursAt_of_find {pat s : List UInt8} {pos : ℕ} (h : find pat s = some pos) :
    OccursAt pat pos s ∧ ∀ i < pos, ¬ OccursAt pat i s := by
  induction s generalizing pos with
  | nil =>
    rw [find, Option.ite_none_right_eq_some, List.isEmpty_iff] at h
    obtain ⟨rfl, h⟩ := h
    obtain rfl := Option.some.inj h
    exact ⟨occursAt_zero_iff.2 List.nil_prefix, fun i hi => absurd hi (Nat.not_lt_zero i)⟩
  | cons b s ih =>
    rw [find] at h
    split_ifs at h with hp
    · obtain rfl := Option.some.inj h
      exact ⟨occursAt_zero_iff.2 (List.isPrefixOf_iff_prefix.1 hp),
        fun i hi => absurd hi (Nat.not_lt_zero i)⟩
    · rw [List.isPrefixOf_iff_prefix] at hp
      obtain ⟨q, hq, rfl⟩ := Option.map_eq_some_iff.1 h
      obtain ⟨hocc, hfirst⟩ := ih hq
      refine ⟨occursAt_succ_cons_iff.2 hocc, fun i hi hi' => ?_⟩
      cases i with
      | zero => exact hp (occursAt_zero_iff.1 hi')
      | succ i => exact hfirst i (Nat.lt_of_succ_lt_succ hi) (occursAt_succ_cons_iff.1 hi')

section

variable {pat s : List UInt8} {start : ℕ} (hstart : start ≤ s.length)

include hstart

theorem find_drop_eq_none_iff :
    find pat (s.drop start) = none ↔ ∀ i, start ≤ i → ¬ OccursAt pat i s := by
  rw [find_eq_none_iff]
  apply Iff.intro
  · intro h i hi hocc
    refine h (i - start) ((occursAt_drop_iff hstart).2 ?_)
    rwa [Nat.add_sub_cancel' hi]
  · intro h i hocc
    exact h (start + i) (Nat.le_add_right _ _) ((occursAt_drop_iff hstart).1 hocc)

/-- A search in the rest of a string answers the first occurrence from there on. -/
theorem occursAt_of_find_drop {pos : ℕ} (h : find pat (s.drop start) = some pos) :
    OccursAt pat (start + pos) s ∧ ∀ i, start ≤ i → i < start + pos → ¬ OccursAt pat i s := by
  obtain ⟨hocc, hfirst⟩ := occursAt_of_find h
  refine ⟨(occursAt_drop_iff hstart).1 hocc, fun i hi hlt hocc' => ?_⟩
  refine hfirst (i - start) (by omega) ((occursAt_drop_iff hstart).2 ?_)
  rwa [Nat.add_sub_cancel' hi]

end

theorem contains_iff {s pat : List UInt8} : contains s pat = true ↔ ∃ i, OccursAt pat i s := by
  rw [contains, ← not_iff_not, Bool.not_eq_true, Option.isSome_eq_false_iff,
    Option.isNone_iff_eq_none, find_eq_none_iff, not_exists]

/-! ## The search -/

/-- `token` stands at byte `i` of `s` with two digits behind it. -/
def ReleaseAt (token : List UInt8) (i : ℕ) (s : List UInt8) : Prop :=
  ∃ d₁ d₂, isAsciiDigit d₁ = true ∧ isAsciiDigit d₂ = true ∧ OccursAt (token ++ [d₁, d₂]) i s

/-- Somewhere in `s` stands `install` or `cd` with two digits behind it. -/
def ReleaseName (s : List UInt8) : Prop :=
  ∃ token ∈ [asBytes "install", asBytes "cd"], ∃ i, ReleaseAt token i s

theorem two_le_length_takeWhile_iff {α : Type*} {p : α → Bool} {l : List α} :
    2 ≤ (l.takeWhile p).length ↔ ∃ a b, p a = true ∧ p b = true ∧ [a, b] <+: l := by
  apply Iff.intro
  · intro h
    match l with
    | [] => simp at h
    | [a] => cases ha : p a <;> simp [ha] at h
    | a :: b :: l =>
      cases ha : p a <;> cases hb : p b <;> simp [ha, hb] at h
      exact ⟨a, b, ha, hb, l, rfl⟩
  · rintro ⟨a, b, ha, hb, l, rfl⟩
    simp [ha, hb]

/-- The digits that the loop counts behind the token at byte `i`. -/
theorem releaseAt_iff {token s : List UInt8} {i : ℕ} (h : OccursAt token i s) :
    ReleaseAt token i s ↔ 2 ≤ ((s.drop (i + token.length)).takeWhile isAsciiDigit).length := by
  rw [two_le_length_takeWhile_iff, ReleaseAt]
  refine exists₂_congr fun d₁ d₂ => and_congr_right fun _ => and_congr_right fun _ => ?_
  rw [occursAt_append_iff, and_iff_right h, occursAt_iff_prefix_drop h.length_le]

theorem ReleaseAt.occursAt {token s : List UInt8} {i : ℕ} (h : ReleaseAt token i s) :
    OccursAt token i s := by
  obtain ⟨d₁, d₂, -, -, hocc⟩ := h
  exact (occursAt_append_iff.1 hocc).1

section Loop

variable {token s : List UInt8} {nonempty : token ≠ []} {start : ℕ}

theorem openbsdTokenLoop_of_none (h : find token (s.drop start) = none) :
    openbsdTokenLoop token nonempty s start = false := by
  unfold openbsdTokenLoop
  split
  · rfl
  · simp_all

theorem openbsdTokenLoop_of_some {pos : ℕ} (h : find token (s.drop start) = some pos) :
    openbsdTokenLoop token nonempty s start =
      if 2 ≤ ((s.drop (start + pos + token.length)).takeWhile isAsciiDigit).length then true
      else openbsdTokenLoop token nonempty s (start + pos + token.length) := by
  rw [openbsdTokenLoop]
  split
  · simp_all
  · rename_i pos' hpos'
    obtain rfl := Option.some.inj (h.symm.trans hpos')
    rfl

/-- The loop finds a release from `start` on; the tokens that it resumes behind have none. -/
theorem openbsdTokenLoop_iff (hu : Unbordered token) (hstart : start ≤ s.length) :
    openbsdTokenLoop token nonempty s start = true ↔ ∃ i, start ≤ i ∧ ReleaseAt token i s := by
  induction start using openbsdTokenLoop.induct token nonempty s with
  | case1 start hfind =>
    rw [openbsdTokenLoop_of_none hfind]
    refine iff_of_false Bool.false_ne_true ?_
    intro ⟨i, hi, hrel⟩
    exact (find_drop_eq_none_iff hstart).1 hfind i hi hrel.occursAt
  | case2 start pos hfind after digits hdigits =>
    rw [openbsdTokenLoop_of_some hfind, if_pos hdigits]
    have hocc := (occursAt_of_find_drop hstart hfind).1
    exact iff_of_true rfl ⟨start + pos, Nat.le_add_right _ _, (releaseAt_iff hocc).2 hdigits⟩
  | case3 start pos hfind after digits hdigits ih =>
    obtain ⟨hocc, hfirst⟩ := occursAt_of_find_drop hstart hfind
    rw [openbsdTokenLoop_of_some hfind, if_neg hdigits, ih hocc.length_le]
    apply Iff.intro
    · intro ⟨i, hi, hrel⟩
      exact ⟨i, (Nat.le_add_right _ _).trans ((Nat.le_add_right _ _).trans hi), hrel⟩
    · intro ⟨i, hi, hrel⟩
      rcases hu.eq_or_resume hocc hfirst hi hrel.occursAt with rfl | hle
      · exact absurd ((releaseAt_iff hocc).1 hrel) hdigits
      · exact ⟨i, hle, hrel⟩

end Loop

theorem hasOpenbsdIsoName_iff {s : List UInt8} :
    hasOpenbsdIsoName s = true ↔ ReleaseName s := by
  have hinstall : Unbordered (asBytes "install") := by decide
  have hcd : Unbordered (asBytes "cd") := by decide
  rw [hasOpenbsdIsoName, Bool.or_eq_true, openbsdTokenLoop_iff hinstall (Nat.zero_le _),
    openbsdTokenLoop_iff hcd (Nat.zero_le _)]
  simp only [ReleaseName, List.mem_cons, List.not_mem_nil, or_false, exists_eq_or_imp,
    exists_eq_left, Nat.zero_le, true_and]

instance (s : List UInt8) : Decidable (ReleaseName s) :=
  decidable_of_iff _ hasOpenbsdIsoName_iff

/-! ## The case of letters -/

/-- The two strings have the same characters, up to the case of ASCII letters. -/
def EqIgnoreAsciiCase (s t : String) : Prop :=
  List.Forall₂ (fun c d => c = d ∨ c.isAlpha ∧ d.isAlpha ∧ c.toLower = d.toLower) s.toList t.toList

theorem toAsciiLowercase_eq_flatMap (s : List UInt8) :
    toAsciiLowercase s = s.flatMap fun b => [if 0x41 ≤ b && b ≤ 0x5A then b + 0x20 else b] :=
  List.map_eq_flatMap

/-- Lowercasing the bytes of a text is lowercasing its characters. -/
theorem toAsciiLowercase_encode (cs : List Char) :
    toAsciiLowercase (Utf8.encode cs) = Utf8.encode (cs.map Char.toLower) := by
  rw [toAsciiLowercase_eq_flatMap, List.map_eq_flatMap]
  apply Utf8.flatMap_encode
  · intro c hc
    have hascii : ∀ n < 0x80,
        [if 0x41 ≤ UInt8.ofNat n && UInt8.ofNat n ≤ 0x5A then UInt8.ofNat n + 0x20
          else UInt8.ofNat n] = Utf8.encode [(Char.ofNat n).toLower] := by decide
    have h := hascii c.toNat hc
    rwa [Char.ofNat_toNat] at h
  · intro b hb
    have hb' : 0x80 ≤ b.toNat := hb
    have hno : ¬ b ≤ 0x5A := by
      rw [UInt8.le_iff_toNat_le]
      show ¬ b.toNat ≤ 0x5A
      omega
    simp [hno]
  · intro c hc
    have hno : ¬ c.val ≤ 90 := by
      rw [UInt32.le_iff_toNat_le]
      show ¬ c.toNat ≤ 90
      omega
    have hlower : c.toLower = c := dif_neg fun h => hno h.2
    rw [hlower]

theorem map_toLower_eq {cs ds : List Char}
    (h : List.Forall₂ (fun c d => c = d ∨ c.isAlpha ∧ d.isAlpha ∧ c.toLower = d.toLower) cs ds) :
    cs.map Char.toLower = ds.map Char.toLower := by
  induction h with
  | nil => rfl
  | cons hcd _ ih =>
    rw [List.map_cons, List.map_cons, ih]
    rcases hcd with rfl | ⟨-, -, hcd⟩
    · rfl
    · rw [hcd]

theorem guessBsdFlavor_congr {s t : String} (h : EqIgnoreAsciiCase s t) :
    guessBsdFlavor s = guessBsdFlavor t := by
  have hlower : toAsciiLowercase (asBytes s) = toAsciiLowercase (asBytes t) := by
    rw [asBytes_eq_encode, asBytes_eq_encode, toAsciiLowercase_encode, toAsciiLowercase_encode,
      map_toLower_eq h]
  simp only [guessBsdFlavor, hlower]

/-- The search misses no occurrence and invents none, and the guess does not look at the case of
letters. -/
theorem openbsd_search_complete :
    (∀ s : String, hasOpenbsdIsoName (asBytes s) = true ↔ ReleaseName (asBytes s)) ∧
      ∀ s t, EqIgnoreAsciiCase s t → guessBsdFlavor s = guessBsdFlavor t :=
  ⟨fun _ => hasOpenbsdIsoName_iff, fun _ _ => guessBsdFlavor_congr⟩

end Osedax
