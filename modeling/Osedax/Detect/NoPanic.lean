import Osedax.Detect.Checked
import Osedax.Detect.Names

/-!
# The detector cannot panic

Every partial operation of the checked detector succeeds, so it computes what the total model
computes.  In the probes the indices are below the length that `region` was asked for; in the
filename search every offset is the end of an ASCII token in a text, where a character ends too.
-/

namespace Osedax

namespace Checked

theorem index_eq {buf : List UInt8} {i : ℕ} (h : i < buf.length) :
    index buf i = .ok (buf.getD i 0) := by
  unfold index
  rw [List.getD_eq_getElem?_getD, List.getElem?_eq_getElem h]
  rfl

theorem slice_eq {buf : List UInt8} {lo hi : ℕ} (hlo : lo ≤ hi) (hhi : hi ≤ buf.length) :
    slice buf lo hi = .ok (Magic.subslice buf lo hi) := if_pos ⟨hlo, hhi⟩

theorem ok_bind {α β : Type} (a : α) (f : α → Except Panic β) : (Except.ok a >>= f) = f a := rfl

theorem return_eq {α : Type} (a : α) : (pure a : Except Panic α) = .ok a := rfl

theorem orM_ok (a b : Bool) :
    orM (.ok a : Except Panic Bool) (.ok b) = .ok (a || b) := by
  cases a <;> rfl

theorem andM_ok (a b : Bool) :
    andM (.ok a : Except Panic Bool) (.ok b) = .ok (a && b) := by
  cases a <;> rfl

theorem length_of_region {buf v : List UInt8} {off len : ℕ}
    (h : Magic.region buf off len = some v) : v.length = len :=
  (Window.slice_eq_some_iff.1 h).2

/-! ## The probes -/

theorem startsWith_eq (buf pre : List UInt8) :
    startsWith buf pre = .ok (Magic.startsWith buf pre) := by
  unfold startsWith Magic.startsWith
  split_ifs with h
  · rw [slice_eq (Nat.zero_le _) h, ok_bind, decide_eq_true h, Bool.true_and]
    rfl
  · rw [decide_eq_false h, Bool.false_and]
    rfl

theorem detectCompression_eq (head : List UInt8) :
    detectCompression head = .ok (Magic.detectCompression head) := by
  unfold detectCompression Magic.detectCompression
  simp only [startsWith_eq, ok_bind]
  split_ifs <;> rfl

theorem elTorito_eq (buf : List UInt8) : elTorito buf = .ok (Magic.elTorito buf) := by
  unfold elTorito Magic.elTorito
  cases h : Magic.region buf Magic.elToritoBrvdOffset 75 with
  | none => rfl
  | some brvd =>
    have hlen := length_of_region h
    dsimp only
    rw [index_eq (by omega : 0 < brvd.length), slice_eq (by decide : 1 ≤ 6) (by omega),
      slice_eq (by decide : 7 ≤ 39) (by omega), index_eq (by omega : 71 < brvd.length),
      index_eq (by omega : 72 < brvd.length), index_eq (by omega : 73 < brvd.length),
      index_eq (by omega : 74 < brvd.length)]
    simp only [ok_bind]
    split_ifs <;> rfl

theorem mbrEntry_eq {e : List UInt8} (h : e.length = 16) :
    mbrEntry e = .ok (Magic.mbrEntry e) := by
  have hindex : ∀ i < 16, index e i = .ok (e.getD i 0) := fun i hi => index_eq (by omega)
  unfold mbrEntry Magic.mbrEntry
  simp only [hindex, Nat.reduceLT, ok_bind]
  rfl

theorem mbrPartitions_eq (buf : List UInt8) :
    mbrPartitions buf = .ok (Magic.mbrPartitions buf) := by
  unfold mbrPartitions Magic.mbrPartitions
  cases h : Magic.region buf Magic.mbrPartitionTableOffset 64 with
  | none => rfl
  | some table =>
    have hlen := length_of_region h
    have hslot (i : Fin 4) : (slice table (i * 16) (i * 16 + 16) >>= mbrEntry) =
        pure (Magic.mbrEntry (Magic.subslice table (i * 16) (i * 16 + 16))) := by
      have hi := i.isLt
      rw [slice_eq (by omega) (by omega), ok_bind, mbrEntry_eq, return_eq]
      simp only [Magic.subslice, List.length_take, List.length_drop]
      omega
    dsimp only
    rw [funext hslot, Vector.ofFnM_pure]
    rfl

theorem hasMbrPartitionTable_eq (buf : List UInt8) :
    hasMbrPartitionTable buf = .ok (Magic.hasMbrPartitionTable buf) := by
  unfold hasMbrPartitionTable Magic.hasMbrPartitionTable
  rw [mbrPartitions_eq]
  split_ifs <;> rfl

theorem isFatOrNtfsBootsector_eq (buf : List UInt8) :
    isFatOrNtfsBootsector buf = .ok (Magic.isFatOrNtfsBootsector buf) := by
  unfold isFatOrNtfsBootsector Magic.isFatOrNtfsBootsector
  cases h : Magic.region buf 0 3 with
  | none => rfl
  | some head =>
    have hlen := length_of_region h
    dsimp only
    rw [index_eq (by omega : 0 < head.length), index_eq (by omega : 2 < head.length)]
    simp only [ok_bind, return_eq, andM_ok, orM_ok]

theorem isNtfsBootsector_eq (buf : List UInt8) :
    isNtfsBootsector buf = .ok (Magic.isNtfsBootsector buf) := by
  unfold isNtfsBootsector Magic.isNtfsBootsector
  rw [isFatOrNtfsBootsector_eq]
  rfl

theorem classifyHybrid_eq (head : List UInt8) :
    classifyHybrid head = .ok (Osedax.classifyHybrid head) := by
  unfold classifyHybrid Osedax.classifyHybrid
  rw [mbrPartitions_eq]
  rfl

theorem classify_eq (head : List UInt8) : classify head = .ok (Osedax.classify head) := by
  unfold classify Osedax.classify
  rw [detectCompression_eq, ok_bind]
  cases Magic.detectCompression head with
  | some c => rfl
  | none =>
    simp only [classifyHybrid_eq, elTorito_eq, hasMbrPartitionTable_eq, isNtfsBootsector_eq,
      isFatOrNtfsBootsector_eq, ok_bind]
    split_ifs <;> rfl

/-! ## The filename search -/

/-- The rest of a text starts at a character boundary. -/
theorem strFrom_eq {s : List UInt8} {i : ℕ} (hi : i ≤ s.length) (h : Utf8.Valid (s.drop i)) :
    strFrom s i = .ok (s.drop i) := by
  refine if_pos ?_
  unfold isCharBoundary
  rcases hi.eq_or_lt with rfl | hlt
  · rw [List.getElem?_eq_none le_rfl]
    exact beq_self_eq_true _
  · rw [List.drop_eq_getElem_cons hlt] at h
    have hfirst := Utf8.not_isContinuation_of_valid_cons h
    rw [List.getElem?_eq_getElem hlt]
    dsimp only
    rw [Bool.or_eq_true, Bool.not_eq_true', ← Bool.not_eq_true, Bool.and_eq_true,
      decide_eq_true_eq, decide_eq_true_eq]
    exact Or.inr hfirst

/-- What follows an ASCII token in a text is a text. -/
theorem valid_drop_of_occursAt {token s : List UInt8} (nonempty : token ≠ [])
    (hascii : (token.all fun b => b < 0x80) = true) {i : ℕ} (hs : Utf8.Valid s)
    (h : Window.OccursAt token i s) : Utf8.Valid (s.drop (i + token.length)) := by
  obtain ⟨pre, post, rfl, rfl⟩ := h
  have hlast : token.dropLast ++ [token.getLast nonempty] = token :=
    List.dropLast_append_getLast nonempty
  have hcut : pre ++ (token ++ post) =
      (pre ++ token.dropLast) ++ token.getLast nonempty :: post := by
    conv => lhs; rw [← hlast]
    simp
  rw [hcut] at hs
  rw [← List.append_assoc, ← List.length_append, List.drop_left]
  have hlt : token.getLast nonempty < 0x80 :=
    of_decide_eq_true (List.all_eq_true.1 hascii _ (List.getLast_mem nonempty))
  exact ((Utf8.valid_append_cons_iff hlt).1 hs).2

section Loop

variable {token s : List UInt8} {nonempty : token ≠ []} {start : ℕ}

theorem openbsdTokenLoop_of_none {rest : List UInt8} (hrest : strFrom s start = .ok rest)
    (hfind : find token rest = none) : openbsdTokenLoop token nonempty s start = .ok false := by
  unfold openbsdTokenLoop
  split
  · simp_all
  · rename_i rest' hrest'
    obtain rfl := Except.ok.inj (hrest.symm.trans hrest')
    split
    · rfl
    · simp_all

theorem openbsdTokenLoop_of_some {rest tail : List UInt8} {pos : ℕ}
    (hrest : strFrom s start = .ok rest) (hfind : find token rest = some pos)
    (htail : strFrom s (start + pos + token.length) = .ok tail) :
    openbsdTokenLoop token nonempty s start =
      if 2 ≤ (tail.takeWhile isAsciiDigit).length then .ok true
      else openbsdTokenLoop token nonempty s (start + pos + token.length) := by
  rw [openbsdTokenLoop]
  split
  · simp_all
  · rename_i rest' hrest'
    obtain rfl := Except.ok.inj (hrest.symm.trans hrest')
    split
    · simp_all
    · rename_i pos' hpos'
      obtain rfl := Option.some.inj (hfind.symm.trans hpos')
      simp only [htail]
      rfl

/-- Behind a token that was found from `start` on, the string goes on and is a text again. -/
theorem valid_drop_of_find (nonempty : token ≠ [])
    (hascii : (token.all fun b => b < 0x80) = true) (hstart : start ≤ s.length)
    (hs : Utf8.Valid (s.drop start)) {pos : ℕ} (hfind : find token (s.drop start) = some pos) :
    start + pos + token.length ≤ s.length ∧
      Utf8.Valid (s.drop (start + pos + token.length)) := by
  have hvalid := valid_drop_of_occursAt nonempty hascii hs (occursAt_of_find hfind).1
  rw [List.drop_drop, ← Nat.add_assoc] at hvalid
  exact ⟨(occursAt_of_find_drop hstart hfind).1.length_le, hvalid⟩

theorem openbsdTokenLoop_eq (hascii : (token.all fun b => b < 0x80) = true)
    (hstart : start ≤ s.length) (hs : Utf8.Valid (s.drop start)) :
    openbsdTokenLoop token nonempty s start =
      .ok (Osedax.openbsdTokenLoop token nonempty s start) := by
  -- along the loop: `start` is in the string and what follows it is a text
  induction start using Osedax.openbsdTokenLoop.induct token nonempty s with
  | case1 start hfind =>
    rw [openbsdTokenLoop_of_none (strFrom_eq hstart hs) hfind,
      Osedax.openbsdTokenLoop_of_none hfind]
  | case2 start pos hfind after digits hdigits =>
    obtain ⟨hlen, htail⟩ := valid_drop_of_find nonempty hascii hstart hs hfind
    rw [openbsdTokenLoop_of_some (strFrom_eq hstart hs) hfind (strFrom_eq hlen htail),
      Osedax.openbsdTokenLoop_of_some hfind, if_pos hdigits, if_pos hdigits]
  | case3 start pos hfind after digits hdigits ih =>
    obtain ⟨hlen, htail⟩ := valid_drop_of_find nonempty hascii hstart hs hfind
    rw [openbsdTokenLoop_of_some (strFrom_eq hstart hs) hfind (strFrom_eq hlen htail),
      Osedax.openbsdTokenLoop_of_some hfind, if_neg hdigits, if_neg hdigits]
    exact ih hlen htail

end Loop

theorem hasOpenbsdIsoName_eq {s : List UInt8} (hs : Utf8.Valid s) :
    hasOpenbsdIsoName s = .ok (Osedax.hasOpenbsdIsoName s) := by
  unfold hasOpenbsdIsoName Osedax.hasOpenbsdIsoName
  rw [openbsdTokenLoop_eq (by decide) (Nat.zero_le _) hs,
    openbsdTokenLoop_eq (by decide) (Nat.zero_le _) hs, orM_ok]

/-- The lowercased name is a text. -/
theorem valid_toAsciiLowercase (name : String) :
    Utf8.Valid (toAsciiLowercase (asBytes name)) := by
  rw [asBytes_eq_encode, toAsciiLowercase_encode]
  exact Utf8.valid_encode _

theorem guessBsdFlavor_eq (name : String) :
    guessBsdFlavor name = .ok (Osedax.guessBsdFlavor name) := by
  unfold guessBsdFlavor Osedax.guessBsdFlavor
  simp only [hasOpenbsdIsoName_eq (valid_toAsciiLowercase name), return_eq, orM_ok, ok_bind]
  split_ifs <;> rfl

theorem bsdWarning_eq (kind : ImageKind) (name : String) :
    bsdWarning kind name = .ok (Osedax.bsdWarning kind name) := by
  cases kind with
  | iso hybrid udf et =>
    unfold bsdWarning Osedax.bsdWarning
    simp only [guessBsdFlavor_eq, ok_bind]
    split_ifs <;> rfl
  | _ => rfl

/-- No index, slice or string cut of the detector fails, on any head and any name. -/
theorem inspect_eq_ok (head : List UInt8) (name : String) :
    inspect head name = .ok (Osedax.inspect head name) := by
  unfold inspect
  rw [classify_eq, ok_bind, bsdWarning_eq]
  rfl

end Checked

end Osedax
