import Osedax.Device.MountTable

/-!
# The mount table that the kernel writes

The kernel writes one line for each mount, with the escapes of `mountEscape` in the mount point
and every other byte as it is.  `readMounts` cuts the line at every character of the Unicode
property `White_Space`, more than the kernel escapes.  What is read of a mount point is its part
before the first such character (`mountsIn_kernelTable`), so the table is read back exactly if no
mount point has one: `mountsIn_kernelTable_eq_iff`.
-/

namespace Osedax

/-- The kernel's escaping of a path. -/
def mangle (path : List UInt8) : List UInt8 := mountEscape.encode path

/-- A mount of a block device, with names that the kernel can have. -/
structure KernelMount where
  name : String
  mountPoint : String
  fsType : String
  options : String
  name_ne_empty : name ≠ ""
  name_plain : ∀ c ∈ name.toList, c.toNat < 0x80 ∧ isWhitespace c = false ∧ c ≠ '\\'
  mountPoint_absolute : mountPoint.toList.head? = some '/'
  mountPoint_noNul : Char.ofNat 0 ∉ mountPoint.toList
  fsType_oneLine : '\n' ∉ fsType.toList
  options_oneLine : '\n' ∉ options.toList

/-- The line of a mount, without its newline. -/
def KernelMount.line (m : KernelMount) : List UInt8 :=
  asBytes ("/dev/" ++ m.name) ++ asBytes " " ++ mangle (asBytes m.mountPoint) ++ asBytes " " ++
    asBytes m.fsType ++ asBytes " " ++ asBytes m.options ++ asBytes " 0 0"

/-- The contents of `/proc/mounts`. -/
def kernelTable (ms : List KernelMount) : List UInt8 := unlines (ms.map KernelMount.line)

/-- The white space that the kernel escapes. -/
def isEscapedSpace (c : Char) : Bool := c == ' ' || c == '\t' || c == '\n'

/-- The characters that `readMounts` does not cut a mount point at. -/
def isKept (c : Char) : Bool := !isWhitespace c || isEscapedSpace c

/-! ## The escapes as characters -/

/-- What the kernel writes for one character. -/
def mangleChar (c : Char) : List Char :=
  if c = ' ' then ['\\', '0', '4', '0']
  else if c = '\t' then ['\\', '0', '1', '1']
  else if c = '\n' then ['\\', '0', '1', '2']
  else if c = '\\' then ['\\', '1', '3', '4']
  else [c]

theorem mangleChar_of_le {c : Char} (hc : 0x80 ≤ c.toNat) : mangleChar c = [c] := by
  have hne : ∀ d : Char, d.toNat < 0x80 → c ≠ d := by
    rintro d hd rfl
    omega
  unfold mangleChar
  rw [if_neg (hne ' ' (by decide)), if_neg (hne '\t' (by decide)),
    if_neg (hne '\n' (by decide)), if_neg (hne '\\' (by decide))]

theorem symbol_of_le {b : UInt8} (hb : 0x80 ≤ b) : mountEscape.symbol b = [b] := by
  have hcode : mountEscape.code b = none := by
    refine if_neg fun h => ?_
    rcases h with rfl | rfl | rfl | rfl <;> exact absurd hb (by decide)
  unfold Escape.symbol
  rw [hcode]

theorem symbol_of_ascii {c : Char} (hc : c.toNat < 0x80) :
    mountEscape.symbol (UInt8.ofNat c.toNat) = Utf8.encode (mangleChar c) := by
  have hascii : ∀ n < 0x80, mountEscape.symbol (UInt8.ofNat n) =
      Utf8.encode (mangleChar (Char.ofNat n)) := by decide
  have h := hascii c.toNat hc
  rwa [Char.ofNat_toNat] at h

theorem mangle_encode (cs : List Char) :
    mangle (Utf8.encode cs) = Utf8.encode (cs.flatMap mangleChar) :=
  Utf8.flatMap_encode (fun _ hc => symbol_of_ascii hc) (fun _ hb => symbol_of_le hb)
    (fun _ hc => mangleChar_of_le hc) cs

theorem unescapeMount_flatMap_mangleChar (cs : List Char) :
    unescapeMount (String.ofList (cs.flatMap mangleChar)) = ⟨Utf8.encode cs⟩ := by
  rw [unescapeMount_eq, asBytes_ofList, ← mangle_encode, mangle, mountEscape.decode_encode]

theorem mangleChar_ne_nil (c : Char) : mangleChar c ≠ [] := by
  unfold mangleChar
  split_ifs <;> exact List.cons_ne_nil _ _

/-- The escapes have no white space, and what is not escaped is written as it is. -/
theorem isWhitespace_mangleChar {c d : Char} (hd : d ∈ mangleChar c) :
    isWhitespace d = !isKept c := by
  rw [mangleChar] at hd
  split_ifs at hd with hspace htab hnewline hbackslash
  · rw [hspace]
    exact isWhitespace_eq_false_of_all (by decide) hd
  · rw [htab]
    exact isWhitespace_eq_false_of_all (by decide) hd
  · rw [hnewline]
    exact isWhitespace_eq_false_of_all (by decide) hd
  · rw [hbackslash]
    exact isWhitespace_eq_false_of_all (by decide) hd
  · obtain rfl := List.mem_singleton.1 hd
    simp [isKept, isEscapedSpace, hspace, htab, hnewline]

/-- The first column of an escaped path is the escaped part before the cut. -/
theorem takeWhile_flatMap_mangleChar (cs : List Char) :
    (cs.flatMap mangleChar).takeWhile (fun c => !isWhitespace c) =
      (cs.takeWhile isKept).flatMap mangleChar := by
  apply Fields.takeWhile_flatMap mangleChar_ne_nil
  intro c d hd
  rw [isWhitespace_mangleChar hd, Bool.not_not]

theorem newline_notMem_flatMap_mangleChar (cs : List Char) : '\n' ∉ cs.flatMap mangleChar := by
  rw [List.mem_flatMap]
  rintro ⟨c, -, hmem⟩
  rw [mangleChar] at hmem
  split_ifs at hmem with _ _ hnewline
  · exact absurd hmem (by decide)
  · exact absurd hmem (by decide)
  · exact absurd hmem (by decide)
  · exact absurd hmem (by decide)
  · exact hnewline (List.mem_singleton.1 hmem).symm

/-! ## One line -/

namespace KernelMount

variable (m : KernelMount)

/-- The line as characters. -/
def lineChars : List Char :=
  ("/dev/" ++ m.name).toList ++ ' ' :: (m.mountPoint.toList.flatMap mangleChar ++ ' ' ::
    (m.fsType.toList ++ ' ' :: (m.options.toList ++ " 0 0".toList)))

theorem encode_lineChars : Utf8.encode m.lineChars = m.line := by
  simp only [line, lineChars, asBytes_eq_encode, mangle_encode, Utf8.encode_append,
    Utf8.encode_cons, List.append_assoc]
  rfl

theorem newline_notMem_node : '\n' ∉ ("/dev/" ++ m.name).toList := by
  rw [String.toList_append, List.mem_append, not_or]
  refine ⟨by decide, fun hmem => ?_⟩
  exact absurd (m.name_plain '\n' hmem).2.1 (by decide)

theorem lineChars_free : Fields.Free (· == '\n') m.lineChars := by
  rw [Fields.free_beq_iff, lineChars]
  simp only [List.mem_append, List.mem_cons, not_or]
  refine ⟨m.newline_notMem_node, by decide, newline_notMem_flatMap_mangleChar _, by decide,
    m.fsType_oneLine, by decide, m.options_oneLine, by decide⟩

theorem node_free : Fields.Free isWhitespace ("/dev/" ++ m.name).toList := by
  intro c hc
  rw [String.toList_append, List.mem_append] at hc
  cases hc with
  | inl hdev => exact isWhitespace_eq_false_of_all (w := "/dev/".toList) (by decide) hdev
  | inr hname => exact (m.name_plain c hname).2.1

/-- The first two columns: the device node, and the escaped mount point up to the cut. -/
theorem words_lineChars : ∃ rest, Fields.words isWhitespace m.lineChars =
    ("/dev/" ++ m.name).toList ::
      (m.mountPoint.toList.takeWhile isKept).flatMap mangleChar :: rest := by
  have hne : ("/dev/" ++ m.name).toList ≠ [] := by
    rw [String.toList_append]
    exact List.cons_ne_nil _ _
  obtain ⟨tail, htail⟩ := List.head?_eq_some_iff.1 m.mountPoint_absolute
  have hslash : m.mountPoint.toList.flatMap mangleChar = '/' :: tail.flatMap mangleChar := by
    rw [htail, List.flatMap_cons]
    rfl
  -- the mount point starts with `/`, so its column starts where the path does
  unfold lineChars
  rw [Fields.words_cons_of_free m.node_free hne (by decide),
    ← takeWhile_flatMap_mangleChar, hslash]
  obtain ⟨rest, hrest⟩ := Fields.words_eq_takeWhile (p := isWhitespace) (x := '/') (by decide)
    (tail.flatMap mangleChar ++ ' ' ::
      (m.fsType.toList ++ ' ' :: (m.options.toList ++ " 0 0".toList)))
  refine ⟨rest, ?_⟩
  rw [List.cons_append, hrest, ← List.cons_append, Fields.takeWhile_append_cons (by decide)]

end KernelMount

/-! ## The table -/

/-- What is read back of the kernel's table: each mount point up to its first white space that the
kernel does not escape. -/
theorem mountsIn_kernelTable (fs : FileSystem) (ms : List KernelMount) :
    mountsIn fs (kernelTable ms) =
      ms.map fun m => (m.name, ⟨Utf8.encode (m.mountPoint.toList.takeWhile isKept)⟩) := by
  have htable : kernelTable ms = Utf8.encode (ms.flatMap fun m => m.lineChars ++ ['\n']) := by
    induction ms with
    | nil => rfl
    | cons m ms ih =>
      rw [List.flatMap_cons, Utf8.encode_append, ← ih, Utf8.encode_append, m.encode_lineChars]
      rfl
  rw [htable, mountsIn_encode]
  clear htable
  induction ms with
  | nil => rfl
  | cons m ms ih =>
    obtain ⟨rest, hwords⟩ := m.words_lineChars
    rw [List.flatMap_cons, List.append_assoc, List.singleton_append,
      mountsOfText_cons m.lineChars_free hwords, ih, List.map_cons,
      unescapeMount_flatMap_mangleChar]

/-- The table is read back exactly if the only white space in the mount points is what the kernel
escapes. -/
theorem mountsIn_kernelTable_eq_iff (fs : FileSystem) (ms : List KernelMount) :
    mountsIn fs (kernelTable ms) = ms.map (fun m => (m.name, Path.ofString m.mountPoint)) ↔
      ∀ m ∈ ms, ∀ c ∈ m.mountPoint.toList, isWhitespace c → c = ' ' ∨ c = '\t' ∨ c = '\n' := by
  rw [mountsIn_kernelTable, List.map_inj_left]
  refine forall₂_congr fun m _ => ?_
  have hpath : (⟨Utf8.encode (m.mountPoint.toList.takeWhile isKept)⟩ : Path) =
      Path.ofString m.mountPoint ↔ m.mountPoint.toList.takeWhile isKept = m.mountPoint.toList := by
    unfold Path.ofString
    rw [Path.mk.injEq, asBytes_eq_encode]
    exact Utf8.encode_injective.eq_iff
  rw [Prod.mk.injEq, and_iff_right rfl, hpath, List.takeWhile_eq_self_iff]
  refine forall₂_congr fun c _ => ?_
  simp only [isKept, isEscapedSpace, Bool.or_eq_true, Bool.not_eq_true', beq_iff_eq, or_assoc]
  cases isWhitespace c <;> simp

/-- A label with a no-break space. -/
def nbspMount : KernelMount where
  name := "sdb1"
  mountPoint := "/mnt/My\u00A0Disk"
  fsType := "vfat"
  options := "rw"
  name_ne_empty := by decide
  name_plain := by
    have hall : ("sdb1".toList.all fun c =>
      c.toNat < 0x80 ∧ isWhitespace c = false ∧ c ≠ '\\') = true := by decide
    intro c hc
    exact of_decide_eq_true (List.all_eq_true.1 hall c hc)
  mountPoint_absolute := by decide
  mountPoint_noNul := by decide
  fsType_oneLine := by decide
  options_oneLine := by decide

/-- The mount point is cut at the no-break space. -/
theorem mountsIn_nbspMount :
    mountsIn noFiles (kernelTable [nbspMount]) = [("sdb1", Path.ofString "/mnt/My")] ∧
    mountsIn noFiles (kernelTable [nbspMount]) ≠
      [nbspMount].map fun m => (m.name, Path.ofString m.mountPoint) := by
  have hcut : mountsIn noFiles (kernelTable [nbspMount]) = [("sdb1", Path.ofString "/mnt/My")] := by
    rw [mountsIn_kernelTable]
    decide
  refine ⟨hcut, ?_⟩
  rw [hcut]
  decide

end Osedax
