import Osedax.Device.Mounts

/-!
# The mount table as lines

`readMounts` decodes the whole file before it cuts it into lines.  On UTF-8 each line is read on
its own (`mountsOfText_append`); a line that is not UTF-8 empties the table.  So one part of a
table leaves the mounts of the other alone exactly if both are UTF-8 or there is nothing to lose:
`keepsMounts_unlines_iff`.
-/

namespace Osedax

/-- The newline byte. -/
def newline : UInt8 := 0x0A

/-- A table of lines, each with any bytes and a newline. -/
def unlines (ls : List (List UInt8)) : List UInt8 := ls.flatMap fun line => line ++ [newline]

/-- The mounts that are read when `/proc/mounts` holds `table`. -/
def mountsIn (fs : FileSystem) (table : List UInt8) : List (String × Path) :=
  readMounts (fs.withFile procMounts table)

/-- The mounts of a text. -/
def mountsOfText (cs : List Char) : List (String × Path) :=
  (lines (String.ofList cs)).filterMap mountOfLine

/-- A line whose first column is under `/dev/` and that has a second column. -/
def NamesBlockDevice (line : String) : Prop :=
  ∃ dev mnt rest, splitWhitespace line = ("/dev/" ++ dev) :: mnt :: rest

/-- The table is UTF-8 and one of its lines names a block device. -/
def ListsBlockDevice (table : List UInt8) : Prop :=
  ∃ s, fromUtf8 table = some s ∧ ∃ line ∈ lines s, NamesBlockDevice line

/-- The mounts of `t₁` and of `t₂` are all read from `t₁ ++ t₂`, for the table as a whole and for
every disk. -/
structure KeepsMounts (fs : FileSystem) (t₁ t₂ : List UInt8) : Prop where
  table : (mountsIn fs t₁ ++ mountsIn fs t₂).Sublist (mountsIn fs (t₁ ++ t₂))
  disk : ∀ name, (mountsFor name (mountsIn fs t₁) ++ mountsFor name (mountsIn fs t₂)).Sublist
    (mountsFor name (mountsIn fs (t₁ ++ t₂)))

variable {t₂ : List UInt8} {cs ds : List Char}

/-! ## Reading a table -/

theorem mountsIn_encode (fs : FileSystem) (cs : List Char) :
    mountsIn fs (Utf8.encode cs) = mountsOfText cs := by
  unfold mountsIn readMounts
  rw [FileSystem.readToString_withFile, fromUtf8, Utf8.decode_encode]
  rfl

theorem mountsIn_of_not_valid {fs : FileSystem} {table : List UInt8} (h : ¬ Utf8.Valid table) :
    mountsIn fs table = [] := by
  unfold mountsIn readMounts
  rw [FileSystem.readToString_withFile, fromUtf8_eq_none_iff.2 h]

theorem mountsOfText_append (hcs : Fields.Terminated (· == '\n') cs) :
    mountsOfText (cs ++ ds) = mountsOfText cs ++ mountsOfText ds := by
  unfold mountsOfText lines
  rw [String.toList_ofList, String.toList_ofList, String.toList_ofList, Fields.pieces_append hcs,
    List.map_append, List.filterMap_append]

theorem mountOfLine_eq_none_iff {line : String} :
    mountOfLine line = none ↔ ¬ NamesBlockDevice line := by
  unfold mountOfLine NamesBlockDevice
  rcases splitWhitespace line with _ | ⟨dev, _ | ⟨mnt, rest⟩⟩
  · simp
  · simp
  · cases hdev : stripPrefix dev "/dev/" with
    | none =>
      refine iff_of_true (by simp [hdev]) ?_
      intro ⟨node, _, _, heq⟩
      obtain rfl := (List.cons.inj heq).1
      rw [stripPrefix_eq_some_iff.2 rfl] at hdev
      contradiction
    | some node =>
      refine iff_of_false (by simp [hdev]) (not_not_intro ?_)
      exact ⟨node, mnt, rest, by rw [stripPrefix_eq_some_iff.1 hdev]⟩

theorem mountsIn_eq_nil_iff (fs : FileSystem) {table : List UInt8} :
    mountsIn fs table = [] ↔ ¬ ListsBlockDevice table := by
  unfold mountsIn readMounts ListsBlockDevice
  rw [FileSystem.readToString_withFile]
  cases fromUtf8 table with
  | none => simp
  | some s =>
    simp only [List.filterMap_eq_nil_iff, mountOfLine_eq_none_iff, Option.some_inj]
    simp

theorem mountsFor_append (name : String) (m₁ m₂ : List (String × Path)) :
    mountsFor name (m₁ ++ m₂) = mountsFor name m₁ ++ mountsFor name m₂ := by
  unfold mountsFor
  rw [List.filter_append, List.map_append]

/-- One line of a text, by its columns. -/
theorem mountsOfText_cons {w columns : List Char} {rest : List (List Char)} {dev : String}
    (hw : Fields.Free (· == '\n') w)
    (hcolumns : Fields.words isWhitespace w = ("/dev/" ++ dev).toList :: columns :: rest) :
    mountsOfText (w ++ '\n' :: cs) =
      (dev, unescapeMount (String.ofList columns)) :: mountsOfText cs := by
  have hsplit : splitWhitespace (String.ofList (stripLineEnding (w ++ ['\n']))) =
      ("/dev/" ++ dev) :: String.ofList columns :: rest.map String.ofList := by
    unfold splitWhitespace
    rw [String.toList_ofList, words_stripLineEnding,
      Fields.words_concat (by decide), hcolumns, List.map_cons, List.map_cons, String.ofList_toList]
  have hline : mountOfLine (String.ofList (stripLineEnding (w ++ ['\n']))) =
      some (dev, unescapeMount (String.ofList columns)) := by
    unfold mountOfLine
    rw [hsplit]
    simp only [stripPrefix_eq_some_iff.2 rfl, Option.bind_eq_bind, Option.bind_some]
  unfold mountsOfText lines
  rw [String.toList_ofList, String.toList_ofList, Fields.pieces_cons_of_free hw (by decide),
    List.map_cons, List.filterMap_cons_some hline]

/-! ## Cutting a table -/

theorem unlines_append (ls₁ ls₂ : List (List UInt8)) :
    unlines (ls₁ ++ ls₂) = unlines ls₁ ++ unlines ls₂ := List.flatMap_append

/-- A table of lines is empty or ends with a newline. -/
theorem unlines_eq_nil_or_concat (ls : List (List UInt8)) :
    unlines ls = [] ∨ ∃ t, unlines ls = t ++ [newline] := by
  rcases List.eq_nil_or_concat ls with rfl | ⟨ls, line, rfl⟩
  · exact Or.inl rfl
  · refine Or.inr ⟨unlines ls ++ line, ?_⟩
    have hline : unlines [line] = line ++ [newline] := List.flatMap_singleton _ _
    rw [List.concat_eq_append, unlines_append, hline, List.append_assoc]

theorem valid_unlines_append_iff (ls : List (List UInt8)) (t : List UInt8) :
    Utf8.Valid (unlines ls ++ t) ↔ Utf8.Valid (unlines ls) ∧ Utf8.Valid t := by
  have hnil : Utf8.Valid [] := Utf8.valid_encode []
  rcases unlines_eq_nil_or_concat ls with h | ⟨u, h⟩
  · rw [h, List.nil_append, and_iff_right hnil]
  · rw [h, List.append_assoc, List.singleton_append, Utf8.valid_append_cons_iff (by decide),
      Utf8.valid_append_cons_iff (by decide), and_iff_left hnil]

/-- The text of a table of lines ends with a newline character. -/
theorem terminated_of_encode_eq_unlines {ls : List (List UInt8)} (h : Utf8.encode cs = unlines ls) :
    Fields.Terminated (· == '\n') cs := by
  rcases unlines_eq_nil_or_concat ls with hls | ⟨u, hls⟩
  · obtain rfl : cs = [] := Utf8.encode_injective (h.trans hls)
    intro c hc
    contradiction
  · rw [hls] at h
    obtain ⟨cs₁, c, cs₂, rfl, -, hc, hcs₂⟩ := Utf8.encode_eq_append_cons (by decide) h
    obtain rfl : cs₂ = [] := Utf8.encode_injective hcs₂
    have hnl : [c] = ['\n'] := by
      apply Utf8.encode_injective
      rw [Utf8.encode_cons, hc]
      rfl
    obtain rfl := (List.cons.inj hnl).1
    intro d hd
    rw [List.getLast?_concat] at hd
    rw [← Option.some.inj hd]
    rfl

theorem mountsIn_append (fs : FileSystem) {ls : List (List UInt8)}
    (hls : Utf8.Valid (unlines ls)) (ht : Utf8.Valid t₂) :
    mountsIn fs (unlines ls ++ t₂) = mountsIn fs (unlines ls) ++ mountsIn fs t₂ := by
  obtain ⟨cs, hcs⟩ := hls
  obtain ⟨ds, rfl⟩ := ht
  have hterm : Fields.Terminated (· == '\n') cs := terminated_of_encode_eq_unlines hcs
  rw [← hcs, ← Utf8.encode_append, mountsIn_encode, mountsIn_encode, mountsIn_encode,
    mountsOfText_append hterm]

/-- Two tables of lines keep each other's mounts exactly if both are UTF-8, or neither has a mount
that could be lost. -/
theorem keepsMounts_unlines_iff (fs : FileSystem) (ls₁ ls₂ : List (List UInt8)) :
    KeepsMounts fs (unlines ls₁) (unlines ls₂) ↔
      (fromUtf8 (unlines ls₁) ≠ none ∧ fromUtf8 (unlines ls₂) ≠ none) ∨
      (¬ ListsBlockDevice (unlines ls₁) ∧ ¬ ListsBlockDevice (unlines ls₂)) := by
  rw [ne_eq, ne_eq, fromUtf8_eq_none_iff, fromUtf8_eq_none_iff, not_not, not_not,
    ← mountsIn_eq_nil_iff fs, ← mountsIn_eq_nil_iff fs]
  by_cases hvalid : Utf8.Valid (unlines ls₁) ∧ Utf8.Valid (unlines ls₂)
  · refine iff_of_true ?_ (Or.inl hvalid)
    have happend := mountsIn_append fs hvalid.1 hvalid.2
    refine ⟨by rw [happend], fun name => ?_⟩
    rw [happend, mountsFor_append]
  · -- one part that is not UTF-8 empties the table, so there must be nothing to keep
    have hempty : mountsIn fs (unlines ls₁ ++ unlines ls₂) = [] := by
      apply mountsIn_of_not_valid
      rwa [valid_unlines_append_iff]
    rw [or_iff_right hvalid, ← List.append_eq_nil_iff]
    apply Iff.intro
    · intro h
      have hsub := h.table
      rw [hempty] at hsub
      exact List.sublist_nil.1 hsub
    · intro h
      refine ⟨by rw [h]; exact List.nil_sublist _, fun name => ?_⟩
      rw [← mountsFor_append, h]
      exact List.nil_sublist _

/-- A label in Latin-1 on one stick. -/
def latinLines : List (List UInt8) :=
  [asBytes "/dev/sdb1 /mnt/" ++ [0xE9] ++ asBytes " vfat rw 0 0"]

def rootLines : List (List UInt8) := [asBytes "/dev/sda1 / ext4 rw 0 0"]

def noFiles : FileSystem where
  read _ := none
  canonicalize _ := none
  pathExists _ := false

/-- The line of the stick takes the mount of the other disk away. -/
theorem rootLines_latinLines_not_keepsMounts :
    mountsIn noFiles (unlines rootLines) = [("sda1", Path.root)] ∧
    mountsIn noFiles (unlines rootLines ++ unlines latinLines) = [] ∧
    ¬ KeepsMounts noFiles (unlines rootLines) (unlines latinLines) := by
  have hroot : mountsIn noFiles (unlines rootLines) = [("sda1", Path.root)] := by decide
  have hboth : mountsIn noFiles (unlines rootLines ++ unlines latinLines) = [] := by decide
  refine ⟨hroot, hboth, fun h => ?_⟩
  have hsub := h.table
  rw [hroot, hboth] at hsub
  exact absurd (List.sublist_nil.1 hsub) (List.append_ne_nil_of_left_ne_nil (by decide) _)

end Osedax
