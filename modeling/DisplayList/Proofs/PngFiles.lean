import DisplayList.Png
import DisplayList.Proofs.FileWriting
import DisplayList.Proofs.LayoutReading

/-!
# PNG files are read back

In the file of an image the dimensions stand at fixed places, and behind them the rows in blocks of
a known length. So the reader finds both again, and the image is the one that was written: images
can be relied on to be saved in this way.
-/
namespace DisplayList.Png

open Bytes

theorem ofText_header : ofText "IHDR" = [73, 72, 68, 82] := by
  decide +kernel

theorem ofText_data : ofText "IDAT" = [73, 68, 65, 84] := by
  decide +kernel

/-! ### Blocks and rows -/

@[simp] theorem length_storedBlock (final : Bool) (bytes : Bytes) :
    (storedBlock final bytes).length = bytes.length + 5 := by
  simp [storedBlock, littleEndian16]

theorem drop_storedBlock (final : Bool) (bytes rest : Bytes) :
    (storedBlock final bytes ++ rest).drop 5 = bytes ++ rest := by
  simp [storedBlock, littleEndian16]

theorem length_storedBlocks {full : Nat} {bytes : Bytes} (h : full * blockSize ≤ bytes.length) :
    (storedBlocks full bytes).length = bytes.length + 5 * (full + 1) := by
  induction full generalizing bytes with
  | zero => simp [storedBlocks]
  | succ full ih =>
    rw [Nat.succ_mul] at h
    have hrest : full * blockSize ≤ (bytes.drop blockSize).length := by
      rw [List.length_drop]
      omega
    rw [storedBlocks, List.length_append, length_storedBlock, ih hrest, List.length_take,
      List.length_drop]
    omega

theorem storedBytes_storedBlocks {full : Nat} {bytes : Bytes}
    (h : full * blockSize ≤ bytes.length) : storedBytes full (storedBlocks full bytes) = bytes := by
  induction full generalizing bytes with
  | zero => simpa [storedBytes, storedBlocks] using drop_storedBlock true bytes []
  | succ full ih =>
    rw [Nat.succ_mul] at h
    have hfirst : (bytes.take blockSize).length = blockSize := by
      rw [List.length_take]
      omega
    have hrest : full * blockSize ≤ (bytes.drop blockSize).length := by
      rw [List.length_drop]
      omega
    rw [storedBytes, storedBlocks, ← List.drop_drop, drop_storedBlock, List.take_left' hfirst,
      List.drop_left' hfirst, ih hrest, List.take_append_drop]

theorem length_filteredRows {size rows : Nat} {bytes : Bytes} (h : bytes.length = size * rows) :
    (filteredRows size rows bytes).length = (size + 1) * rows := by
  induction rows generalizing bytes with
  | zero => rfl
  | succ rows ih =>
    rw [Nat.mul_succ] at h
    have hrest : (bytes.drop size).length = size * rows := by
      rw [List.length_drop]
      omega
    rw [filteredRows, List.length_cons, List.length_append, ih hrest, List.length_take,
      Nat.mul_succ]
    omega

theorem unfilteredRows_filteredRows {size rows : Nat} {bytes : Bytes}
    (h : bytes.length = size * rows) :
    unfilteredRows size rows (filteredRows size rows bytes) = bytes := by
  induction rows generalizing bytes with
  | zero => exact (List.length_eq_zero_iff.mp (by simpa using h)).symm
  | succ rows ih =>
    rw [Nat.mul_succ] at h
    have hrow : (bytes.take size).length = size := by
      rw [List.length_take]
      omega
    have hrest : (bytes.drop size).length = size * rows := by
      rw [List.length_drop]
      omega
    rw [filteredRows, unfilteredRows, List.drop_succ_cons, List.drop_succ_cons, List.drop_zero,
      List.take_left' hrow, List.drop_left' hrow, ih hrest, List.take_append_drop]

/-- An image without filters, which is what the blocks of its file hold. -/
def rows (p : PixelBuffer) : Bytes :=
  filteredRows (4 * p.width.toNat) p.height.toNat p.rgba

/-- Where the dimensions and the blocks stand in the file of an image. -/
theorem encode_eq (p : PixelBuffer) : ∃ before between after : Bytes,
    encode p = before ++ (ofWord32 p.width ++ (ofWord32 p.height ++ (between ++
      (storedBlocks ((rows p).length / blockSize) (rows p) ++ after)))) ∧
    before.length = 16 ∧ between.length = 19 := by
  refine ⟨signature ++ (ofWord32 13 ++ [73, 72, 68, 82]),
    [8, 6, 0, 0, 0] ++ (ofWord32 (Checksum.crc32 (ofText "IHDR" ++ header p.width p.height)) ++
      (ofWord32 (.ofNat (stored (rows p)).length) ++ ([73, 68, 65, 84] ++ [0x78, 0x01]))),
    ofWord32 (Checksum.adler32 (rows p)) ++
      (ofWord32 (Checksum.crc32 (ofText "IDAT" ++ stored (rows p))) ++ chunk "IEND" []),
    ?_, rfl, rfl⟩
  simp only [encode, chunk, stored, header, rows, ofText_header, ofText_data, List.append_assoc]
  rfl

/-- A word is read where it was put. -/
theorem word32At_append (before : Bytes) (w : UInt32) (rest : Bytes) :
    (before ++ (ofWord32 w ++ rest)).word32At before.length = w := by
  have hbyte (i : Nat) : (before ++ (ofWord32 w ++ rest)).byteAt (before.length + i) =
      (ofWord32 w ++ rest).byteAt i := by
    rw [byteAt, byteAt, List.getElem?_append_right (Nat.le_add_right _ _), Nat.add_sub_cancel_left]
  rw [word32At, hbyte 1, hbyte 2, hbyte 3, ← Nat.add_zero before.length, hbyte 0]
  exact word32_ofWord32 w

/-- An image is found in its file, if it has as many bytes as its dimensions ask for. -/
theorem decode?_encode {p : PixelBuffer}
    (h : p.rgba.length = 4 * p.width.toNat * p.height.toNat) : decode? (encode p) = some p := by
  obtain ⟨before, between, after, hfile, hbefore, hbetween⟩ := encode_eq p
  have hrows : (rows p).length = (4 * p.width.toNat + 1) * p.height.toNat :=
    length_filteredRows h
  have hfull : (rows p).length / blockSize * blockSize ≤ (rows p).length :=
    Nat.div_mul_le_self _ _
  have hwidth : (encode p).word32At 16 = p.width := by
    rw [hfile, ← hbefore, word32At_append]
  have hheight : (encode p).word32At 20 = p.height := by
    have hstart : (before ++ ofWord32 p.width).length = 20 := by simp [hbefore]
    rw [hfile, ← List.append_assoc before, ← hstart, word32At_append]
  have hdrop : (encode p).drop 43 =
      storedBlocks ((rows p).length / blockSize) (rows p) ++ after := by
    have hassoc : encode p = (before ++ (ofWord32 p.width ++ (ofWord32 p.height ++ between))) ++
        (storedBlocks ((rows p).length / blockSize) (rows p) ++ after) := by
      simp only [hfile, List.append_assoc]
    rw [hassoc, List.drop_left' (by simp [hbefore, hbetween])]
  have hlong : ¬ (encode p).length < (4 * p.width.toNat + 1) * p.height.toNat := by
    have htail := congrArg List.length hdrop
    rw [List.length_drop, List.length_append, length_storedBlocks hfull] at htail
    omega
  have himage : unfilteredRows (4 * p.width.toNat) p.height.toNat (rows p) = p.rgba :=
    unfilteredRows_filteredRows h
  simp only [decode?, hwidth, hheight, if_neg hlong, hdrop]
  rw [← hrows, List.take_left' (length_storedBlocks hfull), storedBytes_storedBlocks hfull, himage,
    if_pos rfl]

/-! ### Saving -/

theorem refusal?_eq_none_iff {p : PixelBuffer} : refusal? p = none ↔
    p.width ≠ 0 ∧ p.height ≠ 0 ∧ p.rgba.length = 4 * p.width.toNat * p.height.toNat := by
  unfold refusal?
  split_ifs with hextent hlength
  · simp only [false_iff]
    tauto
  · simp [hlength]
  · rw [not_or] at hextent
    simp only [ne_eq, not_not] at hlength
    simp [hextent, hlength]

/-- Either nothing is done, or the file is put and the image is accepted or refused. -/
theorem save_cases (t : FileTree) (path : Path) (image : PixelBuffer) :
    (∃ e, save t path image = (.error e, t)) ∨
      ∃ t', t.Puts t' path (file image) ∧ save t path image = (verdict image, t') := by
  rw [save]
  cases hwrite : t.write path (file image) with
  | error e => exact .inl ⟨_, rfl⟩
  | ok t' => exact .inr ⟨t', FileTree.puts_write hwrite, rfl⟩

/-- The file that is put for an image that is accepted is one that the image can be read out of. -/
theorem decode?_file {image : PixelBuffer} (h : verdict image = .ok ()) :
    decode? (file image) = some image := by
  have haccepted : refusal? image = none := by
    cases hrefusal : refusal? image with
    | none => rfl
    | some reason => simp [verdict, hrefusal] at h
  rw [file, haccepted]
  exact decode?_encode (refusal?_eq_none_iff.mp haccepted).2.2

/-- Saving as a PNG file does all that is asked of it. -/
theorem reliable_save : ImageSaver.Reliable save decode? := by
  constructor
  · intro t path image
    rcases save_cases t path image with ⟨e, h⟩ | ⟨t', hput, h⟩ <;> rw [h]
    · exact .refl t path
    · exact hput.toTouchesOnly
  · intro t path image hok
    rcases save_cases t path image with ⟨e, h⟩ | ⟨t', hput, h⟩ <;> rw [h] at hok ⊢
    · cases hok
    · exact ⟨_, hput.read_eq⟩
  · intro t path image content hok hread
    rcases save_cases t path image with ⟨e, h⟩ | ⟨t', hput, h⟩ <;> rw [h] at hok hread
    · cases hok
    · obtain rfl : file image = content := Except.ok.inj (hput.read_eq.symm.trans hread)
      exact decode?_file hok

end DisplayList.Png
