import LazyGL.Text.Utf8

/-!
Decoding undoes encoding: the bytes of a text are read as its characters, one
piece each. The bytes of two texts stand side by side if the texts do, and they
are as many as the size of a text says.
-/

namespace LazyGL.Utf8

theorem toNat_byte {n : Nat} (h : n < 256) : (UInt8.ofNat n).toNat = n := by
  rw [UInt8.toNat_ofNat']
  omega

theorem byte_lt {n m : Nat} (hn : n < 256) (hm : m < 256) :
    UInt8.ofNat n < UInt8.ofNat m ↔ n < m := by
  rw [UInt8.lt_iff_toNat_lt, toNat_byte hn, toNat_byte hm]

theorem byte_eq {n m : Nat} (hn : n < 256) (hm : m < 256) :
    UInt8.ofNat n = UInt8.ofNat m ↔ n = m := by
  rw [← UInt8.toNat_inj, toNat_byte hn, toNat_byte hm]

/-- What a first byte announces, by its number. -/
theorem lead_byte (index : Nat) {n : Nat} (h : n < 256) :
    lead index (UInt8.ofNat n) =
      if n < 0x80 then .whole (Char.ofNat n)
      else if n < 0xC2 then .none
      else if n < 0xE0 then .pending ⟨index, [UInt8.ofNat n], 1, n % 32, 0x80, 0xBF⟩
      else if n < 0xF0 then
        .pending ⟨index, [UInt8.ofNat n], 2, n % 16, if n = 0xE0 then 0xA0 else 0x80,
          if n = 0xED then 0x9F else 0xBF⟩
      else if n < 0xF5 then
        .pending ⟨index, [UInt8.ofNat n], 3, n % 8, if n = 0xF0 then 0x90 else 0x80,
          if n = 0xF4 then 0x8F else 0xBF⟩
      else .none := by
  have hlt (m : Nat) (hm : m < 256) : (UInt8.ofNat n < UInt8.ofNat m) = (n < m) :=
    propext (byte_lt h hm)
  have heq (m : Nat) (hm : m < 256) : (UInt8.ofNat n = UInt8.ofNat m) = (n = m) :=
    propext (byte_eq h hm)
  unfold lead
  rw [toNat_byte h]
  simp only [show (0x80 : UInt8) = UInt8.ofNat 0x80 from rfl,
    show (0xC2 : UInt8) = UInt8.ofNat 0xC2 from rfl,
    show (0xE0 : UInt8) = UInt8.ofNat 0xE0 from rfl,
    show (0xF0 : UInt8) = UInt8.ofNat 0xF0 from rfl,
    show (0xF5 : UInt8) = UInt8.ofNat 0xF5 from rfl,
    show (0xED : UInt8) = UInt8.ofNat 0xED from rfl,
    show (0xF4 : UInt8) = UInt8.ofNat 0xF4 from rfl, hlt, heq, Nat.reduceLT]

/-- A byte that the pending character admits goes on with it. -/
theorem step_more {start owed code n : Nat} {read : Bytes} {least greatest : UInt8}
    {pieces : List Piece} {index : Nat} (h : n < 256) (hleast : least.toNat ≤ n)
    (hgreatest : n ≤ greatest.toNat) :
    Cutter.step ⟨some ⟨start, read, owed + 2, code, least, greatest⟩, pieces⟩ index
        (UInt8.ofNat n) =
      ⟨some ⟨start, UInt8.ofNat n :: read, owed + 1, code * 64 + n % 64, 0x80, 0xBF⟩,
        pieces⟩ := by
  have hadmits : least ≤ UInt8.ofNat n ∧ UInt8.ofNat n ≤ greatest := by
    simpa only [UInt8.le_iff_toNat_le, toNat_byte h] using ⟨hleast, hgreatest⟩
  simp [Cutter.step, Pending.admits, Pending.next, Pending.extend, toNat_byte h, hadmits]

/-- The last byte that the pending character admits completes it. -/
theorem step_last {start code n : Nat} {read : Bytes} {least greatest : UInt8}
    {pieces : List Piece} {index : Nat} (h : n < 256) (hleast : least.toNat ≤ n)
    (hgreatest : n ≤ greatest.toNat) :
    Cutter.step ⟨some ⟨start, read, 1, code, least, greatest⟩, pieces⟩ index
        (UInt8.ofNat n) =
      ⟨none, .char (Char.ofNat (code * 64 + n % 64)) :: pieces⟩ := by
  have hadmits : least ≤ UInt8.ofNat n ∧ UInt8.ofNat n ≤ greatest := by
    simpa only [UInt8.le_iff_toNat_le, toNat_byte h] using ⟨hleast, hgreatest⟩
  simp [Cutter.step, Pending.admits, Pending.extend, toNat_byte h, hadmits]

theorem step_lead {index : Nat} {b : UInt8} {p : Pending} {pieces : List Piece}
    (h : lead index b = .pending p) :
    Cutter.step ⟨none, pieces⟩ index b = ⟨some p, pieces⟩ := by
  simp only [Cutter.step, Cutter.begin, h]

theorem run_encodeChar (c : Char) (pieces : List Piece) (index : Nat) (rest : Bytes) :
    Cutter.run ⟨none, pieces⟩ index (String.utf8EncodeChar c ++ rest) =
      Cutter.run ⟨none, .char c :: pieces⟩ (index + (String.utf8EncodeChar c).length) rest := by
  have hvalid : c.val.toNat < 0xD800 ∨ (0xDFFF < c.val.toNat ∧ c.val.toNat < 0x110000) :=
    c.valid
  have hc : Char.ofNat c.val.toNat = c := Char.ofNat_toNat c
  unfold String.utf8EncodeChar
  generalize c.val.toNat = v at hvalid hc
  dsimp only
  split
  · next h1 =>
      simp only [List.cons_append, List.nil_append, Cutter.run, Cutter.step, Cutter.begin,
        lead_byte index (show v < 256 by omega), if_pos (show v < 0x80 by omega), hc,
        List.length_cons, List.length_nil]
  · next h1 =>
      split
      · next h2 =>
          have hlead : lead index (UInt8.ofNat (v / 64 % 32 + 192)) =
              .pending ⟨index, [UInt8.ofNat (v / 64 % 32 + 192)], 1,
                (v / 64 % 32 + 192) % 32, 0x80, 0xBF⟩ := by
            rw [lead_byte index (by omega), if_neg (by omega), if_neg (by omega),
              if_pos (by omega)]
          have hcode : (v / 64 % 32 + 192) % 32 * 64 + (v % 64 + 128) % 64 = v := by omega
          simp only [List.cons_append, List.nil_append, Cutter.run]
          rw [step_lead hlead, step_last (by omega) (by simp) (by simp; omega)]
          simp only [hcode, hc, List.length_cons, List.length_nil]
      · next h2 =>
          split
          · next h3 =>
              have hlead : lead index (UInt8.ofNat (v / 4096 % 16 + 224)) =
                  .pending ⟨index, [UInt8.ofNat (v / 4096 % 16 + 224)], 2,
                    (v / 4096 % 16 + 224) % 16,
                    if v / 4096 % 16 + 224 = 0xE0 then 0xA0 else 0x80,
                    if v / 4096 % 16 + 224 = 0xED then 0x9F else 0xBF⟩ := by
                rw [lead_byte index (by omega), if_neg (by omega), if_neg (by omega),
                  if_neg (by omega), if_pos (by omega)]
              have hcode : ((v / 4096 % 16 + 224) % 16 * 64 + (v / 64 % 64 + 128) % 64) * 64 +
                  (v % 64 + 128) % 64 = v := by omega
              simp only [List.cons_append, List.nil_append, Cutter.run]
              rw [step_lead hlead, step_more (by omega)
                (by rw [apply_ite UInt8.toNat]; simp; split <;> omega)
                (by rw [apply_ite UInt8.toNat]; simp; split <;> omega),
                step_last (by omega) (by simp) (by simp; omega)]
              simp only [hcode, hc, List.length_cons, List.length_nil]
          · next h3 =>
              have hlead : lead index (UInt8.ofNat (v / 262144 % 8 + 240)) =
                  .pending ⟨index, [UInt8.ofNat (v / 262144 % 8 + 240)], 3,
                    (v / 262144 % 8 + 240) % 8,
                    if v / 262144 % 8 + 240 = 0xF0 then 0x90 else 0x80,
                    if v / 262144 % 8 + 240 = 0xF4 then 0x8F else 0xBF⟩ := by
                rw [lead_byte index (by omega), if_neg (by omega), if_neg (by omega),
                  if_neg (by omega), if_neg (by omega), if_pos (by omega)]
              have hcode : (((v / 262144 % 8 + 240) % 8 * 64 + (v / 4096 % 64 + 128) % 64) * 64 +
                  (v / 64 % 64 + 128) % 64) * 64 + (v % 64 + 128) % 64 = v := by omega
              simp only [List.cons_append, List.nil_append, Cutter.run]
              rw [step_lead hlead, step_more (by omega)
                (by rw [apply_ite UInt8.toNat]; simp; split <;> omega)
                (by rw [apply_ite UInt8.toNat]; simp; split <;> omega),
                step_more (by omega) (by simp) (by simp; omega),
                step_last (by omega) (by simp) (by simp; omega)]
              simp only [hcode, hc, List.length_cons, List.length_nil]

/-- The bytes of some characters are read as these characters. -/
theorem run_encode (chars : List Char) (pieces : List Piece) (index : Nat) :
    Cutter.run ⟨none, pieces⟩ index (encode chars) =
      pieces.reverse ++ chars.map Piece.char := by
  induction chars generalizing pieces index with
  | nil => simp [encode, Cutter.run, Cutter.finish]
  | cons c chars ih =>
      have := run_encodeChar c pieces index (encode chars)
      rw [ih] at this
      simpa [encode] using this

theorem pieces_encode (chars : List Char) : pieces (encode chars) = chars.map Piece.char := by
  simp [pieces, run_encode]

theorem charsOfPieces_map (read chars : List Char) :
    charsOfPieces read (chars.map Piece.char) = .ok (read.reverse ++ chars) := by
  induction chars generalizing read with
  | nil => simp [charsOfPieces]
  | cons c chars ih => simp [charsOfPieces, ih]

theorem decode_encode (chars : List Char) : decode (encode chars) = .ok chars := by
  rw [decode, pieces_encode, charsOfPieces_map]
  simp

/-- The bytes of a text are read as its characters. -/
theorem decode_ofString (text : String) : decode (ofString text) = .ok text.toList :=
  decode_encode text.toList

/-- Different texts have different bytes. -/
theorem ofString_injective : Function.Injective ofString := by
  intro text more h
  have hdecode := congrArg decode h
  rw [decode_ofString, decode_ofString, Except.ok.injEq] at hdecode
  exact String.toList_inj.mp hdecode

theorem ofString_append (text more : String) :
    ofString (text ++ more) = ofString text ++ ofString more := by
  simp [ofString, encode]

theorem toUTF8_eq (text : String) : text.toUTF8 = (ofString text).toByteArray := by
  rw [String.toUTF8_eq_toByteArray, ← String.utf8Encode_toList]
  rfl

/-- A front part of the bytes of a text. -/
theorem extract_toUTF8 (text : String) (size : Nat) :
    text.toUTF8.extract 0 size = ((ofString text).take size).toByteArray := by
  rw [toUTF8_eq]
  ext1
  simp

theorem length_ofString (text : String) : (ofString text).length = text.utf8ByteSize := by
  have hsize : (String.ofList text.toList).utf8ByteSize = (ofString text).toByteArray.size := rfl
  rw [String.ofList_toList, List.size_toByteArray] at hsize
  exact hsize.symm

end LazyGL.Utf8
