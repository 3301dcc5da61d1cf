import HackVM.Text.Utf8

/-! # Texts survive encoding

The bytes of a text, decoded, are the text again (`decode_encode`).  The decoder reads a
character byte by byte, and the proof follows it: the first byte announces the windows
of those after it (`opening`), each of them falls into its window, and the bits that
have been gathered are the code of the character. -/
namespace HackVM.Text.Utf8

/-! ## The bytes of a text -/

/-- The bytes from a position on, after those that have been collected. -/
theorem toList_loop (bytes : ByteArray) {position left : Nat} (h : position + left = bytes.size)
    (collected : List UInt8) :
    ByteArray.toList.loop bytes position collected =
      collected.reverse ++ bytes.data.toList.drop position := by
  have hlength : bytes.data.toList.length = bytes.size := by simp
  -- induction on the number of bytes that are left
  induction left generalizing position collected with
  | zero =>
    rw [ByteArray.toList.loop, if_neg (by omega), List.drop_eq_nil_of_le (by omega),
      List.append_nil]
  | succ left ih =>
    have hlt : position < bytes.size := by omega
    have hget : bytes.get! position = bytes.data.toList[position] := by
      simp [ByteArray.get!, hlt]
    rw [ByteArray.toList.loop, if_pos hlt, ih (by omega), List.reverse_cons, List.append_assoc,
      hget, List.singleton_append, ← List.drop_eq_getElem_cons]

theorem encode_eq_flatMap (s : String) : encode s = s.toList.flatMap String.utf8EncodeChar := by
  have hbytes : s.toUTF8 = (s.toList.flatMap String.utf8EncodeChar).toByteArray :=
    String.utf8Encode_toList.symm
  rw [encode, hbytes, ByteArray.toList, toList_loop _ (Nat.zero_add _),
    List.toList_data_toByteArray]
  rfl

/-! ## First bytes -/

variable {b : UInt8}

theorem opening_one (h : b.toNat < 0x80) : opening b = some (b.toNat, []) := if_pos h

theorem opening_two (hlow : 0xC2 ≤ b.toNat) (hhigh : b.toNat < 0xE0) :
    opening b = some (b.toNat - 0xC0, [tail]) := by
  simp only [opening]
  rw [if_neg (by omega), if_neg (by omega), if_pos hhigh]

theorem opening_three (hlow : 0xE0 ≤ b.toNat) (hhigh : b.toNat < 0xF0) :
    opening b = some (b.toNat - 0xE0,
      [⟨if b.toNat = 0xE0 then 0xA0 else 0x80, if b.toNat = 0xED then 0x9F else 0xBF⟩, tail]) := by
  simp only [opening]
  rw [if_neg (by omega), if_neg (by omega), if_neg (by omega), if_pos hhigh]
  split
  · rename_i h
    simp [h]
  · split
    · rename_i h
      simp [h]
    · rfl

theorem opening_four (hlow : 0xF0 ≤ b.toNat) (hhigh : b.toNat ≤ 0xF4) :
    opening b = some (b.toNat - 0xF0,
      [⟨if b.toNat = 0xF0 then 0x90 else 0x80, if b.toNat = 0xF4 then 0x8F else 0xBF⟩, tail,
        tail]) := by
  simp only [opening]
  rw [if_neg (by omega), if_neg (by omega), if_neg (by omega), if_neg (by omega),
    if_neg (by omega), if_neg (by omega)]
  split
  · rename_i h
    simp [h]
  · rename_i hne
    split
    · rw [if_neg (by omega)]
      rfl
    · rw [if_pos (by omega), if_pos (by omega), show b.toNat = 0xF4 by omega]

/-! ## Characters -/

theorem holds_iff {w : Window} : w.holds b = true ↔ w.low ≤ b.toNat ∧ b.toNat ≤ w.high := by
  simp [Window.holds]

/-- A first byte after which nothing is owed is a character. -/
theorem decodeFrom_single {position value : Nat} (h : opening b = some (value, []))
    (bs : List UInt8) :
    decodeFrom position none (b :: bs) =
      (Char.ofNat value :: ·) <$> decodeFrom (position + 1) none bs := by
  rw [decodeFrom, h]

/-- Any other first byte begins a character. -/
theorem decodeFrom_first {position value : Nat} {next : Window} {later : List Window}
    (h : opening b = some (value, next :: later)) (bs : List UInt8) :
    decodeFrom position none (b :: bs) =
      decodeFrom position (some ⟨value, next, later, [b]⟩) bs := by
  rw [decodeFrom, h]

/-- A byte that falls into the last window completes a character. -/
theorem decodeFrom_last {position value : Nat} {next : Window} {accepted : List UInt8}
    (h : next.holds b = true) (bs : List UInt8) :
    decodeFrom position (some ⟨value, next, [], accepted⟩) (b :: bs) =
      (Char.ofNat (value * 64 + (b.toNat - 0x80)) :: ·) <$>
        decodeFrom (position + accepted.length + 1) none bs := by
  rw [decodeFrom, if_pos h]

/-- A byte that falls into an earlier window adds its bits. -/
theorem decodeFrom_next {position value : Nat} {next after : Window} {later : List Window}
    {accepted : List UInt8} (h : next.holds b = true) (bs : List UInt8) :
    decodeFrom position (some ⟨value, next, after :: later, accepted⟩) (b :: bs) =
      decodeFrom position
        (some ⟨value * 64 + (b.toNat - 0x80), after, later, accepted ++ [b]⟩) bs := by
  rw [decodeFrom, if_pos h]

theorem toNat_ofNat {n : Nat} (h : n < 256) : (UInt8.ofNat n).toNat = n := by
  rw [UInt8.toNat_ofNat']
  omega

theorem toNat_continuation (n : Nat) : (UInt8.ofNat (n % 0x40 + 0x80)).toNat = n % 0x40 + 0x80 :=
  toNat_ofNat (by omega)

theorem holds_tail (n : Nat) : tail.holds (UInt8.ofNat (n % 0x40 + 0x80)) = true := by
  rw [holds_iff, toNat_continuation]
  simp only [tail]
  omega

/-- **A character is read back from its bytes**, and the next one starts behind them. -/
theorem decodeFrom_char (position : Nat) (c : Char) (rest : List UInt8) :
    decodeFrom position none (String.utf8EncodeChar c ++ rest) =
      (c :: ·) <$> decodeFrom (position + (String.utf8EncodeChar c).length) none rest := by
  have hvalid : c.toNat < 0xD800 ∨ (0xDFFF < c.toNat ∧ c.toNat < 0x110000) := c.valid
  have hc : Char.ofNat c.toNat = c := Char.ofNat_toNat c
  simp only [String.utf8EncodeChar, show c.val.toNat = c.toNat from rfl]
  generalize c.toNat = v at hvalid hc
  -- by the number of bytes; in each case the bits make up the code again
  split
  · rename_i hone
    have hb : (UInt8.ofNat v).toNat = v := toNat_ofNat (by omega)
    rw [List.singleton_append, decodeFrom_single (opening_one (by omega)), hb, hc]
    rfl
  · rename_i hone
    split
    · rename_i htwo
      have hb : (UInt8.ofNat (v / 64 % 0x20 + 0xc0)).toNat = v / 64 + 0xC0 := by
        rw [toNat_ofNat] <;> omega
      have hv : (v / 64 + 0xC0 - 0xC0) * 64 + (v % 0x40 + 0x80 - 0x80) = v := by omega
      rw [List.cons_append, List.singleton_append,
        decodeFrom_first (opening_two (by omega) (by omega)), decodeFrom_last (holds_tail v),
        toNat_continuation, hb, hv, hc]
      rfl
    · rename_i htwo
      split
      · rename_i hthree
        have hb : (UInt8.ofNat (v / 4096 % 0x10 + 0xe0)).toNat = v / 4096 + 0xE0 := by
          rw [toNat_ofNat] <;> omega
        have hv : ((v / 4096 + 0xE0 - 0xE0) * 64 + (v / 64 % 0x40 + 0x80 - 0x80)) * 64
            + (v % 0x40 + 0x80 - 0x80) = v := by omega
        rw [List.cons_append, List.cons_append, List.singleton_append,
          decodeFrom_first (opening_three (by omega) (by omega)), decodeFrom_next ?_,
          decodeFrom_last (holds_tail v), toNat_continuation, toNat_continuation, hb, hv, hc]
        · rfl
        · rw [holds_iff, toNat_continuation, hb]
          constructor <;> dsimp only <;> split <;> omega
      · have hb : (UInt8.ofNat (v / 262144 % 0x08 + 0xf0)).toNat = v / 262144 + 0xF0 := by
          rw [toNat_ofNat] <;> omega
        have hv : (((v / 262144 + 0xF0 - 0xF0) * 64 + (v / 4096 % 0x40 + 0x80 - 0x80)) * 64
            + (v / 64 % 0x40 + 0x80 - 0x80)) * 64 + (v % 0x40 + 0x80 - 0x80) = v := by omega
        rw [List.cons_append, List.cons_append, List.cons_append, List.singleton_append,
          decodeFrom_first (opening_four (by omega) (by omega)), decodeFrom_next ?_,
          decodeFrom_next (holds_tail _), decodeFrom_last (holds_tail v), toNat_continuation,
          toNat_continuation, toNat_continuation, hb, hv, hc]
        · rfl
        · rw [holds_iff, toNat_continuation, hb]
          constructor <;> dsimp only <;> split <;> omega

/-- **A text is read back from its bytes.** -/
theorem decode_encode (s : String) : decode (encode s) = .ok s.toList := by
  have hfrom (cs : List Char) (position : Nat) :
      decodeFrom position none (cs.flatMap String.utf8EncodeChar) = .ok cs := by
    induction cs generalizing position with
    | nil => rfl
    | cons c cs ih =>
      rw [List.flatMap_cons, decodeFrom_char, ih]
      rfl
  rw [decode, encode_eq_flatMap, hfrom]

end HackVM.Text.Utf8
