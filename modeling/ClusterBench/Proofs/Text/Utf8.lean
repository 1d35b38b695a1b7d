import Mathlib
import ClusterBench.Text.Utf8

/-!
# Texts as bytes and back

The bytes of a character begin it, and each byte that follows lies between the bounds that the ones
before it leave. So the bytes of a text are read as its characters and as nothing else.
-/

namespace ClusterBench

def symbols (text : String) : List Symbol := text.toList.map some

namespace Utf8

theorem encode_eq (text : String) : encode text = text.toList.flatMap String.utf8EncodeChar := by
  have hbytes : text.toUTF8 = text.toList.utf8Encode := String.utf8Encode_toList.symm
  rw [encode, hbytes]
  exact List.toList_data_toByteArray

variable {byte : UInt8} {bytes : List UInt8}

theorem decodeFrom_whole {c : Char} (h : start byte.toNat = .whole c) :
    decodeFrom none (byte :: bytes) = some c :: decodeFrom none bytes := by
  simp [decodeFrom, h]

theorem decodeFrom_longer {p : Pending} (h : start byte.toNat = .longer p) :
    decodeFrom none (byte :: bytes) = decodeFrom (some p) bytes := by
  simp [decodeFrom, h]

theorem decodeFrom_last {lower upper bits : ℕ} (h : lower ≤ byte.toNat ∧ byte.toNat ≤ upper) :
    decodeFrom (some ⟨1, lower, upper, bits⟩) (byte :: bytes) =
      some (Char.ofNat (bits * 64 + (byte.toNat - 0x80))) :: decodeFrom none bytes := by
  simp [decodeFrom, h]

theorem decodeFrom_next {needed lower upper bits : ℕ}
    (h : lower ≤ byte.toNat ∧ byte.toNat ≤ upper) :
    decodeFrom (some ⟨needed + 2, lower, upper, bits⟩) (byte :: bytes) =
      decodeFrom (some ⟨needed + 1, 0x80, 0xbf, bits * 64 + (byte.toNat - 0x80)⟩) bytes := by
  simp [decodeFrom, h]

theorem start_two {b : ℕ} (h : 0xc2 ≤ b) (h' : b < 0xe0) :
    start b = .longer ⟨1, 0x80, 0xbf, b - 0xc0⟩ := by
  unfold start
  rw [if_neg (by omega), if_neg (by omega), if_pos h']

theorem start_three {b : ℕ} (h : 0xe0 ≤ b) (h' : b < 0xf0) : start b = .longer
    ⟨2, if b = 0xe0 then 0xa0 else 0x80, if b = 0xed then 0x9f else 0xbf, b - 0xe0⟩ := by
  unfold start
  rw [if_neg (by omega), if_neg (by omega), if_neg (by omega)]
  by_cases hlow : b = 0xe0
  · subst hlow
    rfl
  by_cases hsurrogate : b = 0xed
  · subst hsurrogate
    rfl
  rw [if_neg hlow, if_neg hsurrogate, if_pos h', if_neg hlow, if_neg hsurrogate]

theorem start_four {b : ℕ} (h : 0xf0 ≤ b) (h' : b ≤ 0xf4) : start b = .longer
    ⟨3, if b = 0xf0 then 0x90 else 0x80, if b = 0xf4 then 0x8f else 0xbf, b - 0xf0⟩ := by
  obtain rfl | rfl | rfl | rfl | rfl : b = 0xf0 ∨ b = 0xf1 ∨ b = 0xf2 ∨ b = 0xf3 ∨ b = 0xf4 := by
    omega
  all_goals rfl

theorem toNat_ofNat {n : ℕ} (h : n < 256) : (UInt8.ofNat n).toNat = n :=
  UInt8.toNat_ofNat_of_lt h

theorem decodeFrom_encodeChar (c : Char) (bytes : List UInt8) :
    decodeFrom none (String.utf8EncodeChar c ++ bytes) = some c :: decodeFrom none bytes := by
  obtain ⟨n, hn⟩ : ∃ n, c.val.toNat = n := ⟨_, rfl⟩
  have hc : Char.ofNat n = c := by
    rw [← hn]
    exact Char.ofNat_toNat c
  have hvalid : n < 0xd800 ∨ 0xdfff < n ∧ n < 0x110000 := by
    rw [← hn]
    exact c.valid
  unfold String.utf8EncodeChar
  dsimp only
  rw [hn]
  split_ifs with hone htwo hthree
  · have hbyte := toNat_ofNat (n := n) (by omega)
    apply decodeFrom_whole
    rw [hbyte, start, if_pos (by omega), hc]
  · have hfirst := toNat_ofNat (n := n / 64 % 32 + 192) (by omega)
    have hsecond := toNat_ofNat (n := n % 64 + 128) (by omega)
    rw [List.cons_append, List.cons_append, List.nil_append,
      decodeFrom_longer (start_two (by omega) (by omega)), decodeFrom_last (by omega), hfirst,
      hsecond]
    have hbits : (n / 64 % 32 + 192 - 0xc0) * 64 + (n % 64 + 128 - 0x80) = n := by omega
    rw [hbits, hc]
  · have hfirst := toNat_ofNat (n := n / 4096 % 16 + 224) (by omega)
    have hsecond := toNat_ofNat (n := n / 64 % 64 + 128) (by omega)
    have hthird := toNat_ofNat (n := n % 64 + 128) (by omega)
    rw [List.cons_append, List.cons_append, List.cons_append, List.nil_append,
      decodeFrom_longer (start_three (by omega) (by omega)), decodeFrom_next, decodeFrom_last,
      hfirst, hsecond, hthird]
    · have hbits : ((n / 4096 % 16 + 224 - 0xe0) * 64 + (n / 64 % 64 + 128 - 0x80)) * 64 +
          (n % 64 + 128 - 0x80) = n := by omega
      rw [hbits, hc]
    · omega
    · rw [hfirst, hsecond]
      split_ifs <;> omega
  · have hfirst := toNat_ofNat (n := n / 262144 % 8 + 240) (by omega)
    have hsecond := toNat_ofNat (n := n / 4096 % 64 + 128) (by omega)
    have hthird := toNat_ofNat (n := n / 64 % 64 + 128) (by omega)
    have hfourth := toNat_ofNat (n := n % 64 + 128) (by omega)
    rw [List.cons_append, List.cons_append, List.cons_append, List.cons_append, List.nil_append,
      decodeFrom_longer (start_four (by omega) (by omega)), decodeFrom_next, decodeFrom_next,
      decodeFrom_last, hfirst, hsecond, hthird, hfourth]
    · have hbits : (((n / 262144 % 8 + 240 - 0xf0) * 64 + (n / 4096 % 64 + 128 - 0x80)) * 64 +
          (n / 64 % 64 + 128 - 0x80)) * 64 + (n % 64 + 128 - 0x80) = n := by omega
      rw [hbits, hc]
    · omega
    · omega
    · rw [hfirst, hsecond]
      split_ifs <;> omega

/-- The bytes of a text are read as its characters. -/
theorem decode_encode (text : String) : decode (encode text) = symbols text := by
  have hchars (cs : List Char) :
      decodeFrom none (cs.flatMap String.utf8EncodeChar) = cs.map some := by
    induction cs with
    | nil => rfl
    | cons c cs ih => rw [List.flatMap_cons, decodeFrom_encodeChar, ih, List.map_cons]
  rw [encode_eq]
  exact hchars text.toList

end Utf8

end ClusterBench
