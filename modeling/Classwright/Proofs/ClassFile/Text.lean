import Classwright.ClassFile.ModifiedUtf8
import Classwright.Proofs.Outcome

/-!
Texts of class files.

A text is read back from its sixteen-bit units, since its characters are no surrogates, and units
are read back from their bytes. What a unit takes is told by its first byte, so that units are read
one after another.
-/

namespace Classwright

open List

namespace Text

/-! ### Units -/

variable {u : UInt16}

lemma ofUnitsList_cons (hh : isHigh u = false) (hl : isLow u = false)
    (us : List UInt16) : ofUnitsList (u :: us) = Char.ofNat u.toNat :: ofUnitsList us := by
  cases us with
  | nil => simp [ofUnitsList, hh, hl]
  | cons v us => simp [ofUnitsList, hh, hl]

lemma ofUnitsList_pair {v : UInt16} (hu : isHigh u = true) (hv : isLow v = true)
    (us : List UInt16) : ofUnitsList (u :: v :: us) = pairChar u v :: ofUnitsList us := by
  simp [ofUnitsList, hu, hv]

lemma isHigh_iff : isHigh u = true ↔ 0xD800 ≤ u.toNat ∧ u.toNat < 0xDC00 := by
  simp [isHigh, UInt16.le_iff_toNat_le, UInt16.lt_iff_toNat_lt]

lemma isLow_iff : isLow u = true ↔ 0xDC00 ≤ u.toNat ∧ u.toNat < 0xE000 := by
  simp [isLow, UInt16.le_iff_toNat_le, UInt16.lt_iff_toNat_lt]

/-- A character is read back from its units. -/
lemma ofUnitsList_charUnits (c : Char) (us : List UInt16) :
    ofUnitsList (charUnits c ++ us) = c :: ofUnitsList us := by
  have hvalid : c.toNat < 0xD800 ∨ 0xDFFF < c.toNat ∧ c.toNat < 0x110000 := c.valid
  have hunit {n : Nat} (hn : n < 0x10000) : (UInt16.ofNat n).toNat = n :=
    UInt16.toNat_ofNat_of_lt' hn
  unfold charUnits
  split_ifs with hc
  · have hu := hunit hc
    rw [singleton_append, ofUnitsList_cons, hu, Char.ofNat_toNat]
    · rw [← Bool.not_eq_true, isHigh_iff, hu]
      omega
    · rw [← Bool.not_eq_true, isLow_iff, hu]
      omega
  · have hhigh := hunit (n := 0xD800 + (c.toNat - 0x10000) / 0x400) (by omega)
    have hlow := hunit (n := 0xDC00 + (c.toNat - 0x10000) % 0x400) (by omega)
    have hchar : 0x10000 + (0xD800 + (c.toNat - 0x10000) / 0x400 - 0xD800) * 0x400 +
        (0xDC00 + (c.toNat - 0x10000) % 0x400 - 0xDC00) = c.toNat := by
      omega
    dsimp only
    rw [cons_append, singleton_append, ofUnitsList_pair, pairChar, hhigh, hlow, hchar,
      Char.ofNat_toNat]
    · rw [isHigh_iff, hhigh]
      omega
    · rw [isLow_iff, hlow]
      omega

/-- A text is read back from its units. -/
lemma ofUnits_units (s : String) : ofUnits (units s) = s := by
  have hlist (cs : List Char) : ofUnitsList (cs.flatMap charUnits) = cs := by
    induction cs with
    | nil => rfl
    | cons c cs ih => rw [flatMap_cons, ofUnitsList_charUnits, ih]
  rw [ofUnits, units, hlist, String.ofList_toList]

end Text

namespace ModifiedUtf8

/-! ### Bytes -/

variable {x : UInt8}

/-- The first byte of two is told by its highest bits, and has five bits of the unit. -/
lemma lead_two (hx : x.toNat < 32) : ¬ 0xC0 ||| x < 0x80 ∧
    (0xC0 ||| x) &&& 0xE0 = 0xC0 ∧ (0xC0 ||| x) &&& 0x1F = x := by
  have h : ∀ n : Fin 32, ¬ 0xC0 ||| UInt8.ofNat n < 0x80 ∧
      (0xC0 ||| UInt8.ofNat n) &&& 0xE0 = 0xC0 ∧
      (0xC0 ||| UInt8.ofNat n) &&& 0x1F = UInt8.ofNat n := by decide +kernel
  simpa using h ⟨x.toNat, hx⟩

/-- So is the first byte of three, which has four. -/
lemma lead_three (hx : x.toNat < 16) : ¬ 0xE0 ||| x < 0x80 ∧
    (0xE0 ||| x) &&& 0xE0 ≠ 0xC0 ∧ (0xE0 ||| x) &&& 0xF0 = 0xE0 ∧ (0xE0 ||| x) &&& 0x0F = x := by
  have h : ∀ n : Fin 16, ¬ 0xE0 ||| UInt8.ofNat n < 0x80 ∧
      (0xE0 ||| UInt8.ofNat n) &&& 0xE0 ≠ 0xC0 ∧ (0xE0 ||| UInt8.ofNat n) &&& 0xF0 = 0xE0 ∧
      (0xE0 ||| UInt8.ofNat n) &&& 0x0F = UInt8.ofNat n := by decide +kernel
  simpa using h ⟨x.toNat, hx⟩

lemma toNat_lead_two {u : UInt16} (hu : u.toNat < 0x800) : (u >>> 6).toUInt8.toNat < 32 := by
  simp [Nat.shiftRight_eq_div_pow]
  omega

lemma toNat_lead_three (u : UInt16) : (u >>> 12).toUInt8.toNat < 16 := by
  have hu := u.toNat_lt
  simp [Nat.shiftRight_eq_div_pow]
  omega

/-- The other bytes have six bits each. -/
lemma continuation_bits (u n : UInt16) :
    (continuation u n &&& 0x3F).toUInt16 = u >>> n &&& 0x3F := by
  have hlt : (u >>> n &&& 0x3F).toNat < 64 := by
    rw [UInt16.toNat_and]
    exact lt_of_le_of_lt Nat.and_le_right (by decide)
  have h : ∀ n : Fin 64, ((0x80 : UInt8) ||| (UInt16.ofNat n).toUInt8) &&& 0x3F =
      (UInt16.ofNat n).toUInt8 := by decide +kernel
  have hbyte := h ⟨_, hlt⟩
  simp only [UInt16.ofNat_toNat] at hbyte
  rw [continuation, hbyte]
  apply UInt16.toNat_inj.1
  rw [UInt8.toNat_toUInt16, UInt16.toNat_toUInt8]
  omega

lemma toNat_and_63 (u : UInt16) : (u &&& 0x3F).toNat = u.toNat % 64 :=
  Nat.and_two_pow_sub_one_eq_mod u.toNat 6

lemma toNat_low (u : UInt16) : (u >>> 0 &&& 0x3F).toNat = u.toNat % 2 ^ 6 := by
  rw [toNat_and_63]
  simp

/-- A number is made of its lowest bits and those above them. -/
lemma or_low (a k : Nat) : (a / 2 ^ k) <<< k ||| a % 2 ^ k = a := by
  rw [← Nat.shiftLeft_add_eq_or_of_lt (Nat.mod_lt _ (Nat.two_pow_pos k)), Nat.shiftLeft_eq,
    Nat.div_add_mod']

lemma join_two {u : UInt16} (hu : u.toNat < 0x800) :
    (u >>> 6).toUInt8.toUInt16 <<< 6 ||| (u >>> 0 &&& 0x3F) = u := by
  have hhigh : ((u >>> 6).toUInt8.toUInt16 <<< 6).toNat = (u.toNat / 2 ^ 6) <<< 6 := by
    simp [Nat.shiftRight_eq_div_pow, Nat.shiftLeft_eq]
    omega
  apply UInt16.toNat_inj.1
  rw [UInt16.toNat_or, hhigh, toNat_low, or_low]

lemma join_three (u : UInt16) : (u >>> 12).toUInt8.toUInt16 <<< 12 ||| (u >>> 6 &&& 0x3F) <<< 6 |||
    (u >>> 0 &&& 0x3F) = u := by
  have hu := u.toNat_lt
  have hhigh : ((u >>> 12).toUInt8.toUInt16 <<< 12).toNat =
      (u.toNat / 2 ^ 6 / 2 ^ 6) <<< 6 <<< 6 := by
    simp [Nat.shiftRight_eq_div_pow, Nat.shiftLeft_eq]
    omega
  have hmid : ((u >>> 6 &&& 0x3F) <<< 6).toNat = (u.toNat / 2 ^ 6 % 2 ^ 6) <<< 6 := by
    rw [UInt16.toNat_shiftLeft, toNat_and_63]
    simp [Nat.shiftRight_eq_div_pow, Nat.shiftLeft_eq]
    omega
  apply UInt16.toNat_inj.1
  rw [UInt16.toNat_or, UInt16.toNat_or, hhigh, hmid, toNat_low, ← Nat.shiftLeft_or_distrib,
    or_low, or_low]

/-- A unit is read from the bytes in front. -/
lemma decodeOnto_encodeUnit (done : List UInt16) (i : Nat) (u : UInt16) (rest : Bytes) :
    decodeOnto done i (encodeUnit u ++ rest) =
    decodeOnto (u :: done) (i + (encodeUnit u).length) rest := by
  have hu := u.toNat_lt
  unfold encodeUnit
  split_ifs with h₁ h₂
  · have hlt := UInt16.lt_iff_toNat_lt.1 h₁.2
    have ha : u.toUInt8 < 0x80 := by
      rw [UInt8.lt_iff_toNat_lt, UInt16.toNat_toUInt8]
      exact lt_of_le_of_lt (Nat.mod_le _ _) hlt
    have hsame : u.toUInt8.toUInt16 = u := by
      apply UInt16.toNat_inj.1
      rw [UInt8.toNat_toUInt16, UInt16.toNat_toUInt8]
      exact Nat.mod_eq_of_lt (lt_trans hlt (by decide))
    rw [singleton_append, decodeOnto.eq_def]
    simp only [if_pos ha, hsame]
    rfl
  · have hlt := UInt16.lt_iff_toNat_lt.1 h₂
    obtain ⟨hbig, hlead, hbits⟩ := lead_two (toNat_lead_two hlt)
    rw [cons_append, singleton_append, decodeOnto, if_neg hbig, if_pos hlead]
    simp only [hbits, continuation_bits]
    rw [join_two hlt]
    rfl
  · obtain ⟨hbig, hnot, hlead, hbits⟩ := lead_three (toNat_lead_three u)
    rw [cons_append, cons_append, singleton_append, decodeOnto, if_neg hbig, if_neg hnot,
      if_pos hlead]
    simp only [hbits, continuation_bits]
    rw [join_three]
    rfl

lemma decodeOnto_flatMap (done : List UInt16) (i : Nat) (us : List UInt16) :
    decodeOnto done i (us.flatMap encodeUnit) = .ok (done.reverse ++ us) := by
  induction us generalizing done i with
  | nil => simp [decodeOnto]
  | cons u us ih => rw [flatMap_cons, decodeOnto_encodeUnit, ih]; simp

/-- A text is read back from its bytes. -/
lemma decode_encode (s : String) : decode (encode s) = .ok s := by
  rw [decode, encode, decodeOnto_flatMap, reverse_nil, nil_append]
  exact congrArg Except.ok (Text.ofUnits_units s)

/-- A byte of a unit is not zero, and not one with its four highest bits set. -/
lemma bounds_of_mem_encodeUnit {u : UInt16} {b : UInt8} (hb : b ∈ encodeUnit u) :
    b ≠ 0 ∧ b < 0xF0 := by
  have hlead {a x : UInt8} {k : Nat} (hx : x.toNat < k)
      (ha : ∀ n : Fin k, a ||| UInt8.ofNat n ≠ 0 ∧ a ||| UInt8.ofNat n < 0xF0) :
        a ||| x ≠ 0 ∧ a ||| x < 0xF0 := by
    simpa using ha ⟨x.toNat, hx⟩
  have hnext (n : UInt16) : continuation u n ≠ 0 ∧ continuation u n < 0xF0 := by
    refine hlead (k := 64) ?_ (by decide +kernel)
    rw [UInt16.toNat_toUInt8, toNat_and_63]
    omega
  unfold encodeUnit at hb
  split_ifs at hb with h₁ h₂
  · obtain rfl := mem_singleton.1 hb
    have hlt := UInt16.lt_iff_toNat_lt.1 h₁.2
    have hbyte : u.toUInt8.toNat = u.toNat := Nat.mod_eq_of_lt (lt_trans hlt (by decide))
    refine ⟨fun h0 => h₁.1 ?_, ?_⟩
    · rw [← UInt16.toNat_inj, ← hbyte, h0]
      rfl
    · rw [UInt8.lt_iff_toNat_lt, hbyte]
      exact lt_trans hlt (by decide)
  · simp only [mem_cons, not_mem_nil, or_false] at hb
    obtain rfl | rfl := hb
    · exact hlead (toNat_lead_two (UInt16.lt_iff_toNat_lt.1 h₂)) (by decide +kernel)
    · exact hnext 0
  · simp only [mem_cons, not_mem_nil, or_false] at hb
    obtain rfl | rfl | rfl := hb
    · exact hlead (toNat_lead_three u) (by decide +kernel)
    · exact hnext 6
    · exact hnext 0

/-- **Modified UTF-8 is a faithful code.** A text is read back from its bytes, so that no two texts
have the same bytes, and none of them is zero or has its four highest bits set. -/
theorem encode_faithful :
    (∀ s : String, decode (encode s) = .ok s ∧ ∀ b ∈ encode s, b ≠ 0 ∧ b < 0xF0) ∧
    Function.Injective encode := by
  refine ⟨fun s => ⟨decode_encode s, fun b hb => ?_⟩, fun s t h => ?_⟩
  · obtain ⟨u, -, hu⟩ := mem_flatMap.1 hb
    exact bounds_of_mem_encodeUnit hu
  · have hdecode := congrArg decode h
    rw [decode_encode, decode_encode] at hdecode
    exact Except.ok.inj hdecode

/-- A zero and a character of two units, in either order. -/
theorem encode_faithful_pair : encode "\x00𐀀" = [0xC0, 0x80, 0xED, 0xA0, 0x80, 0xED, 0xB0, 0x80] ∧
    decode (encode "\x00𐀀") = .ok "\x00𐀀" ∧ ((0xED : UInt8) ≠ 0 ∧ (0xED : UInt8) < 0xF0) ∧
    encode "\x00𐀀" ≠ encode "𐀀\x00" := by
  have hbytes : encode "\x00𐀀" = [0xC0, 0x80, 0xED, 0xA0, 0x80, 0xED, 0xB0, 0x80] := by
    decide +kernel
  obtain ⟨hdecode, hbounds⟩ := encode_faithful.1 "\x00𐀀"
  exact ⟨hbytes, hdecode, hbounds 0xED (by simp [hbytes]), encode_faithful.2.ne (by decide)⟩

end ModifiedUtf8

end Classwright
