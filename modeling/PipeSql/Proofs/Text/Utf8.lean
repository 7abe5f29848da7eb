import Mathlib.Tactic.IntervalCases
import PipeSql.Text.Utf8

/-! # Reading back what is written in UTF-8

The reader in front of the bytes of a character, whatever stands behind them. Main statement: the
bytes of a text are read as that text. -/

namespace PipeSql.Text

variable {c : Char} {b : UInt8} {cs : List Char} {bytes rest : List UInt8}

/-! ## The bytes of a text -/

/-- The bytes of characters. -/
def utf8 (cs : List Char) : List UInt8 :=
  cs.flatMap String.utf8EncodeChar

@[simp] theorem utf8_nil : utf8 [] = [] := rfl

@[simp] theorem utf8_cons (c : Char) (cs : List Char) :
    utf8 (c :: cs) = String.utf8EncodeChar c ++ utf8 cs := rfl

@[simp] theorem utf8_append (front back : List Char) :
    utf8 (front ++ back) = utf8 front ++ utf8 back :=
  List.flatMap_append

theorem toList_loop (bytes : ByteArray) (i : Nat) (front : List UInt8) :
    ByteArray.toList.loop bytes i front = front.reverse ++ bytes.data.toList.drop i := by
  fun_induction ByteArray.toList.loop bytes i front with
  | case1 i front h ih =>
    have hi : i < bytes.data.toList.length := h
    have hget : bytes.get! i = bytes.data.toList[i] := by
      exact getElem!_pos bytes.data i h
    rw [ih, List.drop_eq_getElem_cons hi, hget, List.reverse_cons, List.append_assoc,
      List.singleton_append]
  | case2 i front h =>
    have hi : bytes.data.toList.length ≤ i := Nat.le_of_not_lt h
    rw [List.drop_eq_nil_of_le hi, List.append_nil]

/-- The bytes of a text are those of its characters, one after the other. -/
theorem toList_toUTF8 (s : String) : s.toUTF8.toList = utf8 s.toList := by
  have hbytes : s.toUTF8 = s.toList.utf8Encode := by
    rw [String.toUTF8_eq_toByteArray, ← String.toByteArray_ofList, String.ofList_toList]
  rw [hbytes, ByteArray.toList, toList_loop, List.utf8Encode, List.toList_data_toByteArray,
    List.reverse_nil, List.nil_append, List.drop_zero]
  rfl

/-! ## One character -/

theorem readFollowing_zero (low high bits : Nat) (rest : List UInt8) :
    readFollowing 0 low high bits rest = (some bits, rest) := by
  cases rest <;> simp [readFollowing]

/-- Reads a byte that lies between the bounds. -/
theorem readFollowing_succ {n low high bits code : Nat} (hlow : low ≤ code) (hhigh : code ≤ high)
    (hbyte : code < 256) :
    readFollowing (n + 1) low high bits (UInt8.ofNat code :: rest) =
      readFollowing n 0x80 0xBF (64 * bits + (code - 0x80)) rest := by
  have hcode : (UInt8.ofNat code).toNat = code := by
    rw [UInt8.toNat_ofNat', Nat.mod_eq_of_lt hbyte]
  rw [readFollowing, hcode, if_neg n.succ_ne_zero, if_pos (by simp [hlow, hhigh]),
    Nat.add_sub_cancel]

theorem lead?_two {k : Nat} (h : 2 ≤ k) (hk : k < 32) :
    lead? (k + 0xC0) = some ⟨1, 0x80, 0xBF, k⟩ := by
  rw [lead?, if_pos (by simp; omega), Nat.add_sub_cancel]

theorem lead?_three : ∀ k < 16, lead? (k + 0xE0) =
    some ⟨2, if k = 0 then 0xA0 else 0x80, if k = 0xD then 0x9F else 0xBF, k⟩ := by
  intro k hk
  interval_cases k <;> rfl

theorem lead?_four : ∀ k < 5, lead? (k + 0xF0) =
    some ⟨3, if k = 0 then 0x90 else 0x80, if k = 4 then 0x8F else 0xBF, k⟩ := by
  intro k hk
  interval_cases k <;> rfl

/-- Behind a lead, what follows decides. -/
theorem readChar_lead {code n low high bits : Nat} (h : 0x80 ≤ code) (hbyte : code < 256)
    (hlead : lead? code = some ⟨n, low, high, bits⟩) :
    readChar (UInt8.ofNat code) rest =
      ((readFollowing n low high bits rest).1.map Char.ofNat,
        (readFollowing n low high bits rest).2) := by
  have hcode : (UInt8.ofNat code).toNat = code := by
    rw [UInt8.toNat_ofNat', Nat.mod_eq_of_lt hbyte]
  rw [readChar, hcode, if_neg (by omega), hlead]

/-- The bytes of a character are read as that character, whatever stands behind them. -/
theorem readChar_encoded (h : String.utf8EncodeChar c = b :: bytes) :
    readChar b (bytes ++ rest) = (some c, rest) := by
  have hvalid : c.val.toNat < 0xD800 ∨ 0xDFFF < c.val.toNat ∧ c.val.toNat < 0x110000 := c.valid
  have hback : Char.ofNat c.val.toNat = c := c.ofNat_toNat
  rw [String.utf8EncodeChar] at h
  -- one case a number of bytes, so that the bounds of each lead are at hand
  split at h
  · obtain ⟨rfl, rfl⟩ := List.cons.inj h
    have hcode : (UInt8.ofNat c.val.toNat).toNat = c.val.toNat := by
      rw [UInt8.toNat_ofNat']
      omega
    rw [readChar, hcode, if_pos (by omega), hback, List.nil_append]
  · split at h
    · obtain ⟨rfl, rfl⟩ := List.cons.inj h
      rw [readChar_lead (by omega) (by omega) (lead?_two (by omega) (by omega)), List.cons_append,
        readFollowing_succ (by omega) (by omega) (by omega), readFollowing_zero]
      have hcode : 64 * (c.val.toNat / 64 % 0x20) + (c.val.toNat % 0x40 + 0x80 - 0x80) =
          c.val.toNat := by omega
      rw [hcode, Option.map_some, hback, List.nil_append]
    · split at h
      · obtain ⟨rfl, rfl⟩ := List.cons.inj h
        rw [readChar_lead (by omega) (by omega) (lead?_three _ (by omega)), List.cons_append,
          List.cons_append, readFollowing_succ (by split <;> omega) (by split <;> omega) (by omega),
          readFollowing_succ (by omega) (by omega) (by omega), readFollowing_zero]
        have hcode : 64 * (64 * (c.val.toNat / 4096 % 0x10) +
            (c.val.toNat / 64 % 0x40 + 0x80 - 0x80)) + (c.val.toNat % 0x40 + 0x80 - 0x80) =
              c.val.toNat := by omega
        rw [hcode, Option.map_some, hback, List.nil_append]
      · obtain ⟨rfl, rfl⟩ := List.cons.inj h
        rw [readChar_lead (by omega) (by omega) (lead?_four _ (by omega)), List.cons_append,
          List.cons_append, List.cons_append,
          readFollowing_succ (by split <;> omega) (by split <;> omega) (by omega),
          readFollowing_succ (by omega) (by omega) (by omega),
          readFollowing_succ (by omega) (by omega) (by omega), readFollowing_zero]
        have hcode : 64 * (64 * (64 * (c.val.toNat / 262144 % 0x08) +
            (c.val.toNat / 4096 % 0x40 + 0x80 - 0x80)) +
              (c.val.toNat / 64 % 0x40 + 0x80 - 0x80)) + (c.val.toNat % 0x40 + 0x80 - 0x80) =
                c.val.toNat := by omega
        rw [hcode, Option.map_some, hback, List.nil_append]

/-- A byte below 0x80 is a character of its own. -/
theorem eq_of_mem_encoded (h : b ∈ String.utf8EncodeChar c) (hb : b.toNat < 0x80) :
    String.utf8EncodeChar c = [b] ∧ c.toNat = b.toNat := by
  rw [String.utf8EncodeChar] at h ⊢
  have hbyte : ∀ n : Nat, 0x80 ≤ n → n < 256 → b ≠ UInt8.ofNat n := by
    rintro n hn hlt rfl
    rw [UInt8.toNat_ofNat', Nat.mod_eq_of_lt hlt] at hb
    omega
  split at h
  · rename_i hcode
    obtain rfl := List.mem_singleton.mp h
    rw [if_pos hcode, UInt8.toNat_ofNat', Nat.mod_eq_of_lt (by omega)]
    exact ⟨rfl, rfl⟩
  · exfalso
    split at h
    · simp only [List.mem_cons, List.not_mem_nil, or_false] at h
      rcases h with h | h <;> exact hbyte _ (by omega) (by omega) h
    · split at h
      · simp only [List.mem_cons, List.not_mem_nil, or_false] at h
        rcases h with h | h | h <;> exact hbyte _ (by omega) (by omega) h
      · simp only [List.mem_cons, List.not_mem_nil, or_false] at h
        rcases h with h | h | h | h <;> exact hbyte _ (by omega) (by omega) h

/-! ## Texts -/

theorem decoded_encoded_append (c : Char) (rest : List UInt8) :
    decoded (String.utf8EncodeChar c ++ rest) = some c :: decoded rest := by
  obtain ⟨b, bytes, h⟩ := List.exists_cons_of_ne_nil (String.utf8EncodeChar_ne_nil (c := c))
  rw [h, List.cons_append, decoded, readChar_encoded h]

theorem decoded_utf8 (cs : List Char) : decoded (utf8 cs) = cs.map some := by
  induction cs with
  | nil => rw [utf8_nil, decoded, List.map_nil]
  | cons c cs ih => rw [utf8_cons, decoded_encoded_append, ih, List.map_cons]

/-- The bytes of a text are read as that text. -/
theorem ofUtf8?_utf8 (s : String) : ofUtf8? (utf8 s.toList) = some s := by
  have hsome : ∀ cs : List Char, (cs.map some).mapM id = some cs := by
    intro cs
    induction cs with
    | nil => rfl
    | cons c cs ih => simp [List.mapM_cons, ih]
  rw [ofUtf8?, decoded_utf8, hsome, Option.map_some, String.ofList_toList]

end PipeSql.Text
