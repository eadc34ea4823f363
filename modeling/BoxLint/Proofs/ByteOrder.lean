import Mathlib.Data.String.Basic

/-!
# The order of bytes

Texts are ordered by their characters. That is the order of their UTF-8 bytes as well
(`Text.bytes_le_of_le`): a character is written as a head byte, which shows how many bytes there
are, and digits to base 64, so that a lower character comes first whatever follows it
(`Text.utf8EncodeChar_append_lt`).
-/

namespace BoxLint.Text

/-- The UTF-8 bytes of a text. -/
def bytes (s : String) : List UInt8 := s.toUTF8.data.toList

theorem bytes_eq_flatMap (s : String) : bytes s = s.toList.flatMap String.utf8EncodeChar := by
  rw [bytes, String.toUTF8_eq_toByteArray, ← String.utf8Encode_toList, List.utf8Encode]
  simp

theorem ofNat_cons_lt {a b : Nat} (hab : a < b) (hb : b < 256) (xs ys : List UInt8) :
    UInt8.ofNat a :: xs < UInt8.ofNat b :: ys := by
  refine List.cons_lt_cons_iff.2 (Or.inl ?_)
  rw [UInt8.lt_iff_toNat_lt, UInt8.toNat_ofNat', UInt8.toNat_ofNat']
  omega

/-- The numbers below a bound are written so that a lower one comes first, whatever follows. -/
def Ascending (write : Nat → List UInt8) (bound : Nat) : Prop :=
  ∀ m n, m < n → n < bound → ∀ xs ys, write m ++ xs < write n ++ ys

theorem ascending_head {base bound : Nat} (h : base + bound ≤ 256) :
    Ascending (fun n => [UInt8.ofNat (n % bound + base)]) bound := by
  intro m n hmn hn xs ys
  simp only [Nat.mod_eq_of_lt hn, Nat.mod_eq_of_lt (hmn.trans hn)]
  exact ofNat_cons_lt (by omega) (by omega) xs ys

theorem Ascending.digit {write : Nat → List UInt8} {bound : Nat} (h : Ascending write bound) :
    Ascending (fun n => write (n / 64) ++ [UInt8.ofNat (n % 64 + 128)]) (bound * 64) := by
  intro m n hmn hn xs ys
  rw [List.append_assoc, List.append_assoc]
  rcases Nat.lt_or_ge (m / 64) (n / 64) with hdiv | hdiv
  · exact h _ _ hdiv (Nat.div_lt_of_lt_mul (Nat.mul_comm bound 64 ▸ hn)) _ _
  · have heq : m / 64 = n / 64 := by omega
    have hmod : m % 64 < n % 64 := by omega
    rw [heq]
    exact List.append_left_lt (ofNat_cons_lt (by omega) (by omega) xs ys)

/-- A lower character comes first. -/
theorem utf8EncodeChar_append_lt {c d : Char} (h : c < d) (xs ys : List UInt8) :
    String.utf8EncodeChar c ++ xs < String.utf8EncodeChar d ++ ys := by
  have hcd : c.val.toNat < d.val.toNat := h
  have hd : d.val.toNat < 0x110000 := by
    rcases d.valid with h | h <;> omega
  have htwo : Ascending _ (32 * 64) := (@ascending_head 192 32 (by decide)).digit
  have hthree : Ascending _ (16 * 64 * 64) := (@ascending_head 224 16 (by decide)).digit.digit
  have hfour : Ascending _ (8 * 64 * 64 * 64) :=
    (@ascending_head 240 8 (by decide)).digit.digit.digit
  simp only [Ascending, Nat.div_div_eq_div_mul, List.cons_append, List.nil_append]
    at htwo hthree hfour
  simp only [String.utf8EncodeChar]
  generalize c.val.toNat = m at *
  generalize d.val.toNat = n at *
  -- characters of as many bytes by their digits, all others by their heads
  split_ifs
  any_goals omega
  · exact ofNat_cons_lt hcd (by omega) _ _
  · exact ofNat_cons_lt (by omega) (by omega) _ _
  · exact ofNat_cons_lt (by omega) (by omega) _ _
  · exact ofNat_cons_lt (by omega) (by omega) _ _
  · exact htwo m n hcd (by omega) xs ys
  · exact ofNat_cons_lt (by omega) (by omega) _ _
  · exact ofNat_cons_lt (by omega) (by omega) _ _
  · exact hthree m n hcd (by omega) xs ys
  · exact ofNat_cons_lt (by omega) (by omega) _ _
  · exact hfour m n hcd (by omega) xs ys

theorem flatMap_utf8EncodeChar_lt {cs ds : List Char} (h : cs < ds) :
    cs.flatMap String.utf8EncodeChar < ds.flatMap String.utf8EncodeChar := by
  induction h with
  | @nil d ds =>
    obtain ⟨b, bs, hb⟩ := List.exists_cons_of_ne_nil (String.utf8EncodeChar_ne_nil (c := d))
    rw [List.flatMap_nil, List.flatMap_cons, hb]
    exact List.nil_lt_cons b _
  | @rel c cs d ds hcd =>
    rw [List.flatMap_cons, List.flatMap_cons]
    exact utf8EncodeChar_append_lt hcd _ _
  | @cons c cs ds _ ih =>
    rw [List.flatMap_cons, List.flatMap_cons]
    exact List.append_left_lt ih

/-- A text that is not greater has bytes that are not greater. -/
theorem bytes_le_of_le {s t : String} (h : s ≤ t) : bytes s ≤ bytes t := by
  rcases h.eq_or_lt with rfl | hlt
  · exact List.le_refl _
  · rw [bytes_eq_flatMap, bytes_eq_flatMap]
    exact List.le_of_lt (flatMap_utf8EncodeChar_lt (String.lt_iff_toList_lt.1 hlt))

end BoxLint.Text
