import DocAudit.Proofs.Text.Cuts
import Mathlib.Algebra.Group.Nat.Defs
import Mathlib.Tactic.SplitIfs

/-!
# The order of texts by their bytes

Texts can be compared by their characters or by the bytes that encode them. An encoding is a first
byte, which tells how many bytes follow, and bytes of six bits each, the highest bits in front. Both
orders therefore agree.

* `trailing`: the bytes behind the first one;
* `utf8EncodeChar_cases`: the four forms of an encoding;
* `bytes_lt_bytes`: from the order of characters to the order of bytes.
-/

namespace DocAudit.Text

/-! ## The bytes of one character -/

/-- The last bytes of the encoding of a number: six bits in each. -/
def trailing (number : Nat) : (count : Nat) → List UInt8
  | 0 => []
  | count + 1 => UInt8.ofNat (number / 64 ^ count % 64 + 128) :: trailing number count

/-- As numbers and as bytes, what fits into a byte has the same order. -/
theorem ofNat_cons_lt {a b : Nat} (h : a < b) (hb : b < 256) (xs ys : List UInt8) :
    UInt8.ofNat a :: xs < UInt8.ofNat b :: ys := by
  apply List.Lex.rel
  exact (UInt8.ofNat_lt_iff_lt (Nat.lt_trans h hb) hb).2 h

/-- The last bytes have the order of the bits they stand for, whatever comes behind them. -/
theorem trailing_append_lt {m n count : Nat} (h : m % 64 ^ count < n % 64 ^ count)
    (xs ys : List UInt8) : trailing m count ++ xs < trailing n count ++ ys := by
  induction count with
  | zero => omega
  | succ count ih =>
    rw [trailing, trailing, List.cons_append, List.cons_append]
    rw [Nat.mod_pow_succ, Nat.mod_pow_succ] at h
    have hm : m % 64 ^ count < 64 ^ count := Nat.mod_lt m (Nat.pow_pos (by decide))
    have hn : n % 64 ^ count < 64 ^ count := Nat.mod_lt n (Nat.pow_pos (by decide))
    have hdigit : n / 64 ^ count % 64 < 64 := Nat.mod_lt _ (by decide)
    rcases Nat.lt_trichotomy (m / 64 ^ count % 64) (n / 64 ^ count % 64) with hlt | heq | hgt
    · exact ofNat_cons_lt (by omega) (by omega) _ _
    · -- The first six bits agree, and the later ones decide.
      rw [heq] at h ⊢
      exact List.Lex.cons (ih (by omega))
    · -- A greater digit in front cannot be made up for by the digits behind it.
      have hle : 64 ^ count * (n / 64 ^ count % 64 + 1) ≤ 64 ^ count * (m / 64 ^ count % 64) :=
        Nat.mul_le_mul_left _ hgt
      rw [Nat.mul_add_one] at hle
      omega

/-- An encoding whose first byte stands for all higher bits has the order of the numbers. -/
theorem lead_append_lt {m n count lead : Nat} (h : m < n) (hlead : lead + n / 64 ^ count < 256)
    (xs ys : List UInt8) :
    UInt8.ofNat (lead + m / 64 ^ count) :: trailing m count ++ xs <
      UInt8.ofNat (lead + n / 64 ^ count) :: trailing n count ++ ys := by
  rw [List.cons_append, List.cons_append]
  have hle : m / 64 ^ count ≤ n / 64 ^ count := Nat.div_le_div_right (Nat.le_of_lt h)
  -- Either the first bytes decide, or they agree and the lower bits do.
  rcases Nat.lt_or_eq_of_le hle with hlt | heq
  · exact ofNat_cons_lt (by omega) hlead _ _
  · rw [heq]
    apply List.Lex.cons
    apply trailing_append_lt
    have hm := Nat.div_add_mod m (64 ^ count)
    have hn := Nat.div_add_mod n (64 ^ count)
    rw [heq] at hm
    omega

/-- A character is encoded in one byte, or in a first byte and one, two or three more. -/
theorem utf8EncodeChar_cases (c : Char) :
    ∃ count lead, String.utf8EncodeChar c =
        UInt8.ofNat (lead + c.toNat / 64 ^ count) :: trailing c.toNat count ∧
      (count = 0 ∧ lead = 0 ∧ c.toNat < 0x80 ∨
        count = 1 ∧ lead = 0xC0 ∧ 0x80 ≤ c.toNat ∧ c.toNat < 0x800 ∨
        count = 2 ∧ lead = 0xE0 ∧ 0x800 ≤ c.toNat ∧ c.toNat < 0x10000 ∨
        count = 3 ∧ lead = 0xF0 ∧ 0x10000 ≤ c.toNat ∧ c.toNat < 0x110000) := by
  have hvalid : c.toNat < 0x110000 := by
    have h := c.valid
    rw [UInt32.isValidChar, Nat.isValidChar] at h
    show c.val.toNat < _
    omega
  unfold String.utf8EncodeChar
  unfold Char.toNat at hvalid ⊢
  generalize c.val.toNat = n at hvalid ⊢
  dsimp only
  split_ifs with h1 h2 h3
  · exact ⟨0, 0, by simp [trailing], by omega⟩
  · have hdigit : n / 64 % 32 = n / 64 := Nat.mod_eq_of_lt (by omega)
    refine ⟨1, 0xC0, ?_, by omega⟩
    simp [trailing, hdigit, Nat.add_comm]
  · have hdigit : n / 4096 % 16 = n / 4096 := Nat.mod_eq_of_lt (by omega)
    refine ⟨2, 0xE0, ?_, by omega⟩
    simp [trailing, hdigit, Nat.add_comm]
  · have hdigit : n / 262144 % 8 = n / 262144 := Nat.mod_eq_of_lt (by omega)
    refine ⟨3, 0xF0, ?_, by omega⟩
    simp [trailing, hdigit, Nat.add_comm]

/-- The encoding of a smaller character is smaller, whatever comes behind it. -/
theorem utf8EncodeChar_append_lt {c d : Char} (h : c < d) (xs ys : List UInt8) :
    String.utf8EncodeChar c ++ xs < String.utf8EncodeChar d ++ ys := by
  have hlt : c.toNat < d.toNat := h
  obtain ⟨count, lead, hc, hform⟩ := utf8EncodeChar_cases c
  obtain ⟨count', lead', hd, hform'⟩ := utf8EncodeChar_cases d
  rw [hc, hd]
  by_cases hcount : count = count'
  · obtain rfl : lead = lead' := by omega
    subst hcount
    apply lead_append_lt hlt
    rcases hform' with ⟨rfl, rfl, _⟩ | ⟨rfl, rfl, _⟩ | ⟨rfl, rfl, _⟩ | ⟨rfl, rfl, _⟩ <;> omega
  · -- The first byte tells how many bytes there are, and more bytes mean a greater character.
    have hfirst : lead + c.toNat / 64 ^ count < lead' + d.toNat / 64 ^ count' ∧
        lead' + d.toNat / 64 ^ count' < 256 := by
      rcases hform with ⟨rfl, rfl, _⟩ | ⟨rfl, rfl, _⟩ | ⟨rfl, rfl, _⟩ | ⟨rfl, rfl, _⟩ <;>
        rcases hform' with ⟨rfl, rfl, _⟩ | ⟨rfl, rfl, _⟩ | ⟨rfl, rfl, _⟩ | ⟨rfl, rfl, _⟩ <;>
          omega
    exact ofNat_cons_lt hfirst.1 hfirst.2 _ _

/-! ## The bytes of a text -/

@[simp]
theorem bytes_cons (c : Char) (cs : List Char) :
    bytes (c :: cs) = String.utf8EncodeChar c ++ bytes cs :=
  List.flatMap_cons

/-- A text that is smaller by its characters is smaller by its bytes. -/
theorem bytes_lt_bytes {xs ys : List Char} (h : xs < ys) : bytes xs < bytes ys := by
  induction h with
  | @nil d ys =>
    -- No encoding is empty, so a longer text has more bytes.
    obtain ⟨count, lead, hd, -⟩ := utf8EncodeChar_cases d
    rw [bytes_cons, hd, List.cons_append]
    exact List.Lex.nil
  | rel hlt =>
    rw [bytes_cons, bytes_cons]
    exact utf8EncodeChar_append_lt hlt _ _
  | cons _ ih =>
    rw [bytes_cons, bytes_cons]
    exact List.append_left_lt ih

end DocAudit.Text
