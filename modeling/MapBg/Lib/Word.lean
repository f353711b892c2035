import Mathlib.Algebra.Group.Int.Defs
import Mathlib.Algebra.Group.Nat.Defs
import Mathlib.Data.List.Basic

/-!
# 32-bit words in memory

The object representation of a 32-bit word on a little-endian machine: four bytes, the low one
first. A cast of a struct of words to `char *`, or a `memcpy` of an array of words, is `bytes`;
a `memcpy` the other way is `ofBytes`, which like `resize(size / 4)` drops an incomplete word at
the end. The two facts a program needs are `ofBytes_bytes` and, for a struct used as a key,
`bytes_injective`; `ofInt_injOn` adds that a signed integer is recovered from its word.
-/

set_option autoImplicit false

namespace Word

/-- The four bytes of a word, the least significant first, as the machine stores it. -/
def le (w : UInt32) : List UInt8 :=
  [UInt8.ofNat w.toNat, UInt8.ofNat (w.toNat / 2 ^ 8), UInt8.ofNat (w.toNat / 2 ^ 16),
    UInt8.ofNat (w.toNat / 2 ^ 24)]

/-- The word that is stored in four bytes. -/
def ofLe (b₀ b₁ b₂ b₃ : UInt8) : UInt32 :=
  UInt32.ofNat (b₀.toNat + b₁.toNat * 2 ^ 8 + b₂.toNat * 2 ^ 16 + b₃.toNat * 2 ^ 24)

/-- Words one after the other in memory. -/
def bytes (ws : List UInt32) : List UInt8 := ws.flatMap le

/-- Read back, four bytes at a time. Up to three bytes at the end are not a word and are dropped. -/
def ofBytes : List UInt8 → List UInt32
  | b₀ :: b₁ :: b₂ :: b₃ :: bs => ofLe b₀ b₁ b₂ b₃ :: ofBytes bs
  | _ => []

theorem ofLe_le (w : UInt32) :
    ofLe (UInt8.ofNat w.toNat) (UInt8.ofNat (w.toNat / 2 ^ 8)) (UInt8.ofNat (w.toNat / 2 ^ 16))
      (UInt8.ofNat (w.toNat / 2 ^ 24)) = w := by
  apply UInt32.toNat_inj.mp
  have hlt : w.toNat < 2 ^ 32 := w.toNat_lt
  simp only [ofLe, UInt32.toNat_ofNat', UInt8.toNat_ofNat']
  omega

@[simp] theorem bytes_nil : bytes [] = [] := rfl

@[simp] theorem bytes_cons (w : UInt32) (ws : List UInt32) : bytes (w :: ws) = le w ++ bytes ws :=
  rfl

@[simp] theorem length_bytes (ws : List UInt32) : (bytes ws).length = 4 * ws.length := by
  induction ws with
  | nil => rfl
  | cons w ws ih => rw [bytes_cons, List.length_append, ih, le]; simp only [List.length]; omega

/-- Words that are stored first are read first, whatever comes behind them. -/
theorem ofBytes_bytes_append (ws : List UInt32) (bs : List UInt8) :
    ofBytes (bytes ws ++ bs) = ws ++ ofBytes bs := by
  induction ws with
  | nil => rfl
  | cons w ws ih =>
    rw [bytes_cons, le, List.append_assoc]
    simp only [List.cons_append, List.nil_append, ofBytes]
    rw [ih, ofLe_le]

theorem ofBytes_bytes (ws : List UInt32) : ofBytes (bytes ws) = ws := by
  simpa [ofBytes] using ofBytes_bytes_append ws []

/-- Different words are different bytes; this is what makes an address a key. -/
theorem bytes_injective : Function.Injective bytes :=
  Function.LeftInverse.injective ofBytes_bytes

/-! ## Signed integers -/

/-- The bits of an `int`, which is in two's complement. -/
def ofInt (i : Int) : UInt32 := UInt32.ofNat (i % 2 ^ 32).toNat

/-- The range of a 32-bit `int`. -/
def Fits (i : Int) : Prop := -2 ^ 31 ≤ i ∧ i < 2 ^ 31

instance (i : Int) : Decidable (Fits i) := inferInstanceAs (Decidable (_ ∧ _))

/-- Two numbers that an `int` can hold have the same bits only if they are the same. -/
theorem ofInt_injOn {i j : Int} (hi : Fits i) (hj : Fits j) (h : ofInt i = ofInt j) : i = j := by
  unfold Fits at hi hj
  have hnat := congrArg UInt32.toNat h
  simp only [ofInt, UInt32.toNat_ofNat'] at hnat
  omega

end Word
