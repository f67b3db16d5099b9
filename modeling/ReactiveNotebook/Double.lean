/-!
# Doubles

A double is kept as its 64 bits, so that values that are no number can be told apart by their signs and payloads.
An operation that has a number as its result is that of the hardware. Otherwise its first operand that is no number is
passed on, made quiet, and an operation on numbers alone that is invalid has a value of its own.
-/
namespace ReactiveNotebook

/-- The bits of a binary floating point number: sign, eleven bits of exponent, fifty-two of fraction. -/
@[ext]
structure Double where
  ofBits ::
  toBits : UInt64
  deriving Repr

namespace Double

def toFloat (x : Double) : Float := Float.ofBits x.toBits

def ofFloat (x : Float) : Double := ofBits x.toBits

def ofNat (n : Nat) : Double := ofFloat (Float.ofNat n)

def ofInt64 (n : Int64) : Double := ofFloat n.toFloat

instance : OfScientific Double :=
  ⟨fun mantissa down exponent => ofFloat (OfScientific.ofScientific mantissa down exponent)⟩

instance {n : Nat} : OfNat Double n := ⟨ofNat n⟩

def magnitudeBits (x : Double) : UInt64 := x.toBits &&& 0x7fffffffffffffff

def infinity : Double := ofBits 0x7ff0000000000000

def isInf (x : Double) : Bool := x.magnitudeBits == infinity.toBits

def isNaN (x : Double) : Bool := infinity.toBits < x.magnitudeBits

/-- The value of the word that stands for no number. -/
def notANumber : Double := ofBits 0x7ff8000000000000

/-- The result of an invalid operation on numbers. -/
def invalid : Double := ofBits 0xfff8000000000000

def quiet (x : Double) : Double := ofBits (x.toBits ||| 0x0008000000000000)

/-- The result of an operation on some operands, from what the hardware computes. -/
def result (operands : List Double) (computed : Float) : Double :=
  if computed.isNaN then ((operands.find? isNaN).map quiet).getD invalid else ofFloat computed

instance : Add Double := ⟨fun x y => result [x, y] (x.toFloat + y.toFloat)⟩

instance : Sub Double := ⟨fun x y => result [x, y] (x.toFloat - y.toFloat)⟩

instance : Mul Double := ⟨fun x y => result [x, y] (x.toFloat * y.toFloat)⟩

instance : Div Double := ⟨fun x y => result [x, y] (x.toFloat / y.toFloat)⟩

instance : HPow Double Double Double := ⟨fun x y => result [x, y] (x.toFloat ^ y.toFloat)⟩

/-- The other sign, also of what is no number. -/
instance : Neg Double := ⟨fun x => ofBits (x.toBits ^^^ 0x8000000000000000)⟩

/-- Equality of numbers. The two zeros are equal, and what is no number differs even from itself. -/
instance : BEq Double := ⟨fun x y => x.toFloat == y.toFloat⟩

instance : LT Double := ⟨fun x y => x.toFloat < y.toFloat⟩

instance : LE Double := ⟨fun x y => x.toFloat ≤ y.toFloat⟩

instance (x y : Double) : Decidable (x < y) := inferInstanceAs (Decidable (x.toFloat < y.toFloat))

instance (x y : Double) : Decidable (x ≤ y) := inferInstanceAs (Decidable (x.toFloat ≤ y.toFloat))

def abs (x : Double) : Double := ofBits x.magnitudeBits

def floor (x : Double) : Double := result [x] x.toFloat.floor

def ceil (x : Double) : Double := result [x] x.toFloat.ceil

/-- The nearest integer, a half going away from zero. -/
def round (x : Double) : Double := result [x] x.toFloat.round

def sqrt (x : Double) : Double := result [x] x.toFloat.sqrt

end Double

end ReactiveNotebook
