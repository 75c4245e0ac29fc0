/-! # Doubles as data: sign, whole mantissa and power of two. -/

namespace SiteServer

/-- A double, given by its sixty-four bits, so that equal means the same bits. -/
structure Binary64 where
  bits : UInt64
  deriving DecidableEq, Repr

namespace Binary64

/-- Zero without a sign. -/
def zero : Binary64 := ⟨0⟩

/-- The double that the machine computed. -/
def ofFloat (x : Float) : Binary64 :=
  ⟨x.toBits⟩

/-- The double that the machine computes with. -/
def toFloat (x : Binary64) : Float :=
  Float.ofBits x.bits

def isNegative (x : Binary64) : Bool :=
  x.bits >>> 63 = 1

def exponentField (x : Binary64) : Nat :=
  ((x.bits >>> 52) &&& 0x7FF).toNat

def fractionField (x : Binary64) : Nat :=
  (x.bits &&& 0xFFFFFFFFFFFFF).toNat

def isFinite (x : Binary64) : Bool :=
  x.exponentField < 0x7FF

def isZero (x : Binary64) : Bool :=
  x.exponentField = 0 && x.fractionField = 0

/-- The whole mantissa: a finite double is `mantissa * 2 ^ power` up to its sign. -/
def mantissa (x : Binary64) : Nat :=
  if x.exponentField = 0 then x.fractionField else (1 <<< 52) + x.fractionField

/-- The power of two that scales the mantissa. -/
def power (x : Binary64) : Int :=
  if x.exponentField = 0 then -1074 else (x.exponentField : Int) - 1075

/-- The neighbour below is only half as far away as the one above. -/
def isNarrowBelow (x : Binary64) : Bool :=
  x.fractionField = 0 && 1 < x.exponentField

end Binary64

end SiteServer
