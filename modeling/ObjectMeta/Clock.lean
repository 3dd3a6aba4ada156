/-!
# Clock readings

A clock reads milliseconds since 1970 as a signed 64-bit integer.  Setting a clock forward wraps
around; adding a lifetime to a reading stops at the ends of the range instead.
-/

namespace ObjectMeta

/-- The sum of two integers, or the end of the range that it lies beyond. -/
def saturatingAdd (a b : Int64) : Int64 :=
  Int64.ofInt (max Int64.minValue.toInt (min Int64.maxValue.toInt (a.toInt + b.toInt)))

end ObjectMeta
