import Mathlib.Data.List.Basic

/-!
# What a column of Postgres takes

A `TEXT` takes every text without U+0000, an `INT` and a `BIGINT` the numbers of four and of
eight bytes. A statement with another value for such a column is refused as a whole.
-/

namespace Lib.Columns

def fitsText (s : String) : Bool := !s.toList.contains '\x00'

def fitsInt (n : Int) : Bool := -2147483648 ≤ n && n ≤ 2147483647

def fitsBigint (n : Int) : Bool := -9223372036854775808 ≤ n && n ≤ 9223372036854775807

end Lib.Columns
