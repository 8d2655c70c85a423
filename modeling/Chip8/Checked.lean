import Chip8.Fault
import Chip8.Overlay

/-!
# Checked arithmetic and table access

The operations by which the interpreter moves its counters, touches its call
stack and copies runs of bytes. Each one answers with a `Fault.defect` where the result would not
fit, so that a proof that no defect arises is a proof that every counter and
position stays in range. The `_eq_ok` lemmas give the exact result in range.
-/

namespace Chip8.Checked

/-- The sum of two words, if it fits a word. -/
def add (left right : UInt16) : Except Fault UInt16 :=
  if left.toNat + right.toNat < UInt16.size then
    .ok (left + right)
  else
    .error (.defect .overflow)

/-- The product of two words, if it fits a word. -/
def mul (left right : UInt16) : Except Fault UInt16 :=
  if left.toNat * right.toNat < UInt16.size then
    .ok (left * right)
  else
    .error (.defect .overflow)

/-- The byte after this one, if there is one. -/
def next (value : UInt8) : Except Fault UInt8 :=
  if value.toNat + 1 < UInt8.size then
    .ok (value + 1)
  else
    .error (.defect .overflow)

/-- The byte before this one, if there is one. -/
def previous (value : UInt8) : Except Fault UInt8 :=
  if 0 < value.toNat then
    .ok (value - 1)
  else
    .error (.defect .underflow)

/-- The entry of a table at a position. -/
def entry {α : Type} {count : Nat} (table : Vector α count) (position : Nat) : Except Fault α :=
  if inside : position < count then
    .ok table[position]
  else
    .error (.defect .position)

/-- The table with its entry at a position replaced. -/
def replace {α : Type} {count : Nat} (table : Vector α count) (position : Nat) (value : α) :
    Except Fault (Vector α count) :=
  if inside : position < count then
    .ok (table.set position value)
  else
    .error (.defect .position)

/-- The first entries of a table, if it has so many. -/
def leading {α : Type} {count : Nat} (table : Vector α count) (amount : Nat) :
    Except Fault (List α) :=
  if amount ≤ count then
    .ok (table.toList.take amount)
  else
    .error (.defect .position)

/-- The table with values written over its entries from `start` on, if all of these exist. -/
def write {α : Type} {count : Nat} (table : Vector α count) (start : Nat) (values : List α) :
    Except Fault (Vector α count) :=
  if start + values.length ≤ count then
    .ok (overlay table start values)
  else
    .error (.defect .position)

theorem add_eq_ok {left right : UInt16} (fits : left.toNat + right.toNat < UInt16.size) :
    add left right = .ok (left + right) := if_pos fits

theorem mul_eq_ok {left right : UInt16} (fits : left.toNat * right.toNat < UInt16.size) :
    mul left right = .ok (left * right) := if_pos fits

theorem next_eq_ok {value : UInt8} (fits : value.toNat + 1 < UInt8.size) :
    next value = .ok (value + 1) := if_pos fits

theorem previous_eq_ok {value : UInt8} (positive : 0 < value.toNat) :
    previous value = .ok (value - 1) := if_pos positive

theorem toNat_sub_one {value : UInt8} (positive : 0 < value.toNat) :
    (value - 1).toNat = value.toNat - 1 :=
  UInt8.toNat_sub_of_le value 1 (UInt8.le_iff_toNat_le.mpr positive)

theorem entry_eq_ok {α : Type} {count : Nat} {table : Vector α count} {position : Nat}
    (inside : position < count) : entry table position = .ok table[position] := dif_pos inside

theorem replace_eq_ok {α : Type} {count : Nat} {table : Vector α count} {position : Nat}
    {value : α} (inside : position < count) :
    replace table position value = .ok (table.set position value) := dif_pos inside

theorem leading_eq_ok {α : Type} {count : Nat} {table : Vector α count} {amount : Nat}
    (enough : amount ≤ count) : leading table amount = .ok (table.toList.take amount) :=
  if_pos enough

theorem write_eq_ok {α : Type} {count : Nat} {table : Vector α count} {start : Nat}
    {values : List α} (fits : start + values.length ≤ count) :
    write table start values = .ok (overlay table start values) := if_pos fits

end Chip8.Checked
