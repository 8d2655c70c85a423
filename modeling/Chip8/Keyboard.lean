import Chip8.Nibble

/-!
# The keyboard as a keypad

The left four columns of a keyboard stand in for the hexadecimal keypad.

```text
1 2 3 4      1 2 3 C
Q W E R  ->  4 5 6 D
A S D F  ->  7 8 9 E
Z X C V      A 0 B F
```

A key of the keyboard is known by its code: the code of the lower-case letter or
of the digit on it.
-/

namespace Chip8.Keyboard

/-- The keyboard keys that stand in for a keypad key, row by row. -/
def layout : List (Char × Nibble) :=
  [('1', 0x1), ('2', 0x2), ('3', 0x3), ('4', 0xC),
   ('q', 0x4), ('w', 0x5), ('e', 0x6), ('r', 0xD),
   ('a', 0x7), ('s', 0x8), ('d', 0x9), ('f', 0xE),
   ('z', 0xA), ('x', 0x0), ('c', 0xB), ('v', 0xF)]

/-- The keypad key that a keyboard key stands in for. -/
def key? (code : Int) : Option Nibble :=
  (layout.find? fun entry => (entry.1.toNat : Int) = code).map Prod.snd

end Chip8.Keyboard
