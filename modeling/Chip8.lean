import Chip8.Keyboard
import Chip8.Main
import Chip8.Proofs.Dump.Reading
import Chip8.Proofs.Machine.Counter
import Chip8.Proofs.Session.Backtrace
import Chip8.Proofs.Session.Bounds
import Chip8.Proofs.Session.Footprint
import Chip8.Proofs.Session.Halt
import Chip8.Proofs.Session.Keypad
import Chip8.Proofs.Session.Load
import Chip8.Proofs.Session.Replay
import Chip8.Proofs.Session.Screen
import Chip8.Proofs.Session.Timer
import Chip8.Proofs.Session.Tone
import Chip8.Proofs.Session.Undo
import Chip8.Proofs.Session.View
import Chip8.Proofs.Session.Waiting
import Chip8.Proofs.Machine.Drawing
import Chip8.Proofs.Machine.Superposition
import Chip8.Proofs.Machine.Flag
import Chip8.Proofs.Machine.Transfer
import Chip8.Proofs.Texture
import Chip8.Proofs.Machine.Fetch
import Chip8.Proofs.Colour.Slices
import Chip8.Proofs.Colour.Spelling
