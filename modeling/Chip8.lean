import Chip8.Keypad.Keyboard
import Chip8.Machine.Advance
import Chip8.Main
import Chip8.Proofs.Bare.Safety
import Chip8.Proofs.CallStack.Listing
import Chip8.Proofs.CommandLine.Ordering
import Chip8.Proofs.Launch.Starting
import Chip8.Proofs.Machine.Accounting
import Chip8.Proofs.Machine.Batching
import Chip8.Proofs.Machine.Chance
import Chip8.Proofs.Machine.Delivery
import Chip8.Proofs.Machine.Diagnosis
import Chip8.Proofs.Machine.Holding
import Chip8.Proofs.Machine.Latching
import Chip8.Proofs.Machine.Metering
import Chip8.Proofs.Machine.Nesting
import Chip8.Proofs.Machine.Pacing
import Chip8.Proofs.Machine.Pressing
import Chip8.Proofs.Machine.Restart
import Chip8.Proofs.Machine.Timekeeping
import Chip8.Proofs.Machine.Viewing
import Chip8.Proofs.Machine.Waiting
import Chip8.Proofs.Memory.History
import Chip8.Proofs.Processor.Halting
import Chip8.Proofs.Processor.Independence
import Chip8.Proofs.Processor.Saving
import Chip8.Proofs.Screen.Encoding
import Chip8.Proofs.Screen.Stamping
import Chip8.Proofs.Time.Countdown
import Chip8.Screen.Texture
