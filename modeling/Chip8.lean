import Chip8.Hex
import Chip8.Nibble
import Chip8.Instr.Basic
import Chip8.Instr.Decode
import Chip8.Instr.Mnemonic
import Chip8.Screen
import Chip8.Memory
import Chip8.Keypad
import Chip8.CallStack
import Chip8.Fault
import Chip8.History
import Chip8.Random.ChaCha
import Chip8.Random.Source
import Chip8.Timing
import Chip8.State.Basic
import Chip8.Flow
import Chip8.Core.Basic
import Chip8.Core.Arithmetic
import Chip8.Core.Execute
import Chip8.Recording
import Chip8.Machine.Basic
import Chip8.Machine.Run
import Chip8.Stepper
import Chip8.Listing
import Chip8.Numeral
import Chip8.Document.Basic
import Chip8.Document.Layout
import Chip8.Document.Folding
import Chip8.Document.Tag
import Chip8.Document.Directive
import Chip8.Document.Scalar.Basic
import Chip8.Document.Scalar.Quoted
import Chip8.Document.Scalar.Plain
import Chip8.Document.Scalar.Block
import Chip8.Document.Token
import Chip8.Document.Lexer
import Chip8.Document.Node
import Chip8.Document.Reader
import Chip8.Files
import Chip8.RunPlan.Basic
import Chip8.RunPlan.Reader
import Chip8.Command
import Chip8.Main
import Chip8.Proofs.Instr.Code
import Chip8.Proofs.Machine.Step
import Chip8.Proofs.Machine.Failure
import Chip8.Proofs.Session.Action
import Chip8.Proofs.Session.Operation
import Chip8.Proofs.Session.Output
import Chip8.Proofs.Session.Reachable
import Chip8.Proofs.Session.Simulation
import Chip8.Proofs.AddressWidth.Core
import Chip8.Proofs.AddressWidth.Session
import Chip8.Proofs.Subroutine
import Chip8.Proofs.Undo
import Chip8.Proofs.Machine.Halted
import Chip8.Proofs.Pace
import Chip8.Proofs.Stepping
import Chip8.Proofs.Latch
import Chip8.Proofs.Loading
import Chip8.Proofs.Onlookers
import Chip8.Proofs.Machine.KeyWait
import Chip8.Proofs.Suspension
import Chip8.Proofs.KeyPress
import Chip8.Proofs.Bounds.Access
import Chip8.Proofs.Bounds.Drawing
import Chip8.Proofs.Bounds.Core
import Chip8.Proofs.Bounds.Session
import Chip8.Proofs.RandomNumbers
import Chip8.Proofs.Session.Log
import Chip8.Proofs.Machine.Batch
import Chip8.Proofs.Redo
import Chip8.Proofs.FrameSplit
import Chip8.Proofs.Inputs
import Chip8.Proofs.Presentation
import Chip8.Proofs.Observers
import Chip8.Proofs.Playback
import Chip8.Proofs.KeyScript
import Chip8.Proofs.Sprite
import Chip8.Proofs.Machine.Drawing
import Chip8.Proofs.IndexedMemory
import Chip8.Proofs.Hex
import Chip8.Proofs.Json.Basic
import Chip8.Proofs.Json.Quoted
import Chip8.Proofs.Json.Plain
import Chip8.Proofs.Json.Lexing
import Chip8.Proofs.Json.Tokens
import Chip8.Proofs.Json.Nodes
import Chip8.Proofs.PlanText.Reading
import Chip8.Proofs.PlanText.Grammar
import Chip8.Proofs.Arithmetic
import Chip8.Proofs.Flow
import Chip8.Proofs.Frames
import Chip8.Proofs.Composition
import Chip8.Proofs.KeyAnswer
import Chip8.Proofs.Countdown
import Chip8.Proofs.Phase
import Chip8.Proofs.Listing.Cutting
import Chip8.Proofs.Listing.Final
import Chip8.Proofs.Listing.Words
import Chip8.Proofs.Instr.Assembly
import Chip8.Proofs.Listing.Printed
import Chip8.Proofs.KnownState
import Chip8.Proofs.SelfCheck
import Chip8.Proofs.ExitStatus
