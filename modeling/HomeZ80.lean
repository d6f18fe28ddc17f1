import HomeZ80.Word
import HomeZ80.Text.Hex
import HomeZ80.Text.Blank
import HomeZ80.Number.Rounding
import HomeZ80.Number.Numeral
import HomeZ80.Time.Clock
import HomeZ80.Time.Duration
import HomeZ80.Time.RunTime
import HomeZ80.Flags
import HomeZ80.Registers
import HomeZ80.Alu.Arithmetic
import HomeZ80.Alu.Logic
import HomeZ80.Alu.Shift
import HomeZ80.Alu.Decimal
import HomeZ80.Memory.Fault
import HomeZ80.Memory.Bank
import HomeZ80.Memory.Arena
import HomeZ80.Log
import HomeZ80.Interrupt.Lines
import HomeZ80.Interrupt.Controller
import HomeZ80.Interrupt.Timer
import HomeZ80.Device.Key
import HomeZ80.Device.Bench
import HomeZ80.Board.Basic
import HomeZ80.Board.Flat
import HomeZ80.Board.Windowed
import HomeZ80.Board.Banked
import HomeZ80.Cpu.Instruction
import HomeZ80.Cpu.Decode
import HomeZ80.Cpu.State
import HomeZ80.Cpu.Execute
import HomeZ80.Cpu.Step
import HomeZ80.Cpu.Run
import HomeZ80.Cpu.Recurrence
import HomeZ80.Cpu.Session
import HomeZ80.Machine.Basic
import HomeZ80.Machine.Headless
import HomeZ80.CommandLine
import HomeZ80.Main
import HomeZ80.Proofs.Memory.Layout
import HomeZ80.Proofs.Sometime
import HomeZ80.Proofs.Board.Touch
import HomeZ80.Proofs.Board.Memory
import HomeZ80.Proofs.Cpu.Footprint
import HomeZ80.Proofs.Cpu.Apart
import HomeZ80.Proofs.Cpu.Entry
import HomeZ80.Proofs.Cpu.Rewire
import HomeZ80.Proofs.Cpu.Exchange
import HomeZ80.Proofs.Cpu.Displaced
import HomeZ80.Proofs.Cpu.DisplacedBits
import HomeZ80.Proofs.Interrupt.Pending
import HomeZ80.Proofs.Interrupt.Coherence
import HomeZ80.Proofs.Machine.History
import HomeZ80.Proofs.Machine.Reached
import HomeZ80.Proofs.Machine.Ledger
import HomeZ80.Proofs.Board.Stores
import HomeZ80.Proofs.Board.BusCycle
import HomeZ80.Proofs.Board.MemoryMap
import HomeZ80.Proofs.Board.Faithful
import HomeZ80.Proofs.Board.Picture
import HomeZ80.Proofs.Machine.Memory
import HomeZ80.Proofs.Machine.Picture
import HomeZ80.Proofs.Board.Plain
import HomeZ80.Proofs.Cpu.Steps
import HomeZ80.Proofs.Cpu.Mirror
import HomeZ80.Proofs.Cpu.Lockstep
import HomeZ80.Proofs.Cpu.Quiet
import HomeZ80.Proofs.Machine.AllRam
import HomeZ80.Proofs.Cpu.BlockCopy
import HomeZ80.Proofs.Cpu.BusCycles
import HomeZ80.Proofs.Cpu.Latch
import HomeZ80.Proofs.Cpu.FirstFault
import HomeZ80.Proofs.Cpu.Guarded
import HomeZ80.Proofs.Cpu.Writers
import HomeZ80.Proofs.Interrupt.NonMaskable
import HomeZ80.Proofs.Interrupt.Sweep
import HomeZ80.Proofs.Interrupt.Transparency
import HomeZ80.Proofs.Interrupt.FlipFlops
import HomeZ80.Proofs.Interrupt.Delay
import HomeZ80.Proofs.Interrupt.Activation
import HomeZ80.Proofs.Interrupt.Interleaving
import HomeZ80.Proofs.Interrupt.Overlap
import HomeZ80.Proofs.Machine.Race
import HomeZ80.Proofs.Board.Alike
import HomeZ80.Proofs.Machine.Driven
import HomeZ80.Proofs.Machine.Renewal
import HomeZ80.Proofs.Cpu.Lasting
import HomeZ80.Proofs.Interrupt.Ranking
import HomeZ80.Proofs.Machine.Ranking
import HomeZ80.Proofs.Cpu.BlockSearch
import HomeZ80.Proofs.Cpu.BlockTransfer
import HomeZ80.Proofs.Cpu.Refresh
import HomeZ80.Proofs.Cpu.IndexChain
import HomeZ80.Proofs.Cpu.RefreshCount
import HomeZ80.Proofs.Interrupt.Halt
import HomeZ80.Proofs.Board.Words
import HomeZ80.Proofs.Machine.Words
import HomeZ80.Proofs.Board.LastWrites
import HomeZ80.Proofs.Machine.LastWrites
import HomeZ80.Proofs.Cpu.Undefined
import HomeZ80.Proofs.Board.Blocks
import HomeZ80.Proofs.Machine.Loading
import HomeZ80.Proofs.Interrupt.Draining
import HomeZ80.Proofs.Alu.Reading
import HomeZ80.Proofs.Alu.Ripple
import HomeZ80.Proofs.Alu.Carry
import HomeZ80.Proofs.Alu.Decimal
import HomeZ80.Proofs.Alu.Words
import HomeZ80.Proofs.Alu.Shift
import HomeZ80.Proofs.Alu.Digits
import HomeZ80.Proofs.Cpu.Cost
import HomeZ80.Proofs.Device.Wiring
import HomeZ80.Proofs.Memory.Uses
import HomeZ80.Proofs.Cpu.ReadOnly
import HomeZ80.Proofs.Cpu.Stack
import HomeZ80.Proofs.Cpu.Digits
import HomeZ80.Proofs.Registers
import HomeZ80.Proofs.Machine.Raced
import HomeZ80.Proofs.Cpu.Lifting
import HomeZ80.Proofs.Cpu.Aside
