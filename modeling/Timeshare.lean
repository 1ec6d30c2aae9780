import Timeshare.Batch
import Timeshare.BlockKey
import Timeshare.Command
import Timeshare.Console
import Timeshare.Device
import Timeshare.Disk
import Timeshare.Display
import Timeshare.Error
import Timeshare.Interrupt
import Timeshare.Invocation
import Timeshare.Kernel
import Timeshare.Machine
import Timeshare.Main
import Timeshare.Memory
import Timeshare.Notice
import Timeshare.Opcode
import Timeshare.Policy
import Timeshare.Process
import Timeshare.Processor
import Timeshare.ProgramText
import Timeshare.ReadyQueue
import Timeshare.Run
import Timeshare.Scheduler
import Timeshare.Session
import Timeshare.Settings
import Timeshare.SettingsText
import Timeshare.Shell
import Timeshare.Text.Blank
import Timeshare.Text.CaseTable
import Timeshare.Text.LowerCase
import Timeshare.Text.Numeral
import Timeshare.Toml.Document
import Timeshare.Toml.Quoted
import Timeshare.Toml.Scalar
import Timeshare.Toml.Value
import Timeshare.Traced
import Timeshare.Proofs.Partition
import Timeshare.Proofs.Solo
import Timeshare.Proofs.Moves
import Timeshare.Proofs.Residents
import Timeshare.Proofs.Runs
import Timeshare.Proofs.Completion
import Timeshare.Proofs.Multiplexing
import Timeshare.Proofs.Steady
import Timeshare.Proofs.Ticks
import Timeshare.Proofs.Endings
import Timeshare.Proofs.Observation
import Timeshare.Proofs.Output
import Timeshare.Proofs.Isolation
import Timeshare.Proofs.Raises
import Timeshare.Proofs.Guise
import Timeshare.Proofs.FirstCome
import Timeshare.Proofs.Stepping
import Timeshare.Proofs.Beats
import Timeshare.Proofs.Coherence
import Timeshare.Proofs.Waiting
import Timeshare.Proofs.Arrival
import Timeshare.Proofs.Timers
import Timeshare.Proofs.Handover
import Timeshare.Proofs.Refusals
import Timeshare.Proofs.Kills
import Timeshare.Proofs.Displays
import Timeshare.Proofs.Cuts
import Timeshare.Proofs.Devices
import Timeshare.Proofs.Keystrokes
import Timeshare.Proofs.Spelling
import Timeshare.Proofs.Idle
import Timeshare.Proofs.Batches
import Timeshare.Proofs.OpcodeTable
import Timeshare.Proofs.Rotation
import Timeshare.Proofs.Tiling
import Timeshare.Proofs.Hexadecimal
import Timeshare.Proofs.DiskHistory
import Timeshare.Proofs.Guards
import Timeshare.Proofs.Mishaps
import Timeshare.Proofs.CommandLines
import Timeshare.Proofs.ProgramWords
import Timeshare.Proofs.Identities
import Timeshare.Proofs.InPlace
import Timeshare.Proofs.Following
