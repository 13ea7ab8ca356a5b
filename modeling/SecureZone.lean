import SecureZone.Driver.Recorder
import SecureZone.Bus.Scripted
import SecureZone.Main
import SecureZone.Scenario.Operation
import SecureZone.Transcript
import SecureZone.Proofs.Run
import SecureZone.Proofs.Lanes
import SecureZone.Proofs.Mask
import SecureZone.Proofs.Memory
import SecureZone.Proofs.Access
import SecureZone.Proofs.EncryptedMemory
import SecureZone.Proofs.Transparency
import SecureZone.Proofs.AtRest
import SecureZone.Proofs.ByteMap
import SecureZone.Proofs.Extent
import SecureZone.Proofs.LaneSplitting
import SecureZone.Proofs.MaskedLanes
import SecureZone.Proofs.Moves
import SecureZone.Proofs.Latch
import SecureZone.Proofs.Parts
import SecureZone.Proofs.Slot
import SecureZone.Proofs.Outcome
import SecureZone.Proofs.Registers
import SecureZone.Proofs.Instructions
import SecureZone.Proofs.Atomicity
import SecureZone.Proofs.Reconfiguration
import SecureZone.Proofs.Scenarios
import SecureZone.Proofs.CommandLines
import SecureZone.Proofs.Verdict
import SecureZone.Proofs.Transfers
import SecureZone.Proofs.Scripts
import SecureZone.Proofs.Programming
import SecureZone.Proofs.Layers
import SecureZone.Proofs.Ledger
import SecureZone.Proofs.Comparison
import SecureZone.Proofs.Twins
import SecureZone.Proofs.Ports
import SecureZone.Proofs.Mirror
import SecureZone.Proofs.KeySecrecy
import SecureZone.Proofs.LogSecrecy
import SecureZone.Proofs.Numerals
import SecureZone.Proofs.PrintedNumbers
import SecureZone.Proofs.SavedRegisters
import SecureZone.Proofs.CheckedAddresses
import SecureZone.Proofs.Lines
import SecureZone.Proofs.ImageReport
import SecureZone.Proofs.Traffic
import SecureZone.Proofs.SharedTexts
