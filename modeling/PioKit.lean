import PioKit.Main
import PioKit.Proofs.Grammar
import PioKit.Proofs.Decoding
import PioKit.Proofs.Collection
import PioKit.Proofs.LabelHistory
import PioKit.Proofs.FirstFault
import PioKit.Proofs.Declarations
import PioKit.Proofs.Modifiers
import PioKit.Proofs.RoundTrip
import PioKit.Proofs.MemoryImage
import PioKit.Proofs.Rewriting
import PioKit.Proofs.Layout
import PioKit.Proofs.Replacement
import PioKit.Proofs.JumpTarget
import PioKit.Proofs.CommandEffect
import PioKit.Proofs.Packing
import PioKit.Proofs.InstructionTable
import PioKit.Proofs.DefaultOutput
import PioKit.Proofs.RecordImage
import PioKit.Proofs.WrittenRecords
import PioKit.Proofs.Corruption
import PioKit.Proofs.ListingOrder
import PioKit.Proofs.Diagnosis
import PioKit.Proofs.Positional
import PioKit.Proofs.LiteralLayout
import PioKit.Proofs.Spacing
import PioKit.Proofs.OperatorSpelling
import PioKit.Proofs.Account
