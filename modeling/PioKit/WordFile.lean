import PioKit.WordFile.IntelHex
import PioKit.WordFile.Plain

/-!
# Word files

Writing and reading a list of words in a chosen format.
-/

namespace PioKit.WordFile

/-- The bytes of a list of words. -/
def write (format : Format) (words : List Word) : List UInt8 :=
  match format with
  | .binary => Binary.write words
  | .hex => Text.Utf8.encode (IntelHex.write words)
  | .text => Text.Utf8.encode (Listing.write words)
  | .array => Text.Utf8.encode (Literals.write words)

/-- The words that bytes spell. -/
def read (format : Format) (bytes : List UInt8) : Except Fault (List Word) :=
  match format with
  | .binary => Binary.read bytes
  | .hex => IntelHex.read bytes
  | .text => Listing.read bytes
  | .array => Literals.read bytes

/-- Writes into a space of `capacity` bytes: the bytes that were written, and the fault if there
were more. -/
def writeWithin (capacity : Nat) (format : Format) (words : List Word) :
    List UInt8 × Option WriteFault :=
  let bytes := write format words
  (bytes.take capacity, if bytes.length ≤ capacity then none else some .bufferFull)

end PioKit.WordFile
