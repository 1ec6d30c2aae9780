import Timeshare.Error

/-!
# The disk

A disk holds no blocks until it is formatted; from then on it holds all of them, 64 bytes each,
zero at first. A write replaces a whole block and fills up with zeros.
-/
namespace Timeshare

/-- The number of bytes in a block. -/
def blockSize : Nat := 64

abbrev Block := Vector UInt8 blockSize

namespace Block

/-- The block that holds `bytes` and zeros behind them. -/
def ofBytes (bytes : List UInt8) : Block := Vector.ofFn fun i => bytes.getD i 0

def toBytes (b : Block) : List UInt8 := b.toList

end Block

structure Disk where
  blocks : Option (Vector Block BlockKey.total) := none

namespace Disk

/-- A disk of zero blocks. -/
def format (_ : Disk) : Disk := ⟨some (Vector.replicate _ (Vector.replicate _ 0))⟩

def read (d : Disk) (key : BlockKey) : Except Error Block :=
  match d.blocks, key.number? with
  | some blocks, some n => .ok blocks[n]
  | _, _ => .error (.noSuchBlock key)

/-- Replaces a block. Data that does not fit is refused before the block is looked for. -/
def write (d : Disk) (key : BlockKey) (bytes : List UInt8) : Except Error Disk :=
  if bytes.length > blockSize then .error (.blockTooLarge bytes.length blockSize)
  else match d.blocks, key.number? with
    | some blocks, some n => .ok ⟨some (blocks.set n (Block.ofBytes bytes))⟩
    | _, _ => .error (.noSuchBlock key)

end Disk

end Timeshare
