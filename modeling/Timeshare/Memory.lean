import Timeshare.Error

/-!
# Partitioned memory

Main memory is one row of bytes cut into partitions of equal size. A program owns one partition; a
freed partition keeps its bytes until it is claimed again.
-/
namespace Timeshare

/-- Addresses are 64-bit words, and a memory must be addressable. -/
def addressSpace : Nat := UInt64.size

/-- The partitions tile the cells, and there is at least one partition of at least one byte. -/
structure Memory where
  cells : Array UInt8
  partitionSize : Nat
  inUse : Array Bool
  size_cells : cells.size = partitionSize * inUse.size
  partitionSize_pos : 0 < partitionSize
  inUse_pos : 0 < inUse.size

namespace Memory

/-- An empty memory of `count` free partitions of `size` zero bytes. -/
def ofLayout (size count : Nat) : Except Error Memory :=
  if h : 0 < size ∧ 0 < count ∧ size * count < addressSpace then
    .ok {
      cells := Array.replicate (size * count) 0
      partitionSize := size
      inUse := Array.replicate count false
      size_cells := by simp
      partitionSize_pos := h.1
      inUse_pos := by simpa using h.2.1 }
  else .error .invalidLayout

/-- The number of bytes. -/
def size (m : Memory) : Nat := m.cells.size

def partitionCount (m : Memory) : Nat := m.inUse.size

/-- The address of the first byte of a partition. -/
def base (m : Memory) (partition : Nat) : Nat := partition * m.partitionSize

def freeCount (m : Memory) : Nat := m.inUse.toList.countP (!·)

def read (m : Memory) (address : Nat) : Except Error UInt8 :=
  match m.cells[address]? with
  | some byte => .ok byte
  | none => .error (.outOfBounds address m.size)

def write (m : Memory) (address : Nat) (byte : UInt8) : Except Error Memory :=
  if h : address < m.cells.size then
    .ok { m with cells := m.cells.set address byte, size_cells := by simp [m.size_cells] }
  else .error (.outOfBounds address m.size)

/-- The bytes from address `start` up to, but not with, `stop`. -/
def readBlock (m : Memory) (start stop : Nat) : Except Error (List UInt8) :=
  if stop ≤ m.size ∧ start ≤ stop then .ok (m.cells.extract start stop).toList
  else .error (.outOfBounds stop m.size)

/-- Puts `bytes` in the place of the cells from `address` on, which must all exist. -/
def overwrite (m : Memory) (address : Nat) (bytes : Array UInt8)
    (h : address + bytes.size ≤ m.cells.size) : Memory :=
  { m with
    cells := m.cells.extract 0 address ++ bytes ++ m.cells.extract (address + bytes.size)
    size_cells := by
      simp only [Array.size_append, Array.size_extract, ← m.size_cells]
      omega }

/-- Writes all of `bytes` from `address` on, or nothing where one does not fit. -/
def writeBlock (m : Memory) (address : Nat) (bytes : List UInt8) : Except Error Memory :=
  if h : address + bytes.toArray.size ≤ m.cells.size then .ok (m.overwrite address bytes.toArray h)
  else .error (.outOfBounds address m.size)

/-- The address of a partition's byte. An offset past the partition's end is no byte of it. -/
def translate (m : Memory) (partition offset : Nat) : Except Error Nat :=
  if offset < m.partitionSize ∧ partition < m.partitionCount then .ok (m.base partition + offset)
  else .error (.outOfBounds offset m.partitionSize)

/-- The byte of a partition at `offset`, if it has one. -/
def load? (m : Memory) (partition offset : Nat) : Option UInt8 :=
  match m.translate partition offset with
  | .ok address => m.cells[address]?
  | .error _ => none

/-- Writes the byte of a partition at `offset`, if it has one. -/
def store? (m : Memory) (partition offset : Nat) (byte : UInt8) : Option Memory :=
  match m.translate partition offset with
  | .ok address => (m.write address byte).toOption
  | .error _ => none

/-- The bytes of a partition. -/
def contents (m : Memory) (partition : Nat) : List UInt8 :=
  (m.cells.extract (m.base partition) (m.base partition + m.partitionSize)).toList

/-- The text that starts at `offset` of a partition and ends before the first zero byte or at the
partition's end, one character for each byte. -/
def textAt (m : Memory) (partition offset : Nat) : String :=
  String.ofList ((((m.contents partition).drop offset).takeWhile (· ≠ 0)).map fun b =>
    Char.ofNat b.toNat)

theorem base_add_size_le (m : Memory) {partition : Nat} (h : partition < m.inUse.size) :
    m.base partition + m.partitionSize ≤ m.cells.size := by
  have := Nat.mul_le_mul_left m.partitionSize (Nat.succ_le_of_lt h)
  rw [Nat.mul_succ, Nat.mul_comm] at this
  simpa [base, m.size_cells] using this

/-- Marks a partition as used and fills it with zeros. -/
def claim (m : Memory) (partition : Nat) (h : partition < m.inUse.size) : Memory :=
  let cleared := m.overwrite (m.base partition) (Array.replicate m.partitionSize 0)
    (by simpa using m.base_add_size_le h)
  { cleared with
    inUse := m.inUse.set partition true
    size_cells := by rw [Array.size_set]; exact cleared.size_cells
    inUse_pos := by simpa using m.inUse_pos }

/-- Claims the lowest free partition. -/
def allocate (m : Memory) : Except Error (Nat × Memory) :=
  match m.inUse.findFinIdx? (!·) with
  | some partition => .ok (partition, m.claim partition partition.isLt)
  | none => .error .capacityExceeded

/-- Marks a partition as free; a number that no partition has is ignored. -/
def free (m : Memory) (partition : Nat) : Memory :=
  { m with
    inUse := m.inUse.setIfInBounds partition false
    size_cells := by simp [m.size_cells]
    inUse_pos := by simpa using m.inUse_pos }

end Memory

end Timeshare
