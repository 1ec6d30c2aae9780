/-!
# Disk addresses

A block is named by its track, its sector and its place in the sector. The disk has four tracks of
eight sectors of eight blocks, numbered through in that order.
-/
namespace Timeshare

structure BlockKey where
  track : UInt8
  sector : UInt8
  block : UInt8
deriving DecidableEq, Repr, Inhabited

namespace BlockKey

def trackCount : Nat := 4
def sectorCount : Nat := 8
def blockCount : Nat := 8

/-- The number of blocks on a disk. -/
def total : Nat := trackCount * sectorCount * blockCount

/-- The keys of all blocks, in the order of their numbers. -/
def all : List BlockKey :=
  (List.range trackCount).flatMap fun t =>
    (List.range sectorCount).flatMap fun s =>
      (List.range blockCount).map fun b => ⟨t.toUInt8, s.toUInt8, b.toUInt8⟩

/-- The number of the block, if the disk has it. -/
def number? (k : BlockKey) : Option (Fin total) :=
  if h : k.track.toNat < 4 ∧ k.sector.toNat < 8 ∧ k.block.toNat < 8 then
    some ⟨(k.track.toNat * 8 + k.sector.toNat) * 8 + k.block.toNat,
      by simp only [total, trackCount, sectorCount, blockCount]; omega⟩
  else none

/-- Keys are ordered by track, then sector, then block. -/
def compare (a b : BlockKey) : Ordering :=
  (Ord.compare a.track b.track).then
    ((Ord.compare a.sector b.sector).then (Ord.compare a.block b.block))

/-- The three numbers in decimal, with nothing between them. -/
def text (k : BlockKey) : String :=
  toString k.track.toNat ++ toString k.sector.toNat ++ toString k.block.toNat

end BlockKey

end Timeshare
