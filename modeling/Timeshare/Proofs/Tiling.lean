import Timeshare.Proofs.Partition

/-!
# Partitions tile memory

Every address belongs to one byte of one partition, and to no other: `Memory.translate` is a
bijection between the places in partitions and the addresses. What is read after an operation is
stated here address by address, so that the five operations on memory can be set against the same
map. `Memory.Tiles` collects what holds of a memory after any accesses, and none of it depends on
what was done before, since no access changes the layout.
-/
namespace Timeshare

/-- What can be done with a memory. -/
inductive Access where
  | read (address : Nat)
  | write (address : Nat) (byte : UInt8)
  | writeBlock (address : Nat) (bytes : List UInt8)
  | allocate
  | free (partition : Nat)
deriving Repr

namespace Memory

/-- The memory after an access. One that fails leaves the memory as it was. -/
def access (m : Memory) : Access → Memory
  | .read _ => m
  | .write address byte =>
    match m.write address byte with
    | .ok m' => m'
    | .error _ => m
  | .writeBlock address bytes =>
    match m.writeBlock address bytes with
    | .ok m' => m'
    | .error _ => m
  | .allocate =>
    match m.allocate with
    | .ok (_, m') => m'
    | .error _ => m
  | .free partition => m.free partition

/-- The memory after accesses, one after the other. -/
def accessAll (m : Memory) (accesses : List Access) : Memory := accesses.foldl access m

section

variable {m m' : Memory} {p a address : Nat}

/-! ## Addresses -/

theorem translate_eq_ok_iff :
    m.translate p a = .ok address ↔
      p < m.partitionCount ∧ a < m.partitionSize ∧ m.base p + a = address := by
  unfold translate
  by_cases h : a < m.partitionSize ∧ p < m.partitionCount
  · rw [if_pos h, Except.ok.injEq]
    exact ⟨fun he => ⟨h.2, h.1, he⟩, fun he => he.2.2⟩
  · rw [if_neg h]
    exact ⟨nofun, fun he => absurd ⟨he.2.1, he.1⟩ h⟩

theorem translate_of_not (h : ¬ (p < m.partitionCount ∧ a < m.partitionSize)) :
    m.translate p a = .error (.outOfBounds a m.partitionSize) := by
  unfold translate
  exact if_neg fun hin => h ⟨hin.2, hin.1⟩

theorem lt_size_of_translate (h : m.translate p a = .ok address) : address < m.size := by
  obtain ⟨hp, ha, rfl⟩ := translate_eq_ok_iff.1 h
  have hend := m.base_add_size_le hp
  show m.base p + a < m.cells.size
  omega

/-- Every address is that of one byte of one partition. -/
theorem existsUnique_translate (h : address < m.size) :
    ∃! place : Nat × Nat, m.translate place.1 place.2 = .ok address := by
  have hpos := m.partitionSize_pos
  have hp : address / m.partitionSize < m.partitionCount := by
    rw [size_eq_mul] at h
    exact Nat.div_lt_of_lt_mul h
  have ha : address % m.partitionSize < m.partitionSize := Nat.mod_lt _ hpos
  have hsum : m.base (address / m.partitionSize) + address % m.partitionSize = address := by
    rw [base, Nat.mul_comm]
    exact Nat.div_add_mod address m.partitionSize
  refine ⟨(address / m.partitionSize, address % m.partitionSize),
    translate_eq_ok_iff.2 ⟨hp, ha, hsum⟩, ?_⟩
  rintro ⟨q, b⟩ hplace
  obtain ⟨-, hb, hother⟩ := translate_eq_ok_iff.1 hplace
  obtain ⟨rfl, rfl⟩ := m.base_add_inj hb ha (hother.trans hsum.symm)
  rfl

/-! ## Bytes -/

theorem read_of_getElem? {byte : UInt8} (h : m.cells[address]? = some byte) :
    m.read address = .ok byte := by
  rw [read, h]

/-- The same cell in a memory of the same size reads the same. -/
theorem read_congr (hsize : m'.size = m.size) (h : m'.cells[address]? = m.cells[address]?) :
    m'.read address = m.read address := by
  rw [read, read, h, hsize]

theorem exists_read_iff : (∃ byte, m.read address = .ok byte) ↔ address < m.size := by
  unfold read
  by_cases h : address < m.cells.size
  · rw [Array.getElem?_eq_getElem h]
    exact ⟨fun _ => h, fun _ => ⟨_, rfl⟩⟩
  · rw [Array.getElem?_eq_none (Nat.le_of_not_lt h)]
    constructor
    · rintro ⟨byte, he⟩
      cases he
    · exact fun hlt => absurd hlt h

/-- A byte that is written is read there, and everywhere else what was there before. -/
theorem exists_write (h : address < m.size) (byte : UInt8) :
    ∃ m', m.write address byte = .ok m' ∧ m.SameLayout m' ∧
      ∀ i, m'.read i = if i = address then .ok byte else m.read i := by
  have hcell : address < m.cells.size := h
  refine ⟨_, dif_pos hcell, ⟨rfl, rfl⟩, fun i => ?_⟩
  by_cases hi : i = address
  · subst hi
    rw [if_pos rfl]
    exact read_of_getElem? (Array.getElem?_set_self hcell)
  · rw [if_neg hi]
    exact read_congr (Array.size_set hcell) (Array.getElem?_set_ne hcell (Ne.symm hi))

/-- What the bytes of a block become, and that no other byte changes. -/
theorem read_overwrite (m : Memory) (address : Nat) (bytes : Array UInt8)
    (h : address + bytes.size ≤ m.cells.size) :
    (∀ i byte, bytes[i]? = some byte →
      (m.overwrite address bytes h).read (address + i) = .ok byte) ∧
    ∀ i, i < address ∨ address + bytes.size ≤ i →
      (m.overwrite address bytes h).read i = m.read i := by
  refine ⟨fun i byte hi => read_of_getElem? ?_, fun i hi => read_congr ?_ ?_⟩
  · have hlt : i < bytes.size := (Array.getElem?_eq_some_iff.1 hi).1
    rw [getElem?_overwrite, if_pos (by omega), Nat.add_sub_cancel_left, hi]
  · rw [size_eq_mul, size_eq_mul]
    rfl
  · rw [getElem?_overwrite, if_neg (by omega)]

theorem writeBlock_of_le {bytes : List UInt8} (h : address + bytes.length ≤ m.size) :
    ∃ m', m.writeBlock address bytes = .ok m' ∧ m.SameLayout m' ∧
      (∀ i byte, bytes[i]? = some byte → m'.read (address + i) = .ok byte) ∧
      ∀ i, i < address ∨ address + bytes.length ≤ i → m'.read i = m.read i := by
  have hfit : address + bytes.toArray.size ≤ m.cells.size := h
  obtain ⟨hwritten, hothers⟩ := m.read_overwrite address bytes.toArray hfit
  exact ⟨_, dif_pos hfit, ⟨rfl, rfl⟩, by simpa using hwritten, hothers⟩

theorem writeBlock_of_lt {bytes : List UInt8} (h : m.size < address + bytes.length) :
    m.writeBlock address bytes = .error (.outOfBounds address m.size) :=
  dif_neg (Nat.not_le.2 h)

/-- A claim zeroes the bytes of its partition, and no other byte changes. -/
theorem read_claim (m : Memory) (hp : p < m.inUse.size) :
    (∀ a < m.partitionSize, (m.claim p hp).read (m.base p + a) = .ok 0) ∧
    ∀ i, i < m.base p ∨ m.base p + m.partitionSize ≤ i → (m.claim p hp).read i = m.read i := by
  have hfit : m.base p + (Array.replicate m.partitionSize (0 : UInt8)).size ≤ m.cells.size := by
    simpa using m.base_add_size_le hp
  obtain ⟨hzeros, hothers⟩ :=
    m.read_overwrite (m.base p) (Array.replicate m.partitionSize 0) hfit
  rw [Array.size_replicate] at hothers
  refine ⟨fun a ha => hzeros a 0 ?_, hothers⟩
  rw [Array.getElem?_replicate, if_pos ha]

/-! ## Layout -/

/-- No access changes the layout. -/
theorem layout_access (m : Memory) (x : Access) :
    (m.access x).partitionSize = m.partitionSize ∧
      (m.access x).partitionCount = m.partitionCount := by
  have hsame : ∀ {m' : Memory}, m.SameLayout m' →
      m'.partitionSize = m.partitionSize ∧ m'.partitionCount = m.partitionCount := fun h =>
    ⟨h.partitionSize_eq, congrArg Array.size h.inUse_eq⟩
  cases x with
  | read address => exact ⟨rfl, rfl⟩
  | write address byte =>
    unfold access
    by_cases h : address < m.size
    · obtain ⟨m', hwrite, hlayout, -⟩ := exists_write h byte
      simp only [hwrite]
      exact hsame hlayout
    · have hfails : m.write address byte = .error (.outOfBounds address m.size) := dif_neg h
      simp only [hfails, and_self]
  | writeBlock address bytes =>
    unfold access
    by_cases h : address + bytes.length ≤ m.size
    · obtain ⟨m', hwrite, hlayout, -⟩ := writeBlock_of_le h
      simp only [hwrite]
      exact hsame hlayout
    · simp only [writeBlock_of_lt (Nat.lt_of_not_le h), and_self]
  | allocate =>
    unfold access
    cases ha : m.allocate with
    | error reason => exact ⟨rfl, rfl⟩
    | ok claimed =>
      obtain ⟨partition, cleared⟩ := claimed
      obtain ⟨hp, rfl, -⟩ := allocate_eq_ok ha
      exact ⟨rfl, Array.size_set hp⟩
  | free partition => exact ⟨rfl, Array.size_setIfInBounds⟩

theorem layout_accessAll (m : Memory) (accesses : List Access) :
    (m.accessAll accesses).partitionSize = m.partitionSize ∧
      (m.accessAll accesses).partitionCount = m.partitionCount := by
  induction accesses generalizing m with
  | nil => exact ⟨rfl, rfl⟩
  | cons x accesses ih =>
    obtain ⟨hsize, hcount⟩ := m.layout_access x
    obtain ⟨hsize', hcount'⟩ := ih (m.access x)
    exact ⟨hsize'.trans hsize, hcount'.trans hcount⟩

end

/-- The memory is `count` partitions of `size` bytes, one behind the other, and every operation
keeps to the map between places and addresses. -/
structure Tiles (m : Memory) (size count : Nat) : Prop where
  size_eq : m.size = size * count
  /-- Exactly the bytes of the partitions have addresses. -/
  translates_iff : ∀ p a, (∃ address, m.translate p a = .ok address) ↔ p < count ∧ a < size
  /-- These are addresses of memory. -/
  address_lt : ∀ p a address, m.translate p a = .ok address → address < size * count
  /-- Every address of memory is that of one place, and of no other. -/
  existsUnique_place : ∀ address < size * count,
    ∃! place : Nat × Nat, m.translate place.1 place.2 = .ok address
  /-- A byte that is written at a place is read there, and at no other place. -/
  write : ∀ p a address byte, m.translate p a = .ok address →
    ∃ m', m.write address byte = .ok m' ∧ m'.inUse = m.inUse ∧
      ∀ q b other, m'.translate q b = .ok other →
        m'.read other = if (q, b) = (p, a) then .ok byte else m.read other
  /-- A block is written whole, and nothing else with it. -/
  writeBlock : ∀ address bytes, address + bytes.length ≤ size * count →
    ∃ m', m.writeBlock address bytes = .ok m' ∧ m'.inUse = m.inUse ∧
      (∀ i byte, bytes[i]? = some byte → m'.read (address + i) = .ok byte) ∧
      ∀ i, i < address ∨ address + bytes.length ≤ i → m'.read i = m.read i
  /-- A block whose end is no word, or lies behind memory, changes nothing. -/
  writeBlock_refused : ∀ address bytes,
    addressSpace ≤ address + bytes.length ∨ size * count < address + bytes.length →
      m.writeBlock address bytes = .error (.outOfBounds address (size * count)) ∧
        m.access (.writeBlock address bytes) = m
  /-- The lowest free partition is zeroed and marked, and nothing else changes. -/
  allocate : ∀ p m', m.allocate = .ok (p, m') →
    m.inUse[p]? = some false ∧ (∀ q < p, m.inUse[q]? = some true) ∧
      (∀ a < size, m'.read (p * size + a) = .ok 0) ∧
      (∀ i, i < p * size ∨ p * size + size ≤ i → m'.read i = m.read i) ∧
      ∀ q, m'.inUse[q]? = if q = p then some true else m.inUse[q]?
  /-- Exactly where no partition is free, none is handed out and nothing changes. -/
  allocate_refused : ∀ reason, m.allocate = .error reason ↔
    (∀ p < count, m.inUse[p]? = some true) ∧ reason = .capacityExceeded
  allocate_full : (∀ p < count, m.inUse[p]? = some true) → m.access .allocate = m
  /-- Freeing takes away a mark, and changes no byte. -/
  free : ∀ p, (∀ i, (m.free p).read i = m.read i) ∧
    ∀ q, (m.free p).inUse[q]? = if q = p ∧ p < count then some false else m.inUse[q]?

section

variable {m : Memory}

/-- A byte that is written at a place is read there and at no other place, since no other place has
its address. -/
theorem read_write_place {p a address : Nat} (h : m.translate p a = .ok address) (byte : UInt8) :
    ∃ m', m.write address byte = .ok m' ∧ m'.inUse = m.inUse ∧
      ∀ q b other, m'.translate q b = .ok other →
        m'.read other = if (q, b) = (p, a) then .ok byte else m.read other := by
  obtain ⟨m', hwrite, hlayout, hread⟩ := exists_write (lt_size_of_translate h) byte
  refine ⟨m', hwrite, hlayout.inUse_eq, fun q b other hother => ?_⟩
  have hsame : m.translate q b = .ok other := by
    obtain ⟨hq, hb, he⟩ := translate_eq_ok_iff.1 hother
    rw [partitionCount, hlayout.inUse_eq] at hq
    rw [hlayout.partitionSize_eq] at hb
    rw [base, hlayout.partitionSize_eq] at he
    exact translate_eq_ok_iff.2 ⟨hq, hb, he⟩
  rw [hread]
  by_cases hplace : (q, b) = (p, a)
  · obtain ⟨rfl, rfl⟩ := Prod.mk.inj hplace
    rw [if_pos hplace, if_pos (Except.ok.inj (hsame.symm.trans h))]
  · have hne : other ≠ address := by
      rintro rfl
      obtain ⟨_, -, hunique⟩ := existsUnique_translate (lt_size_of_translate h)
      exact hplace ((hunique (q, b) hsame).trans (hunique (p, a) h).symm)
    rw [if_neg hplace, if_neg hne]

/-- Partitions tile a memory whose bytes all have addresses. -/
theorem tiles (h : m.size < addressSpace) : m.Tiles m.partitionSize m.partitionCount where
  size_eq := m.size_eq_mul
  translates_iff p a := by
    constructor
    · rintro ⟨address, he⟩
      obtain ⟨hp, ha, -⟩ := translate_eq_ok_iff.1 he
      exact ⟨hp, ha⟩
    · exact fun ⟨hp, ha⟩ => ⟨_, translate_eq_ok_iff.2 ⟨hp, ha, rfl⟩⟩
  address_lt p a address he := m.size_eq_mul ▸ lt_size_of_translate he
  existsUnique_place address hlt := existsUnique_translate (m.size_eq_mul ▸ hlt)
  write p a address byte he := read_write_place he byte
  writeBlock address bytes hle := by
    obtain ⟨m', hwrite, hlayout, hwritten, hothers⟩ := writeBlock_of_le (m.size_eq_mul ▸ hle)
    exact ⟨m', hwrite, hlayout.inUse_eq, hwritten, hothers⟩
  writeBlock_refused address bytes hover := by
    rw [← m.size_eq_mul] at hover ⊢
    have hlt : m.size < address + bytes.length := by omega
    have hrefused := writeBlock_of_lt hlt
    refine ⟨hrefused, ?_⟩
    rw [access, hrefused]
  allocate p m' he := by
    obtain ⟨hp, rfl, hfree, hlowest⟩ := allocate_eq_ok he
    obtain ⟨hzeros, hothers⟩ := m.read_claim hp
    refine ⟨?_, fun q hq => ?_, hzeros, hothers, fun q => ?_⟩
    · rw [Array.getElem?_eq_getElem hp, hfree]
    · rw [Array.getElem?_eq_getElem (Nat.lt_trans hq hp), hlowest q hq]
    · have hmark := getElem?_mark hp true q
      rw [Array.setIfInBounds, dif_pos hp] at hmark
      exact hmark
  allocate_refused reason := by
    rw [allocate_eq_error_iff, freeCount_eq_zero_iff]
  allocate_full hall := by
    rw [access, (m.allocate_eq_error_iff .capacityExceeded).2
      ⟨m.freeCount_eq_zero_iff.2 hall, rfl⟩]
  free p := ⟨fun _ => rfl, m.inUse_free p⟩

end

/-- **Partitions tile memory.** Whatever was read, written, handed out and freed since a memory was
laid out, with whatever arguments, its partitions are the tiles that they were at the start: places
and addresses belong together one to one, and every further operation touches exactly the bytes
that it names. -/
theorem accessAll_tiles {size count : Nat} {m : Memory} (h : ofLayout size count = .ok m)
    (accesses : List Access) : (m.accessAll accesses).Tiles size count := by
  obtain ⟨hsize, huse⟩ := ofLayout_eq_ok h
  have hcount : m.partitionCount = count := by
    rw [partitionCount, huse, Array.size_replicate]
  obtain ⟨hsize', hcount'⟩ := m.layout_accessAll accesses
  have hfits : (m.accessAll accesses).size < addressSpace := by
    rw [size_eq_mul, hsize', hcount', hsize, hcount]
    exact lt_addressSpace_of_ofLayout h
  have htiles := tiles hfits
  rwa [hsize', hcount', hsize, hcount] at htiles

/-- Two partitions of four bytes: a block runs over the border, one that does not fit is refused,
and the first partition is handed out twice. -/
theorem accessAll_tiles_small :
    ∃ m, ofLayout 4 2 = .ok m ∧
      let m' := m.accessAll [.allocate, .writeBlock 2 [1, 2, 3], .writeBlock 6 [4, 4, 4], .free 0,
        .allocate]
      m'.Tiles 4 2 ∧ m'.read 3 = .ok 0 ∧ m'.translate 1 0 = .ok 4 ∧ m'.read 4 = .ok 3 ∧
        m'.read 6 = .ok 0 := by
  refine ⟨_, rfl, accessAll_tiles rfl _, ?_⟩
  decide +kernel

end Memory

end Timeshare
