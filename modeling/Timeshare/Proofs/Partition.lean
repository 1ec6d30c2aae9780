import Mathlib.Tactic
import Timeshare.Memory

/-!
# Partitions as lists of bytes

`Memory.contents` is the view through which the rest of the theory sees memory. Every operation is
described by what it does to the contents of one partition, and by the fact that it leaves the
contents of all others alone. The cells themselves are not mentioned after this module.
-/
namespace Timeshare.Memory

/-- The partitions are all there is. -/
theorem size_eq_mul (m : Memory) : m.size = m.partitionSize * m.partitionCount := m.size_cells

/-- The same partitions, in the same use. Only bytes may differ. -/
structure SameLayout (m m' : Memory) : Prop where
  partitionSize_eq : m'.partitionSize = m.partitionSize
  inUse_eq : m'.inUse = m.inUse

theorem SameLayout.refl (m : Memory) : SameLayout m m := ⟨rfl, rfl⟩

/-- An address belongs to one partition only. -/
theorem base_add_inj (m : Memory) {p q a b : Nat} (ha : a < m.partitionSize)
    (hb : b < m.partitionSize) (h : m.base p + a = m.base q + b) : p = q ∧ a = b := by
  have hp : (m.base p + a) / m.partitionSize = p := by
    rw [base, Nat.add_comm, Nat.add_mul_div_right _ _ m.partitionSize_pos, Nat.div_eq_of_lt ha,
      Nat.zero_add]
  have hq : (m.base q + b) / m.partitionSize = q := by
    rw [base, Nat.add_comm, Nat.add_mul_div_right _ _ m.partitionSize_pos, Nat.div_eq_of_lt hb,
      Nat.zero_add]
  have hpq : p = q := by rw [← hp, h, hq]
  subst hpq
  exact ⟨rfl, Nat.add_left_cancel h⟩

/-- Past the last partition there are no cells. -/
theorem size_le_base (m : Memory) {p : Nat} (h : m.partitionCount ≤ p) :
    m.cells.size ≤ m.base p := by
  rw [m.size_cells, base, Nat.mul_comm]
  exact Nat.mul_le_mul_right _ h

theorem getElem?_contents (m : Memory) (p a : Nat) :
    (m.contents p)[a]? = if a < m.partitionSize then m.cells[m.base p + a]? else none := by
  rw [contents, Array.getElem?_toList, Array.getElem?_extract]
  by_cases ha : a < m.partitionSize
  · rw [if_pos ha]
    by_cases hs : m.base p + a < m.cells.size
    · rw [if_pos (by omega)]
    · rw [if_neg (by omega), Array.getElem?_eq_none (by omega)]
  · rw [if_neg ha, if_neg (by omega)]

theorem length_contents (m : Memory) {p : Nat} (h : p < m.partitionCount) :
    (m.contents p).length = m.partitionSize := by
  have := m.base_add_size_le h
  simp only [contents, Array.length_toList, Array.size_extract]
  omega

theorem load?_eq (m : Memory) (p a : Nat) : m.load? p a = (m.contents p)[a]? := by
  rw [getElem?_contents]
  unfold load? translate
  by_cases ha : a < m.partitionSize
  · by_cases hp : p < m.partitionCount
    · simp [ha, hp]
    · have := m.size_le_base (Nat.le_of_not_lt hp)
      simp [ha, hp, Array.getElem?_eq_none (show m.cells.size ≤ m.base p + a by omega)]
  · simp [ha]

/-- Two memories whose partitions hold the same cells show the same contents. -/
theorem contents_congr {m m' : Memory} {p q : Nat} (hn : m'.partitionSize = m.partitionSize)
    (h : ∀ a < m.partitionSize, m'.cells[m'.base q + a]? = m.cells[m.base p + a]?) :
    m'.contents q = m.contents p := by
  apply List.ext_getElem?
  intro a
  rw [getElem?_contents, getElem?_contents, hn]
  by_cases ha : a < m.partitionSize
  · rw [if_pos ha, if_pos ha, h a ha]
  · rw [if_neg ha, if_neg ha]

theorem ofLayout_eq_ok {size count : Nat} {m : Memory} (h : ofLayout size count = .ok m) :
    m.partitionSize = size ∧ m.inUse = Array.replicate count false := by
  unfold ofLayout at h
  split at h
  · obtain rfl := Except.ok.inj h
    exact ⟨rfl, rfl⟩
  · cases h

/-- A memory that was laid out has an address for each of its bytes. -/
theorem lt_addressSpace_of_ofLayout {size count : Nat} {m : Memory}
    (h : ofLayout size count = .ok m) : size * count < addressSpace := by
  unfold ofLayout at h
  split at h
  · rename_i hlayout
    exact hlayout.2.2
  · cases h

/-! ## Single bytes -/

theorem store?_eq_none_iff (m : Memory) {p : Nat} (hp : p < m.partitionCount) (a : Nat)
    (byte : UInt8) : m.store? p a byte = none ↔ m.partitionSize ≤ a := by
  unfold store? translate write
  by_cases ha : a < m.partitionSize
  · have := m.base_add_size_le hp
    simp [ha, hp, show m.base p + a < m.cells.size by omega, Except.toOption]
  · simp [ha, Nat.le_of_not_lt ha]

/-- A store changes one byte of one partition. -/
theorem contents_store? {m m' : Memory} {p a : Nat} {byte : UInt8}
    (h : m.store? p a byte = some m') :
    SameLayout m m' ∧ m'.contents p = (m.contents p).set a byte ∧
      ∀ q ≠ p, m'.contents q = m.contents q := by
  unfold store? translate at h
  by_cases hin : a < m.partitionSize ∧ p < m.partitionCount
  · rw [if_pos hin] at h
    have hfit : m.base p + a < m.cells.size := by
      have := m.base_add_size_le hin.2
      omega
    simp only [write, dif_pos hfit, Except.toOption, Option.some.injEq] at h
    subst h
    refine ⟨⟨rfl, rfl⟩, ?_, ?_⟩
    · apply List.ext_getElem?
      intro b
      rw [getElem?_contents, List.getElem?_set, getElem?_contents, length_contents _ hin.2]
      by_cases hb : b < m.partitionSize
      · simp only [hb, if_true, Array.getElem?_set]
        show (if m.base p + a = m.base p + b then _ else m.cells[m.base p + b]?) = _
        by_cases hab : a = b
        · simp [hab, hb]
        · simp [hab]
      · simp only [hb, if_false]
        rw [if_neg (by omega)]
    · intro q hq
      refine contents_congr (m := m) rfl fun b hb => ?_
      have hne : m.base p + a ≠ m.base q + b := fun he =>
        hq (m.base_add_inj hin.1 hb he).1.symm
      show (m.cells.set (m.base p + a) byte)[m.base q + b]? = _
      rw [Array.getElem?_set, if_neg hne]
  · simp [if_neg hin] at h

/-! ## Blocks -/

theorem getElem?_overwrite (m : Memory) (address : Nat) (bytes : Array UInt8)
    (h : address + bytes.size ≤ m.cells.size) (i : Nat) :
    (m.overwrite address bytes h).cells[i]? =
      if address ≤ i ∧ i < address + bytes.size then bytes[i - address]? else m.cells[i]? := by
  show (m.cells.extract 0 address ++ bytes ++ m.cells.extract (address + bytes.size))[i]? = _
  by_cases hlow : i < address
  · rw [if_neg (by omega), Array.append_assoc, Array.getElem?_append_left (by simp; omega)]
    simp [Array.getElem?_extract, hlow]
  · rw [Array.append_assoc, Array.getElem?_append_right (by simp; omega)]
    have hsize : (m.cells.extract 0 address).size = address := by simp; omega
    rw [hsize]
    by_cases hin : i < address + bytes.size
    · rw [if_pos ⟨by omega, hin⟩, Array.getElem?_append_left (by omega)]
    · rw [if_neg (by omega), Array.getElem?_append_right (by omega), Array.getElem?_extract]
      by_cases hi : i < m.cells.size
      · rw [if_pos (by omega)]
        congr 1
        omega
      · rw [if_neg (by omega), Array.getElem?_eq_none (by omega)]

/-- Bytes that are put at the start of a partition take the place of as many bytes there. -/
theorem contents_overwrite_base (m : Memory) {p : Nat} (bytes : Array UInt8)
    (hb : bytes.size ≤ m.partitionSize) (h : m.base p + bytes.size ≤ m.cells.size) :
    SameLayout m (m.overwrite (m.base p) bytes h) ∧
      (m.overwrite (m.base p) bytes h).contents p =
        bytes.toList ++ (m.contents p).drop bytes.size ∧
      ∀ q ≠ p, (m.overwrite (m.base p) bytes h).contents q = m.contents q := by
  refine ⟨⟨rfl, rfl⟩, ?_, ?_⟩
  · apply List.ext_getElem?
    intro a
    rw [getElem?_contents, List.getElem?_append, List.getElem?_drop, getElem?_contents,
      getElem?_overwrite, show (m.overwrite (m.base p) bytes h).base p = m.base p from rfl,
      show (m.overwrite (m.base p) bytes h).partitionSize = m.partitionSize from rfl]
    simp only [Array.length_toList, Array.getElem?_toList, Nat.add_sub_cancel_left]
    by_cases ha : a < bytes.size
    · rw [if_pos (by omega), if_pos (by omega), if_pos ha]
    · rw [if_neg ha, show bytes.size + (a - bytes.size) = a by omega]
      by_cases hn : a < m.partitionSize
      · rw [if_pos hn, if_pos hn, if_neg (by omega)]
      · rw [if_neg hn, if_neg hn]
  · intro q hq
    refine contents_congr (m := m) rfl fun a ha => ?_
    rw [getElem?_overwrite]
    refine if_neg fun hin => hq ?_
    change m.base p ≤ m.base q + a ∧ m.base q + a < _ at hin
    have hlt : m.base q + a - m.base p < m.partitionSize := by omega
    have hoff : m.base p + (m.base q + a - m.base p) = m.base q + a := by omega
    exact (m.base_add_inj hlt ha hoff).1.symm

/-- A program that fits is written to the start of a partition. -/
theorem writeBlock_base (m : Memory) {p : Nat} (hp : p < m.partitionCount) (bytes : List UInt8)
    (hb : bytes.length ≤ m.partitionSize) :
    ∃ m', m.writeBlock (m.base p) bytes = .ok m' ∧ SameLayout m m' ∧
      m'.contents p = bytes ++ (m.contents p).drop bytes.length ∧
      ∀ q ≠ p, m'.contents q = m.contents q := by
  have hfit : m.base p + bytes.toArray.size ≤ m.cells.size := by
    have := m.base_add_size_le hp
    simp only [List.size_toArray]
    omega
  refine ⟨m.overwrite (m.base p) bytes.toArray hfit, dif_pos hfit, ?_⟩
  simpa using m.contents_overwrite_base bytes.toArray (by simpa using hb) hfit

/-! ## Claiming and freeing -/

/-- A claim zeroes its partition and marks it, and touches nothing else. -/
theorem contents_claim (m : Memory) {p : Nat} (hp : p < m.inUse.size) :
    (m.claim p hp).contents p = List.replicate m.partitionSize 0 ∧
      ∀ q ≠ p, (m.claim p hp).contents q = m.contents q := by
  have hfit : m.base p + (Array.replicate m.partitionSize (0 : UInt8)).size ≤ m.cells.size := by
    simpa using m.base_add_size_le hp
  obtain ⟨_, hself, hother⟩ :=
    m.contents_overwrite_base (Array.replicate m.partitionSize 0) (by simp) hfit
  refine ⟨?_, hother⟩
  have hdrop : (m.contents p).drop m.partitionSize = [] :=
    List.drop_eq_nil_of_le (Nat.le_of_eq (m.length_contents hp))
  rw [Array.size_replicate, hdrop, List.append_nil, Array.toList_replicate] at hself
  exact hself

/-- A program in a partition that was just claimed has nothing but zeros behind it. -/
theorem writeBlock_claim (m : Memory) {p : Nat} (hp : p < m.inUse.size) (program : List UInt8)
    (hl : program.length ≤ m.partitionSize) :
    ∃ m', (m.claim p hp).writeBlock (m.base p) program = .ok m' ∧
      m'.partitionSize = m.partitionSize ∧ m'.inUse = m.inUse.set p true ∧
      m'.contents p = program ++ List.replicate (m.partitionSize - program.length) 0 ∧
      ∀ q ≠ p, m'.contents q = m.contents q := by
  have hcount : p < (m.claim p hp).partitionCount := by
    show p < (m.inUse.set p true).size
    rwa [Array.size_set]
  obtain ⟨m', hwrite, hlayout, hself, hother⟩ := (m.claim p hp).writeBlock_base hcount program hl
  obtain ⟨hzero, hclaim⟩ := m.contents_claim hp
  refine ⟨m', hwrite, hlayout.partitionSize_eq, hlayout.inUse_eq, ?_, fun q hq => ?_⟩
  · rw [hself, hzero, List.drop_replicate]
  · rw [hother q hq, hclaim q hq]

@[simp]
theorem contents_free (m : Memory) (p q : Nat) : (m.free p).contents q = m.contents q := rfl

/-- One mark of use is set, and the others stay. -/
theorem getElem?_mark {marks : Array Bool} {p : Nat} (h : p < marks.size) (used : Bool) (q : Nat) :
    (marks.setIfInBounds p used)[q]? = if q = p then some used else marks[q]? := by
  rw [Array.getElem?_setIfInBounds]
  by_cases hq : p = q
  · subst hq
    rw [if_pos rfl, if_pos rfl, if_pos h]
  · rw [if_neg hq, if_neg (Ne.symm hq)]

/-- A number that no partition has marks nothing. -/
theorem inUse_free (m : Memory) (p q : Nat) :
    (m.free p).inUse[q]? = if q = p ∧ p < m.partitionCount then some false else m.inUse[q]? := by
  by_cases hp : p < m.partitionCount
  · rw [show (m.free p).inUse = m.inUse.setIfInBounds p false from rfl, getElem?_mark hp]
    simp [hp]
  · rw [show (m.free p).inUse = m.inUse.setIfInBounds p false from rfl,
      Array.setIfInBounds_eq_of_size_le (Nat.le_of_not_lt hp), if_neg fun h => hp h.2]

theorem getElem?_inUse_free (m : Memory) {p : Nat} (h : p < m.partitionCount) (q : Nat) :
    (m.free p).inUse[q]? = if q = p then some false else m.inUse[q]? := by
  rw [inUse_free]
  simp only [h, and_true]

/-- The partition that is handed out is the lowest free one. -/
theorem allocate_eq_ok {m m' : Memory} {p : Nat} (h : m.allocate = .ok (p, m')) :
    ∃ hp : p < m.inUse.size, m' = m.claim p hp ∧ m.inUse[p] = false ∧
      ∀ q, (hq : q < p) → m.inUse[q] = true := by
  unfold allocate at h
  cases hfind : m.inUse.findFinIdx? (!·) with
  | none => simp [hfind] at h
  | some i =>
    simp only [hfind, Except.ok.injEq, Prod.mk.injEq] at h
    obtain ⟨rfl, rfl⟩ := h
    rw [Array.findFinIdx?_eq_some_iff] at hfind
    refine ⟨i.isLt, rfl, by simpa using hfind.1, fun q hq => ?_⟩
    have := hfind.2 ⟨q, by omega⟩ hq
    simpa using this

/-- No partition is free where all marks are set. -/
theorem freeCount_eq_zero_iff (m : Memory) :
    m.freeCount = 0 ↔ ∀ p < m.partitionCount, m.inUse[p]? = some true := by
  rw [freeCount, List.countP_eq_zero]
  constructor
  · intro h p hp
    have hmark := h m.inUse[p] (Array.getElem_mem_toList hp)
    rw [Array.getElem?_eq_getElem hp]
    simpa using hmark
  · intro h mark hmem
    obtain ⟨p, hp, rfl⟩ := List.getElem_of_mem hmem
    have hin : p < m.inUse.size := by simpa using hp
    have hmark := h p hin
    rw [Array.getElem?_eq_getElem hin, Option.some.injEq] at hmark
    simp [hmark]

/-- There is a partition to hand out as long as one is free. -/
theorem allocate_eq_error_iff (m : Memory) (reason : Error) :
    m.allocate = .error reason ↔ m.freeCount = 0 ∧ reason = .capacityExceeded := by
  have hfull : m.inUse.findFinIdx? (!·) = none ↔ m.freeCount = 0 := by
    rw [Array.findFinIdx?_eq_none_iff, freeCount, List.countP_eq_zero]
    simp
  unfold allocate
  cases hfind : m.inUse.findFinIdx? (!·) with
  | none => simp [hfull.1 hfind, eq_comm]
  | some partition =>
    have hfree : m.freeCount ≠ 0 := fun hzero => by
      rw [hfull.2 hzero] at hfind
      cases hfind
    simp [hfree]

end Timeshare.Memory
