import Timeshare.Proofs.Keystrokes

/-!
# The disk as a map

A disk is a map from keys to blocks, and its history decides what the map is: `lastData?` reads off
the requests, newest first, which data a block holds. `Disk.Maps` says that a disk is the map of a
history, and what it answers to the next read and to the next write.

A machine applies its disk requests in ticks, in the order in which they were raised. As with
characters that are typed, the account is kept by `Machine.Stores`: the disk is that of the requests
which wait no more.
-/
namespace Timeshare

/-! ## Keys -/

namespace BlockKey

/-- The disk has a place for the block. -/
def OnDisk (key : BlockKey) : Prop := key.track < 4 ∧ key.sector < 8 ∧ key.block < 8

instance (key : BlockKey) : Decidable key.OnDisk :=
  inferInstanceAs (Decidable (key.track < 4 ∧ key.sector < 8 ∧ key.block < 8))

variable {key key' : BlockKey} {n : Fin total}

theorem onDisk_iff : key.OnDisk ↔ key.track.toNat < 4 ∧ key.sector.toNat < 8 ∧ key.block.toNat < 8 :=
  Iff.rfl

theorem onDisk_of_number? (h : key.number? = some n) : key.OnDisk := by
  unfold number? at h
  split at h
  · rename_i hkey
    exact onDisk_iff.2 hkey
  · cases h

theorem exists_number? (h : key.OnDisk) : ∃ n, key.number? = some n :=
  ⟨_, dif_pos (onDisk_iff.1 h)⟩

theorem val_of_number? (h : key.number? = some n) :
    n.val = (key.track.toNat * 8 + key.sector.toNat) * 8 + key.block.toNat := by
  rw [number?, dif_pos (onDisk_iff.1 (onDisk_of_number? h))] at h
  exact (congrArg Fin.val (Option.some.inj h)).symm

/-- No two blocks have the same number. -/
theorem number?_inj (h : key.number? = some n) (h' : key'.number? = some n) : key = key' := by
  have hval := (val_of_number? h).symm.trans (val_of_number? h')
  have hkey := onDisk_iff.1 (onDisk_of_number? h)
  have hkey' := onDisk_iff.1 (onDisk_of_number? h')
  have htrack : key.track = key'.track := UInt8.toNat_inj.1 (by omega)
  have hsector : key.sector = key'.sector := UInt8.toNat_inj.1 (by omega)
  have hblock : key.block = key'.block := UInt8.toNat_inj.1 (by omega)
  cases key
  cases key'
  simp only at htrack hsector hblock
  rw [htrack, hsector, hblock]

/-- The keys that are numbered through are those of the blocks on the disk. -/
theorem mem_all_iff : key ∈ all ↔ key.OnDisk := by
  simp only [all, List.mem_flatMap, List.mem_map, List.mem_range, onDisk_iff]
  constructor
  · rintro ⟨t, ht, s, hs, b, hb, rfl⟩
    have htrack : t.toUInt8.toNat = t := UInt8.toNat_ofNat_of_lt' (Nat.lt_trans ht (by decide))
    have hsector : s.toUInt8.toNat = s := UInt8.toNat_ofNat_of_lt' (Nat.lt_trans hs (by decide))
    have hblock : b.toUInt8.toNat = b := UInt8.toNat_ofNat_of_lt' (Nat.lt_trans hb (by decide))
    rw [htrack, hsector, hblock]
    exact ⟨ht, hs, hb⟩
  · rintro ⟨ht, hs, hb⟩
    refine ⟨_, ht, _, hs, _, hb, ?_⟩
    simp

end BlockKey

/-! ## One request -/

/-- The data of a block, with zeros behind. -/
def Block.padded (bytes : List UInt8) : List UInt8 :=
  bytes ++ List.replicate (blockSize - bytes.length) 0

theorem Block.toBytes_ofBytes {bytes : List UInt8} (h : bytes.length ≤ blockSize) :
    (ofBytes bytes).toBytes = padded bytes := by
  apply List.ext_getElem
  · simp [toBytes, padded, Nat.add_sub_of_le h]
  · intro i hi hi'
    simp only [toBytes, ofBytes, padded, Vector.getElem_toList, Vector.getElem_ofFn,
      List.getD_eq_getElem?_getD]
    by_cases hdata : i < bytes.length
    · rw [List.getElem_append_left hdata, List.getElem?_eq_getElem hdata, Option.getD_some]
    · have hbehind := Nat.le_of_not_lt hdata
      rw [List.getElem_append_right hbehind, List.getElem_replicate,
        List.getElem?_eq_none hbehind, Option.getD_none]

/-- The disk after a request. A write that is refused changes nothing. -/
def DiskRequest.applyTo (d : Disk) : DiskRequest → Disk
  | .format => d.format
  | .write key bytes =>
    match d.write key bytes with
    | .ok written => written
    | .error _ => d

namespace Disk

variable {d written : Disk} {key : BlockKey} {bytes : List UInt8}

/-- There is a block for the key. -/
def Has (d : Disk) (key : BlockKey) : Prop := d.blocks.isSome = true ∧ key.OnDisk

theorem has_iff : d.Has key ↔ ∃ blocks n, d.blocks = some blocks ∧ key.number? = some n := by
  constructor
  · rintro ⟨hblocks, hkey⟩
    obtain ⟨blocks, hblocks⟩ := Option.isSome_iff_exists.1 hblocks
    obtain ⟨n, hn⟩ := BlockKey.exists_number? hkey
    exact ⟨blocks, n, hblocks, hn⟩
  · rintro ⟨blocks, n, hblocks, hn⟩
    exact ⟨Option.isSome_iff_exists.2 ⟨blocks, hblocks⟩, BlockKey.onDisk_of_number? hn⟩

theorem read_of_has (h : d.Has key) : ∃ block, d.read key = .ok block := by
  obtain ⟨blocks, n, hblocks, hn⟩ := has_iff.1 h
  refine ⟨blocks[n], ?_⟩
  rw [read, hblocks, hn]

theorem read_of_not_has (h : ¬ d.Has key) : d.read key = .error (.noSuchBlock key) := by
  unfold read
  split
  · rename_i hblocks hn
    exact absurd (has_iff.2 ⟨_, _, hblocks, hn⟩) h
  · rfl

/-- How a write ends. -/
inductive WriteEnds (d : Disk) (key : BlockKey) (bytes : List UInt8) : Prop
  | tooLarge (h : blockSize < bytes.length)
      (hwrite : d.write key bytes = .error (.blockTooLarge bytes.length blockSize))
  | missing (hfits : bytes.length ≤ blockSize) (h : ¬ d.Has key)
      (hwrite : d.write key bytes = .error (.noSuchBlock key))
  | accepted {written : Disk} (hfits : bytes.length ≤ blockSize) (h : d.Has key)
      (hwrite : d.write key bytes = .ok written)

theorem writeEnds (d : Disk) (key : BlockKey) (bytes : List UInt8) : WriteEnds d key bytes := by
  by_cases hfits : bytes.length ≤ blockSize
  · by_cases h : d.Has key
    · obtain ⟨blocks, n, hblocks, hn⟩ := has_iff.1 h
      have hwrite : d.write key bytes = .ok ⟨some (blocks.set n (Block.ofBytes bytes))⟩ := by
        rw [write, if_neg (Nat.not_lt.2 hfits), hblocks, hn]
      exact .accepted hfits h hwrite
    · refine .missing hfits h ?_
      rw [write, if_neg (Nat.not_lt.2 hfits)]
      split
      · rename_i hblocks hn
        exact absurd (has_iff.2 ⟨_, _, hblocks, hn⟩) h
      · rfl
  · have hlarge := Nat.lt_of_not_le hfits
    exact .tooLarge hlarge (if_pos hlarge)

theorem write_eq_ok_iff :
    (∃ written, d.write key bytes = .ok written) ↔ bytes.length ≤ blockSize ∧ d.Has key := by
  cases writeEnds d key bytes with
  | tooLarge h hwrite => simp [hwrite, Nat.not_le.2 h]
  | missing hfits h hwrite => simp [hwrite, h]
  | accepted hfits h hwrite => simp [hwrite, hfits, h]

theorem write_eq_blockTooLarge_iff :
    d.write key bytes = .error (.blockTooLarge bytes.length blockSize) ↔
      blockSize < bytes.length := by
  cases writeEnds d key bytes with
  | tooLarge h hwrite => simp [hwrite, h]
  | missing hfits h hwrite => simp [hwrite, Nat.not_lt.2 hfits]
  | accepted hfits h hwrite => simp [hwrite, Nat.not_lt.2 hfits]

theorem write_eq_noSuchBlock_iff :
    d.write key bytes = .error (.noSuchBlock key) ↔ bytes.length ≤ blockSize ∧ ¬ d.Has key := by
  cases writeEnds d key bytes with
  | tooLarge h hwrite => simp [hwrite, Nat.not_le.2 h]
  | missing hfits h hwrite => simp [hwrite, hfits, h]
  | accepted hfits h hwrite => simp [hwrite, h]

/-- An accepted write sets one block. -/
theorem exists_set_of_write (h : d.write key bytes = .ok written) :
    ∃ (blocks : Vector Block BlockKey.total) (n : Fin BlockKey.total),
      d.blocks = some blocks ∧ key.number? = some n ∧
        written = ⟨some (blocks.set n.val (Block.ofBytes bytes) n.isLt)⟩ := by
  obtain ⟨hfits, hhas⟩ := write_eq_ok_iff.1 ⟨written, h⟩
  obtain ⟨blocks, n, hblocks, hn⟩ := has_iff.1 hhas
  rw [write, if_neg (Nat.not_lt.2 hfits), hblocks, hn] at h
  exact ⟨blocks, n, hblocks, hn, (Except.ok.inj h).symm⟩

/-- An accepted write puts its data in one block and leaves the others. -/
theorem read_write (h : d.write key bytes = .ok written) (key' : BlockKey) :
    written.read key' = if key' = key then .ok (Block.ofBytes bytes) else d.read key' := by
  obtain ⟨blocks, n, hblocks, hn, rfl⟩ := exists_set_of_write h
  split
  · rename_i hsame
    subst hsame
    simp [read, hn]
  · rename_i hother
    rw [read, read, hblocks]
    cases hn' : key'.number? with
    | none => rfl
    | some n' =>
      have hne : n ≠ n' := by
        rintro rfl
        exact hother (BlockKey.number?_inj hn' hn)
      have hval : n.val ≠ n'.val := fun hval => hne (Fin.ext hval)
      simp [Vector.getElem_set_ne _ _ hval]

theorem isSome_blocks_of_write (h : d.write key bytes = .ok written) :
    written.blocks.isSome = true := by
  obtain ⟨blocks, n, -, -, rfl⟩ := exists_set_of_write h
  rfl

/-- A disk that was just formatted holds zeros. -/
theorem read_format (d : Disk) (h : key.OnDisk) :
    d.format.read key = .ok (Block.ofBytes []) := by
  obtain ⟨n, hn⟩ := BlockKey.exists_number? h
  rw [format, read, hn]
  simp [Block.ofBytes, Vector.ext_iff]

/-! ## Histories -/

/-- The data of a block, from the requests to the disk, the newest first: that of the last accepted
write since the disk was formatted, if there is one. -/
def lastData? (key : BlockKey) : List DiskRequest → Option (List UInt8)
  | [] => none
  | .format :: _ => none
  | .write key' bytes :: earlier =>
    if key' = key ∧ bytes.length ≤ blockSize then some bytes else lastData? key earlier

/-- The disk after requests, in order. -/
def ofRequests (requests : List DiskRequest) : Disk := requests.foldl DiskRequest.applyTo {}

theorem ofRequests_concat (requests : List DiskRequest) (r : DiskRequest) :
    ofRequests (requests ++ [r]) = r.applyTo (ofRequests requests) := List.foldl_concat _ _ _ _

/-- Blocks exist after the first format. -/
theorem isSome_blocks_ofRequests (requests : List DiskRequest) :
    (ofRequests requests).blocks.isSome = true ↔ .format ∈ requests := by
  induction requests using List.reverseRecOn with
  | nil => simp [ofRequests]
  | append_singleton requests r ih =>
    rw [ofRequests_concat, List.mem_append, ← ih, List.mem_singleton]
    cases r with
    | format => simp [DiskRequest.applyTo, format]
    | write key bytes =>
      rw [DiskRequest.applyTo]
      cases hwrite : (ofRequests requests).write key bytes with
      | error reason => simp
      | ok written =>
        obtain ⟨-, hhas⟩ := write_eq_ok_iff.1 ⟨written, hwrite⟩
        simp [isSome_blocks_of_write hwrite, hhas.1]

theorem has_ofRequests {requests : List DiskRequest} :
    (ofRequests requests).Has key ↔ .format ∈ requests ∧ key.OnDisk := by
  rw [Has, isSome_blocks_ofRequests]

/-- A block holds what was last written to it. -/
theorem read_ofRequests {requests : List DiskRequest} (h : (ofRequests requests).Has key) :
    (ofRequests requests).read key =
      .ok (Block.ofBytes ((lastData? key requests.reverse).getD [])) := by
  induction requests using List.reverseRecOn with
  | nil => cases h.1
  | append_singleton requests r ih =>
    rw [ofRequests_concat] at h ⊢
    rw [List.reverse_append, List.reverse_singleton, List.singleton_append]
    cases r with
    | format => exact (ofRequests requests).read_format h.2
    | write key' bytes =>
      rw [DiskRequest.applyTo] at h ⊢
      rw [lastData?]
      cases hwrite : (ofRequests requests).write key' bytes with
      | ok written =>
        obtain ⟨hfits, hhas'⟩ := write_eq_ok_iff.1 ⟨written, hwrite⟩
        simp only [read_write hwrite]
        by_cases hsame : key = key'
        · rw [if_pos hsame, if_pos ⟨hsame.symm, hfits⟩]
          rfl
        · rw [if_neg hsame, if_neg fun hboth => hsame hboth.1.symm]
          exact ih ⟨hhas'.1, h.2⟩
      | error reason =>
        rw [hwrite] at h
        -- the block exists, so that a write to it can only be too large
        have hskip : ¬ (key' = key ∧ bytes.length ≤ blockSize) := by
          rintro ⟨rfl, hfits⟩
          obtain ⟨written, hok⟩ := write_eq_ok_iff.2 ⟨hfits, h⟩
          rw [hwrite] at hok
          cases hok
        rw [if_neg hskip]
        exact ih h

/-- The disk is the map that the requests leave behind. -/
structure Maps (d : Disk) (requests : List DiskRequest) : Prop where
  eq_ofRequests : d = ofRequests requests
  /-- Before the first format and off the disk there is no block. A block holds the last data that
  was accepted for it since it was formatted, and zeros behind. -/
  read_eq : ∀ key, (d.read key).map Block.toBytes =
    if .format ∈ requests ∧ key.OnDisk then
      .ok (Block.padded ((lastData? key requests.reverse).getD []))
    else .error (.noSuchBlock key)
  /-- The blocks that exist are those that are numbered through. -/
  read_eq_ok_iff : ∀ key, (∃ block, d.read key = .ok block) ↔
    .format ∈ requests ∧ key ∈ BlockKey.all
  write_eq_ok_iff : ∀ key bytes, (∃ written, d.write key bytes = .ok written) ↔
    bytes.length ≤ 64 ∧ .format ∈ requests ∧ key.OnDisk
  /-- The size of the data is looked at first. -/
  blockTooLarge_iff : ∀ key bytes,
    d.write key bytes = .error (.blockTooLarge bytes.length 64) ↔ 64 < bytes.length
  noSuchBlock_iff : ∀ key bytes, d.write key bytes = .error (.noSuchBlock key) ↔
    bytes.length ≤ 64 ∧ ¬ (.format ∈ requests ∧ key.OnDisk)
  /-- A write changes its own block and no other. -/
  read_write : ∀ key bytes written, d.write key bytes = .ok written → ∀ key',
    (written.read key').map Block.toBytes =
      if key' = key then .ok (Block.padded bytes) else (d.read key').map Block.toBytes

theorem length_lastData?_le (key : BlockKey) (requests : List DiskRequest) :
    ((lastData? key requests).getD []).length ≤ blockSize := by
  induction requests with
  | nil => exact Nat.zero_le _
  | cons r requests ih =>
    cases r with
    | format => exact Nat.zero_le _
    | write key' bytes =>
      rw [lastData?]
      split
      · rename_i hlast
        exact hlast.2
      · exact ih

/-- After any requests the disk is the map that they leave. -/
theorem maps_ofRequests (requests : List DiskRequest) : (ofRequests requests).Maps requests where
  eq_ofRequests := rfl
  read_eq := by
    intro key
    by_cases h : (ofRequests requests).Has key
    · rw [if_pos (has_ofRequests.1 h), read_ofRequests h]
      exact congrArg Except.ok (Block.toBytes_ofBytes (length_lastData?_le key _))
    · rw [if_neg fun hboth => h (has_ofRequests.2 hboth), read_of_not_has h]
      rfl
  read_eq_ok_iff := by
    intro key
    rw [BlockKey.mem_all_iff, ← has_ofRequests]
    refine ⟨fun ⟨block, hread⟩ => ?_, read_of_has⟩
    by_contra hnone
    rw [read_of_not_has hnone] at hread
    cases hread
  write_eq_ok_iff := by
    intro key bytes
    rw [Disk.write_eq_ok_iff, has_ofRequests]
    rfl
  blockTooLarge_iff := fun key bytes => write_eq_blockTooLarge_iff
  noSuchBlock_iff := by
    intro key bytes
    rw [write_eq_noSuchBlock_iff, has_ofRequests]
    rfl
  read_write := by
    intro key bytes written hwrite key'
    obtain ⟨hfits, -⟩ := Disk.write_eq_ok_iff.1 ⟨written, hwrite⟩
    rw [Disk.read_write hwrite]
    split
    · exact congrArg Except.ok (Block.toBytes_ofBytes hfits)
    · rfl

end Disk

/-! ## Requests in a run -/

/-- The disk request that an interrupt carries. -/
def Interrupt.diskRequest? : Interrupt → Option DiskRequest
  | .disk request => some request
  | _ => none

/-- The disk requests among interrupts, in order. -/
def diskRequestsIn (batch : List Interrupt) : List DiskRequest :=
  batch.filterMap Interrupt.diskRequest?

theorem diskRequestsIn_append (batch batch' : List Interrupt) :
    diskRequestsIn (batch ++ batch') = diskRequestsIn batch ++ diskRequestsIn batch' :=
  List.filterMap_append

/-- The disk requests that an operation raises. -/
def Operation.diskRequests : Operation → List DiskRequest
  | .ask r => diskRequestsIn r.raises
  | .settle _ => []

namespace Storage

variable {s : Storage}

/-- The storage after requests to its disk. -/
def applyAll (s : Storage) (requests : List DiskRequest) : Storage :=
  { s with disk := requests.foldl DiskRequest.applyTo s.disk }

theorem applyAll_append (s : Storage) (requests requests' : List DiskRequest) :
    s.applyAll (requests ++ requests') = (s.applyAll requests).applyAll requests' := by
  rw [applyAll, List.foldl_append]
  rfl

/-- A storage with its driver applies requests and nothing else. -/
theorem value_service_of_loaded (h : s.loaded = true) (i : Interrupt) :
    (s.service i).value = s.applyAll (diskRequestsIn [i]) := by
  unfold service
  rw [if_pos h]
  cases i with
  | disk request =>
    cases request with
    | format => rfl
    | write key bytes =>
      simp only [applyAll, diskRequestsIn, Interrupt.diskRequest?, List.filterMap_cons,
        List.filterMap_nil, List.foldl_cons, List.foldl_nil, DiskRequest.applyTo]
      cases s.disk.write key bytes <;> rfl
  | _ => rfl

end Storage

theorem Devices.storage_serveAll {d : Devices} (h : d.storage.loaded = true)
    (batch : List Interrupt) :
    (d.serveAll batch).storage = d.storage.applyAll (diskRequestsIn batch) := by
  induction batch generalizing d with
  | nil => rfl
  | cons i batch ih =>
    have hserved : (d.serve i).storage = d.storage.applyAll (diskRequestsIn [i]) :=
      d.storage.value_service_of_loaded h i
    have hloaded : (d.serve i).storage.loaded = true := by
      rw [hserved]
      exact h
    have hrest := ih hloaded
    rw [hserved, ← Storage.applyAll_append, ← diskRequestsIn_append] at hrest
    exact hrest

namespace Machine

open Traced

/-- Of the requests so far, those that wait no more have made the disk what it is. -/
structure Stores (m : Machine) (requests : List DiskRequest) : Prop where
  loaded : m.storage.loaded = true
  served : ∃ served, requests = served ++ diskRequestsIn m.interrupts.pending.toList ∧
    m.storage.disk = Disk.ofRequests served

section

variable {m m' : Machine} {requests : List DiskRequest}

/-- The storage is not touched, and some more requests wait. -/
theorem Stores.of_storage_eq (h : m.Stores requests) {raised : List Interrupt}
    (hstorage : m'.storage = m.storage)
    (hpending : m'.interrupts.pending.toList = m.interrupts.pending.toList ++ raised) :
    m'.Stores (requests ++ diskRequestsIn raised) := by
  obtain ⟨served, hrequests, hdisk⟩ := h.served
  refine ⟨?_, served, ?_, ?_⟩
  · rw [hstorage]
    exact h.loaded
  · rw [hpending, diskRequestsIn_append, ← List.append_assoc, ← hrequests]
  · rw [hstorage]
    exact hdisk

/-- After a tick no request waits. -/
theorem diskRequestsIn_tick (m : Machine) :
    diskRequestsIn m.tick.value.interrupts.pending.toList = [] :=
  m.filterMap_pending_tick fun _ trap => by cases trap <;> rfl

/-- A tick applies all requests that wait. -/
theorem Stores.disk_tick (h : m.Stores requests) :
    m.tick.value.storage = { m.storage with disk := Disk.ofRequests requests } := by
  obtain ⟨served, hrequests, hdisk⟩ := h.served
  have hserved := m.devices.storage_serveAll h.loaded m.interrupts.pending.toList
  rw [← devices_tick] at hserved
  refine hserved.trans ?_
  show ({ m.storage with disk := _ } : Storage) = _
  rw [show m.devices.storage.disk = m.storage.disk from rfl, hdisk, hrequests, Disk.ofRequests,
    Disk.ofRequests, List.foldl_append]

theorem Stores.tick (h : m.Stores requests) : m.tick.value.Stores requests := by
  have hstorage := h.disk_tick
  refine ⟨?_, requests, ?_, ?_⟩
  · rw [hstorage]
    exact h.loaded
  · rw [diskRequestsIn_tick, List.append_nil]
  · rw [hstorage]

theorem Stores.settle (h : m.Stores requests) (n : Nat) :
    (m.settle n).value.2.Stores requests := by
  induction n generalizing m with
  | zero => exact h
  | succ n ih =>
    rw [Machine.settle]
    split
    · exact h
    · exact ih h.tick

theorem Stores.perform (h : m.Stores requests) {r : Request} {t : Traced (Reply × Machine)}
    (hr : m.perform r = .ok t) : t.value.2.Stores (requests ++ diskRequestsIn r.raises) := by
  cases htick : r.takesTick with
  | true =>
    cases performed hr with
    | tick =>
      rw [show diskRequestsIn (Request.raises .tick) = [] from rfl, List.append_nil]
      exact h.tick
    | step =>
      have hraised : (m.interrupt .step).Stores (requests ++ diskRequestsIn [.step]) :=
        h.of_storage_eq rfl Array.toList_push
      exact hraised.tick
    | _ => cases htick
  | false =>
    obtain ⟨-, hpending⟩ := perform_between htick hr
    exact h.of_storage_eq (storage_between htick hr) hpending

theorem Stores.after (h : m.Stores requests) (op : Operation) :
    (m.after op).value.Stores (requests ++ op.diskRequests) := by
  cases op with
  | settle limit =>
    rw [show (Operation.settle limit).diskRequests = [] from rfl, List.append_nil, Machine.after,
      value_map]
    exact h.settle limit
  | ask r =>
    rw [Machine.after]
    cases hp : m.perform r with
    | ok outcome => exact h.perform hp
    | error reason =>
      -- an interrupt is never refused
      have hnone : (Operation.ask r).diskRequests = [] := by
        cases r with
        | interrupt i => cases hp
        | _ => rfl
      rw [hnone, List.append_nil]
      exact h

theorem Stores.afterAll (h : m.Stores requests) (ops : List Operation) :
    (m.afterAll ops).value.Stores (requests ++ ops.flatMap Operation.diskRequests) := by
  induction ops generalizing m requests with
  | nil =>
    rw [List.flatMap_nil, List.append_nil]
    exact h
  | cons op ops ih =>
    rw [List.flatMap_cons, ← List.append_assoc]
    exact ih (h.after op)

theorem Booted.stores {s : Settings} (h : Booted s m) : m.Stores [] := by
  rw [h.machine_eq]
  exact ⟨rfl, [], rfl, rfl⟩

/-- A request is applied when it is serviced. -/
theorem Stores.service (h : m.Stores requests) (request : DiskRequest) :
    (m.service (.disk request)).value =
      { m with storage := { m.storage with disk := request.applyTo m.storage.disk } } := by
  have hserved := m.storage.value_service_of_loaded h.loaded (.disk request)
  show ({ m with storage := (m.storage.service (.disk request)).value } : Machine) = _
  rw [hserved]
  rfl

end

/-- **The disk is a faithful block map.** In every run the disk is the map that the requests leave
which were serviced, in the order in which they were raised, and a tick services all that wait. A
write that is refused leaves the machine as it is. -/
theorem disk_faithful {s : Settings} {booted : Traced Machine} (hboot : boot s = .ok booted)
    (ops : List Operation) :
    let m := (booted.value.afterAll ops).value
    let requests := ops.flatMap Operation.diskRequests
    (∃ served, requests = served ++ diskRequestsIn m.interrupts.pending.toList ∧
        m.storage.disk.Maps served) ∧
      m.tick.value.storage.disk.Maps requests ∧
      diskRequestsIn m.tick.value.interrupts.pending.toList = [] ∧
      (∀ key block, m.storage.disk.read key = .ok block → block.toBytes.length = 64) ∧
      ∀ key bytes,
        (∀ reason, m.storage.disk.write key bytes = .error reason →
          (m.service (.disk (.write key bytes))).value = m) ∧
        ∀ written, m.storage.disk.write key bytes = .ok written →
          (m.service (.disk (.write key bytes))).value =
            { m with storage := { m.storage with disk := written } } := by
  intro m requests
  have hm : m.Stores requests := (boot_eq_ok hboot).stores.afterAll ops
  obtain ⟨served, hrequests, hdisk⟩ := hm.served
  refine ⟨⟨served, hrequests, ?_⟩, ?_, m.diskRequestsIn_tick, fun key block _ => ?_,
    fun key bytes => ⟨fun reason hrefused => ?_, fun written hwritten => ?_⟩⟩
  · rw [hdisk]
    exact Disk.maps_ofRequests served
  · rw [hm.disk_tick]
    exact Disk.maps_ofRequests requests
  · exact Vector.length_toList
  · rw [hm.service]
    simp only [DiskRequest.applyTo, hrefused]
  · rw [hm.service]
    simp only [DiskRequest.applyTo, hwritten]

/-- A short write clears what a longer one left, and a write that is refused leaves the block. -/
theorem disk_faithful_small :
    let key : BlockKey := ⟨3, 7, 0⟩
    let ops := ([.write key [1], .format, .write key [1, 2, 3], .write key [9],
      .write key (List.replicate 65 7), .write ⟨4, 0, 0⟩ [5]] : List DiskRequest).map fun request =>
        Operation.ask (.interrupt (.disk request))
    let disk := (small.value.afterAll ops).value.tick.value.storage.disk
    boot smallSettings = .ok small ∧
      (disk.read key).map Block.toBytes = .ok (9 :: List.replicate 63 0) ∧
      disk.read ⟨4, 0, 0⟩ = .error (.noSuchBlock ⟨4, 0, 0⟩) := by
  intro key ops disk
  obtain ⟨-, hmaps, -⟩ := disk_faithful boot_small ops
  refine ⟨boot_small, ?_, ?_⟩
  · rw [hmaps.read_eq key, if_pos (by decide)]
    rfl
  · have hread := hmaps.read_eq ⟨4, 0, 0⟩
    rw [if_neg (by decide)] at hread
    cases hblock : disk.read ⟨4, 0, 0⟩ with
    | ok block =>
      rw [hblock] at hread
      cases hread
    | error reason =>
      rw [hblock] at hread
      cases hread
      rfl

end Machine

end Timeshare
