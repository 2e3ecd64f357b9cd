import Dift.Wire.HostOrder

/-!
Owns the load-balancer header and both versions of the reassembly header:
the writers of `ejfat_packetize.hpp` and the version 2 parser of
`ejfat_assemble_ersap.hpp`. Writers act on memory the way the source does, one
byte or one converted word at a time; each is then shown to write one fixed
block of bytes, whatever the host's order and the memory before.
-/

namespace Dift.Wire

open Dift.Foundation

def lbHeaderBytes : Nat := 16
def reHeaderBytes : Nat := 20
def headerBytes : Nat := 36
def reHeaderBytesOld : Nat := 18
def headerBytesOld : Nat := 34

/-! ### Writers -/

/-- Store one byte. -/
def store8 (memory : Mem) (pointer : Nat) (byte : UInt8) : Mem :=
  memory.write pointer [byte]

def setLbMetadata (host : ByteOrder) (memory : Mem) (buffer : Nat) (tick : UInt64)
    (version protocol entropy : Int) : Mem :=
  let memory := store8 memory buffer 'L'.toUInt8
  let memory := store8 memory (buffer + 1) 'B'.toUInt8
  let memory := store8 memory (buffer + 2) (UInt8.ofInt version)
  let memory := store8 memory (buffer + 3) (UInt8.ofInt protocol)
  let memory := store8 memory (buffer + 4) 0
  let memory := store8 memory (buffer + 5) 0
  let memory := store16 host memory (buffer + 6) (htons host (UInt16.ofInt entropy))
  store64 host memory (buffer + 8) (htonll host tick)

def setReMetadataOld (host : ByteOrder) (memory : Mem) (buffer : Nat) (first last : Bool)
    (tick : UInt64) (offset : UInt32) (version : Int) (dataId : UInt16) : Mem :=
  let memory := store8 memory buffer (UInt8.ofInt (version * 16))
  let memory := store8 memory (buffer + 1) (first.toUInt8 <<< 1 + last.toUInt8)
  let memory := store16 host memory (buffer + 2) (htons host dataId)
  let memory := store32 host memory (buffer + 4) (htonl host offset)
  let memory := store64 host memory (buffer + 8) (htonll host tick)
  let memory := store8 memory (buffer + 17) 0
  store8 memory (buffer + 16) 0

/-- The writer of the version 2 header that sets the reserved byte. -/
def setReMetadataReserved (host : ByteOrder) (memory : Mem) (buffer : Nat) (offset length : UInt32)
    (tick : UInt64) (version : Int) (dataId : UInt16) (reserved : Int) : Mem :=
  let memory := store8 memory buffer (UInt8.ofInt (version * 16))
  let memory := store8 memory (buffer + 1) (UInt8.ofInt reserved)
  let memory := store16 host memory (buffer + 2) (htons host dataId)
  let memory := store32 host memory (buffer + 4) (htonl host offset)
  let memory := store32 host memory (buffer + 8) (htonl host length)
  store64 host memory (buffer + 12) (htonll host tick)

def setReMetadata (host : ByteOrder) (memory : Mem) (buffer : Nat) (offset length : UInt32)
    (tick : UInt64) (version : Int) (dataId : UInt16) : Mem :=
  let memory := store8 memory buffer (UInt8.ofInt (version * 16))
  let memory := store8 memory (buffer + 1) 0
  let memory := store16 host memory (buffer + 2) (htons host dataId)
  let memory := store32 host memory (buffer + 4) (htonl host offset)
  let memory := store32 host memory (buffer + 8) (htonl host length)
  store64 host memory (buffer + 12) (htonll host tick)

/-! ### The bytes they write -/

/-- The load-balancer header as bytes. -/
def lbHeader (tick : UInt64) (version protocol entropy : Int) : List UInt8 :=
  ['L'.toUInt8, 'B'.toUInt8, UInt8.ofInt version, UInt8.ofInt protocol, 0, 0] ++
    Radix.bytes .big 2 (UInt16.ofInt entropy).toNat ++ Radix.bytes .big 8 tick.toNat

/-- The version 1 reassembly header as bytes. -/
def reHeaderOld (first last : Bool) (tick : UInt64) (offset : UInt32) (version : Int)
    (dataId : UInt16) : List UInt8 :=
  [UInt8.ofInt (version * 16), first.toUInt8 <<< 1 + last.toUInt8] ++
    Radix.bytes .big 2 dataId.toNat ++ Radix.bytes .big 4 offset.toNat ++
    Radix.bytes .big 8 tick.toNat ++ [0, 0]

/-- The version 2 reassembly header as bytes. -/
def reHeader (offset length : UInt32) (tick : UInt64) (version : Int) (dataId : UInt16)
    (reserved : Int) : List UInt8 :=
  [UInt8.ofInt (version * 16), UInt8.ofInt reserved] ++ Radix.bytes .big 2 dataId.toNat ++
    Radix.bytes .big 4 offset.toNat ++ Radix.bytes .big 4 length.toNat ++
    Radix.bytes .big 8 tick.toNat

@[simp] theorem lbHeader_length (tick : UInt64) (version protocol entropy : Int) :
    (lbHeader tick version protocol entropy).length = lbHeaderBytes := by
  simp [lbHeader, lbHeaderBytes]

@[simp] theorem reHeaderOld_length (first last : Bool) (tick : UInt64) (offset : UInt32)
    (version : Int) (dataId : UInt16) :
    (reHeaderOld first last tick offset version dataId).length = reHeaderBytesOld := by
  simp [reHeaderOld, reHeaderBytesOld]

@[simp] theorem reHeader_length (offset length : UInt32) (tick : UInt64) (version : Int)
    (dataId : UInt16) (reserved : Int) :
    (reHeader offset length tick version dataId reserved).length = reHeaderBytes := by
  simp [reHeader, reHeaderBytes]

/-- A write that starts where a block ends extends the block. -/
theorem write_next {memory : Mem} {start next : Nat} {block more : List UInt8}
    (adjacent : next = start + block.length) :
    (memory.write start block).write next more = memory.write start (block ++ more) := by
  rw [adjacent, Memory.write_append]

theorem setLbMetadata_eq (host : ByteOrder) (memory : Mem) (buffer : Nat) (tick : UInt64)
    (version protocol entropy : Int) :
    setLbMetadata host memory buffer tick version protocol entropy =
      memory.write buffer (lbHeader tick version protocol entropy) := by
  simp only [setLbMetadata, store8, store16_htons, store64_htonll]
  rw [write_next (by simp), write_next (by simp), write_next (by simp), write_next (by simp),
    write_next (by simp), write_next (by simp), write_next (by simp)]
  rfl

theorem setReMetadataReserved_eq (host : ByteOrder) (memory : Mem) (buffer : Nat)
    (offset length : UInt32) (tick : UInt64) (version : Int) (dataId : UInt16) (reserved : Int) :
    setReMetadataReserved host memory buffer offset length tick version dataId reserved =
      memory.write buffer (reHeader offset length tick version dataId reserved) := by
  simp only [setReMetadataReserved, store8, store16_htons, store32_htonl, store64_htonll]
  rw [write_next (by simp), write_next (by simp), write_next (by simp), write_next (by simp),
    write_next (by simp)]
  rfl

/-- The plain writer is the other one with a reserved byte of zero. -/
theorem setReMetadata_eq (host : ByteOrder) (memory : Mem) (buffer : Nat)
    (offset length : UInt32) (tick : UInt64) (version : Int) (dataId : UInt16) :
    setReMetadata host memory buffer offset length tick version dataId =
      memory.write buffer (reHeader offset length tick version dataId 0) :=
  setReMetadataReserved_eq host memory buffer offset length tick version dataId 0

theorem setReMetadataOld_eq (host : ByteOrder) (memory : Mem) (buffer : Nat) (first last : Bool)
    (tick : UInt64) (offset : UInt32) (version : Int) (dataId : UInt16) :
    setReMetadataOld host memory buffer first last tick offset version dataId =
      memory.write buffer (reHeaderOld first last tick offset version dataId) := by
  -- The padding is zeroed from the back.
  have padding (inner : Mem) : (inner.write (buffer + 17) [0]).write (buffer + 16) [0] =
      (inner.write (buffer + 16) [0]).write (buffer + 17) [0] :=
    Memory.write_comm inner (by simp)
  simp only [setReMetadataOld, store8, store16_htons, store32_htonl, store64_htonll]
  rw [padding, write_next (by simp), write_next (by simp), write_next (by simp),
    write_next (by simp), write_next (by simp), write_next (by simp)]
  simp [reHeaderOld]

/-! ### The version 2 parser -/

/-- What `parseReHeader` returns through its pointers. -/
structure ReFields where
  version : Nat
  dataId : UInt16
  offset : UInt32
  length : UInt32
  tick : UInt64
deriving DecidableEq, Repr

def parseReHeader (host : ByteOrder) (memory : Mem) (buffer : Nat) : ReFields where
  version := ((memory buffer).toNat / 16) % 16
  dataId := ntohs host (load16 host memory (buffer + 2))
  offset := ntohl host (load32 host memory (buffer + 4))
  length := ntohl host (load32 host memory (buffer + 8))
  tick := ntohll host (load64 host memory (buffer + 12))

/-- The parser returns the fields of a header that stands in memory. -/
theorem parseReHeader_reHeader {host : ByteOrder} {memory : Mem} {buffer : Nat}
    {offset length : UInt32} {tick : UInt64} {version : Int} {dataId : UInt16} {reserved : Int}
    (held : memory.read buffer reHeaderBytes =
      reHeader offset length tick version dataId reserved)
    (atLeast : 0 ≤ version) (below : version < 16) :
    parseReHeader host memory buffer = ⟨version.toNat, dataId, offset, length, tick⟩ := by
  simp only [reHeader, List.append_assoc] at held
  rcases Memory.read_split held with ⟨heldLetters, held⟩
  rcases Memory.read_split held with ⟨heldDataId, held⟩
  rcases Memory.read_split held with ⟨heldOffset, held⟩
  rcases Memory.read_split held with ⟨heldLength, heldTick⟩
  simp only [Radix.bytes_length, List.length_cons, List.length_nil, Nat.add_assoc,
    Nat.reduceAdd] at heldLetters heldDataId heldOffset heldLength heldTick
  have heldVersion : memory buffer = UInt8.ofInt (version * 16) := by
    simpa [Memory.read, List.range_succ] using congrArg (fun held => held.head?) heldLetters
  have nibble : (UInt8.ofInt (version * 16)).toNat / 16 % 16 = version.toNat := by
    rw [UInt8.ofInt, UInt8.toNat_ofNat']
    omega
  have dataIdSmall : dataId.toNat < 256 ^ 2 := dataId.toNat_lt
  have offsetSmall : offset.toNat < 256 ^ 4 := offset.toNat_lt
  have lengthSmall : length.toNat < 256 ^ 4 := length.toNat_lt
  have tickSmall : tick.toNat < 256 ^ 8 := tick.toNat_lt
  rw [parseReHeader, ntohs_load16, ntohl_load32, ntohl_load32, ntohll_load64, heldVersion,
    heldDataId, heldOffset, heldLength, heldTick, nibble, Radix.value_bytes_of_lt _ dataIdSmall,
    Radix.value_bytes_of_lt _ offsetSmall, Radix.value_bytes_of_lt _ lengthSmall,
    Radix.value_bytes_of_lt _ tickSmall]
  simp

end Dift.Wire
