import Dift.Wire.Headers

/-!
Owns the four header formats as codecs: the writers of `ejfat_packetize.hpp`
against the parsers of `ejfat_assemble_ersap.hpp` and `ersap_grpc_assemble.hpp`.
For every format the parser returns the fields that were written, and writing
the fields that were parsed gives back the bytes. Writer and parser may run on
hosts of different byte orders. `char` is signed, so that bytes from 128 on are
negative before they are masked.
-/

namespace Dift.Wire

open Dift.Foundation

def syncBytes : Nat := 28

/-! ### Parsers and the sync writer -/

/-- A `char` as an `int`. -/
def charToInt (byte : UInt8) : Int32 := byte.toInt8.toInt32

/-- What `parseLbHeader` returns through its pointers. -/
structure LbFields where
  ll : UInt8
  bb : UInt8
  version : UInt32
  protocol : UInt32
  entropy : UInt32
  tick : UInt64
deriving DecidableEq, Repr

/-- The error is that of the exception. -/
def parseLbHeader (host : ByteOrder) (memory : Mem) (buffer : Nat) : Except String LbFields :=
  let ll := memory buffer
  let bb := memory (buffer + 1)
  if ll ≠ 'L'.toUInt8 ∨ bb ≠ 'B'.toUInt8 then .error "ersap pkt does not start with 'LB'"
  else .ok {
    ll := ll
    bb := bb
    version := (charToInt (memory (buffer + 2))).toUInt32 &&& 0xff
    protocol := (charToInt (memory (buffer + 3))).toUInt32 &&& 0xff
    entropy := (ntohs host (load16 host memory (buffer + 6))).toUInt32 &&& 0xffff
    tick := ntohll host (load64 host memory (buffer + 8)) }

/-- What `parseReHeaderOld` returns through its pointers. -/
structure ReFieldsOld where
  version : Int32
  first : Bool
  last : Bool
  dataId : UInt16
  sequence : UInt32
  tick : UInt64
deriving DecidableEq, Repr

def parseReHeaderOld (host : ByteOrder) (memory : Mem) (buffer : Nat) : ReFieldsOld where
  version := charToInt (memory buffer) >>> 4 &&& 0xf
  first := (charToInt (memory (buffer + 1)) &&& 0x02) >>> 1 ≠ 0
  last := charToInt (memory (buffer + 1)) &&& 0x01 ≠ 0
  dataId := ntohs host (load16 host memory (buffer + 2))
  sequence := ntohl host (load32 host memory (buffer + 4))
  tick := ntohll host (load64 host memory (buffer + 8))

/-- The struct `reHeader`. -/
structure ReHeader where
  version : UInt8
  reserved : Int32
  dataId : UInt16
  offset : UInt32
  length : UInt32
  tick : UInt64
deriving DecidableEq, Repr

/-- The form of `parseReHeader` that fills a struct. -/
def parseReHeaderStruct (host : ByteOrder) (memory : Mem) (buffer : Nat) : ReHeader where
  version := (charToInt (memory buffer) >>> 4 &&& 0xf).toUInt32.toUInt8
  reserved := charToInt (memory (buffer + 1)) &&& 0xff
  dataId := ntohs host (load16 host memory (buffer + 2))
  offset := ntohl host (load32 host memory (buffer + 4))
  length := ntohl host (load32 host memory (buffer + 8))
  tick := ntohll host (load64 host memory (buffer + 12))

def setSyncData (host : ByteOrder) (memory : Mem) (buffer : Nat) (version : Int) (srcId : UInt32)
    (evtNum : UInt64) (evtRate : UInt32) (nanos : UInt64) : Mem :=
  let memory := store8 memory buffer 'L'.toUInt8
  let memory := store8 memory (buffer + 1) 'C'.toUInt8
  let memory := store8 memory (buffer + 2) (UInt8.ofInt version)
  let memory := store8 memory (buffer + 3) 0
  let memory := store32 host memory (buffer + 4) (htonl host srcId)
  let memory := store64 host memory (buffer + 8) (htonll host evtNum)
  let memory := store32 host memory (buffer + 16) (htonl host evtRate)
  store64 host memory (buffer + 20) (htonll host nanos)

/-- What `parseSyncData` returns through its pointers. -/
structure SyncFields where
  version : UInt32
  srcId : UInt32
  evtNum : UInt64
  evtRate : UInt32
  nanos : UInt64
deriving DecidableEq, Repr

def parseSyncData (host : ByteOrder) (memory : Mem) (buffer : Nat) : SyncFields where
  version := (charToInt (memory (buffer + 2)) &&& 0xff).toUInt32
  srcId := ntohl host (load32 host memory (buffer + 4))
  evtNum := ntohll host (load64 host memory (buffer + 8))
  evtRate := ntohl host (load32 host memory (buffer + 16))
  nanos := ntohll host (load64 host memory (buffer + 20))

/-- The sync message as bytes. -/
def syncData (version : Int) (srcId : UInt32) (evtNum : UInt64) (evtRate : UInt32)
    (nanos : UInt64) : List UInt8 :=
  ['L'.toUInt8, 'C'.toUInt8, UInt8.ofInt version, 0] ++ Radix.bytes .big 4 srcId.toNat ++
    Radix.bytes .big 8 evtNum.toNat ++ Radix.bytes .big 4 evtRate.toNat ++
    Radix.bytes .big 8 nanos.toNat

@[simp] theorem syncData_length (version : Int) (srcId : UInt32) (evtNum : UInt64)
    (evtRate : UInt32) (nanos : UInt64) :
    (syncData version srcId evtNum evtRate nanos).length = syncBytes := by
  simp [syncData, syncBytes]

theorem setSyncData_eq (host : ByteOrder) (memory : Mem) (buffer : Nat) (version : Int)
    (srcId : UInt32) (evtNum : UInt64) (evtRate : UInt32) (nanos : UInt64) :
    setSyncData host memory buffer version srcId evtNum evtRate nanos =
      memory.write buffer (syncData version srcId evtNum evtRate nanos) := by
  simp only [setSyncData, store8, store32_htonl, store64_htonll]
  rw [write_next (by simp), write_next (by simp), write_next (by simp), write_next (by simp),
    write_next (by simp), write_next (by simp), write_next (by simp)]
  rfl

/-! ### Bytes -/

private theorem forall_byte {P : UInt8 → Prop} (each : ∀ number : Fin 256, P (UInt8.ofFin number))
    (byte : UInt8) : P byte :=
  each byte.toFin

/-- Masking undoes the extension of the sign. -/
theorem charToInt_mask (byte : UInt8) : (charToInt byte).toUInt32 &&& 0xff = byte.toUInt32 := by
  revert byte
  apply forall_byte
  decide +kernel

theorem toInt_charToInt_mask (byte : UInt8) : (charToInt byte &&& 0xff).toInt = byte.toNat := by
  revert byte
  apply forall_byte
  decide +kernel

theorem toUInt32_charToInt_mask (byte : UInt8) :
    (charToInt byte &&& 0xff).toUInt32 = byte.toUInt32 := by
  revert byte
  apply forall_byte
  decide +kernel

/-- The upper four bits, whatever the sign. -/
theorem charToInt_nibble (byte : UInt8) :
    (charToInt byte >>> 4 &&& 0xf).toInt = byte.toNat / 16 := by
  revert byte
  apply forall_byte
  decide +kernel

theorem toUInt32_charToInt_nibble (byte : UInt8) :
    (charToInt byte >>> 4 &&& 0xf).toUInt32.toNat = byte.toNat / 16 := by
  revert byte
  apply forall_byte
  decide +kernel

theorem toUInt8_charToInt_nibble (byte : UInt8) :
    (charToInt byte >>> 4 &&& 0xf).toUInt32.toUInt8 = byte >>> 4 := by
  revert byte
  apply forall_byte
  decide +kernel

/-- The byte of the two flags. -/
theorem charToInt_flags (first last : Bool) :
    (decide ((charToInt (first.toUInt8 <<< 1 + last.toUInt8) &&& 0x02) >>> 1 ≠ 0) = first) ∧
      decide (charToInt (first.toUInt8 <<< 1 + last.toUInt8) &&& 0x01 ≠ 0) = last := by
  cases first <;> cases last <;> decide

/-- A byte with only the two flags is written again from them. -/
theorem flags_charToInt {byte : UInt8} (reserved : byte &&& 0xfc = 0) :
    (decide ((charToInt byte &&& 0x02) >>> 1 ≠ 0)).toUInt8 <<< 1 +
      (decide (charToInt byte &&& 0x01 ≠ 0)).toUInt8 = byte := by
  revert reserved
  revert byte
  apply forall_byte
  decide +kernel

/-- A byte whose lower four bits are zero is written again from its upper
ones. -/
theorem ofInt_nibble {byte : UInt8} (reserved : byte &&& 0x0f = 0) :
    UInt8.ofInt ((byte.toNat : Int) / 16 * 16) = byte := by
  revert reserved
  revert byte
  apply forall_byte
  decide +kernel

theorem ofInt_toNat (byte : UInt8) : UInt8.ofInt byte.toNat = byte := by
  revert byte
  apply forall_byte
  decide +kernel

/-- A number of eight bits survives being stored in a byte. -/
theorem toNat_ofInt_byte {number : Int} (atLeast : 0 ≤ number) (below : number < 256) :
    ((UInt8.ofInt number).toNat : Int) = number := by
  rw [UInt8.ofInt, UInt8.toNat_ofNat']
  omega

/-! ### The load-balancer header -/

theorem read_lbHeader (memory : Mem) (buffer : Nat) :
    memory.read buffer lbHeaderBytes =
      [memory buffer, memory (buffer + 1), memory (buffer + 2), memory (buffer + 3),
        memory (buffer + 4), memory (buffer + 5)] ++ memory.read (buffer + 6) 2 ++
        memory.read (buffer + 8) 8 := by
  show memory.read buffer (6 + 2 + 8) = _
  rw [Memory.read_add, Memory.read_add]
  simp [Memory.read_succ, Nat.add_assoc]

theorem parseLbHeader_eq {host : ByteOrder} {memory : Mem} {buffer : Nat} {tick : UInt64}
    {version protocol entropy : Int}
    (held : memory.read buffer lbHeaderBytes = lbHeader tick version protocol entropy) :
    parseLbHeader host memory buffer = .ok {
      ll := 'L'.toUInt8
      bb := 'B'.toUInt8
      version := (UInt8.ofInt version).toUInt32
      protocol := (UInt8.ofInt protocol).toUInt32
      entropy := (UInt16.ofInt entropy).toUInt32
      tick := tick } := by
  rw [read_lbHeader, lbHeader] at held
  obtain ⟨held, heldTick⟩ := List.append_inj held (by simp)
  obtain ⟨heldBytes, heldEntropy⟩ := List.append_inj held (by simp)
  simp only [List.cons.injEq] at heldBytes
  obtain ⟨isL, isB, isVersion, isProtocol, -⟩ := heldBytes
  have mask (word : UInt16) : word.toUInt32 &&& 0xffff = word.toUInt32 := by
    apply UInt32.toNat_inj.mp
    rw [UInt32.toNat_and, UInt16.toNat_toUInt32]
    exact (Nat.and_two_pow_sub_one_eq_mod _ 16).trans (Nat.mod_eq_of_lt word.toNat_lt)
  unfold parseLbHeader
  simp only [isL, isB, isVersion, isProtocol, charToInt_mask, ntohs_eq heldEntropy, mask,
    ntohll_eq heldTick]
  rfl

/-- Writing parsed fields gives back the header. -/
theorem lbHeader_parse {host : ByteOrder} {memory : Mem} {buffer : Nat}
    (isL : memory buffer = 'L'.toUInt8) (isB : memory (buffer + 1) = 'B'.toUInt8)
    (reserved : memory (buffer + 4) = 0 ∧ memory (buffer + 5) = 0) :
    ∃ fields, parseLbHeader host memory buffer = .ok fields ∧
      lbHeader fields.tick fields.version.toNat fields.protocol.toNat fields.entropy.toNat =
        memory.read buffer lbHeaderBytes := by
  refine ⟨_, if_neg (by simp [isL, isB]), ?_⟩
  have entropy (word : UInt16) : UInt16.ofInt (word.toUInt32 &&& 0xffff).toNat = word := by
    apply UInt16.toNat_inj.mp
    rw [UInt32.toNat_and, UInt16.toNat_toUInt32]
    show (UInt16.ofInt (word.toNat &&& (2 ^ 16 - 1) : Nat)).toNat = _
    have small : word.toNat < 2 ^ 16 := word.toNat_lt
    rw [Nat.and_two_pow_sub_one_eq_mod, UInt16.ofInt, UInt16.toNat_ofNat']
    omega
  rw [read_lbHeader, lbHeader]
  simp only [charToInt_mask, entropy, bytes_ntohs, bytes_ntohll, UInt8.toNat_toUInt32,
    ofInt_toNat, isL, isB, reserved]

/-! ### The version 1 reassembly header -/

theorem read_reHeaderOld (memory : Mem) (buffer : Nat) :
    memory.read buffer reHeaderBytesOld =
      [memory buffer, memory (buffer + 1)] ++ memory.read (buffer + 2) 2 ++
        memory.read (buffer + 4) 4 ++ memory.read (buffer + 8) 8 ++
        [memory (buffer + 16), memory (buffer + 17)] := by
  show memory.read buffer (2 + 2 + 4 + 8 + 2) = _
  rw [Memory.read_add, Memory.read_add, Memory.read_add, Memory.read_add]
  simp [Memory.read_succ, Nat.add_assoc]

theorem parseReHeaderOld_eq {host : ByteOrder} {memory : Mem} {buffer : Nat} {first last : Bool}
    {tick : UInt64} {sequence : UInt32} {version : Int} {dataId : UInt16}
    (held : memory.read buffer reHeaderBytesOld =
      reHeaderOld first last tick sequence version dataId)
    (atLeast : 0 ≤ version) (below : version < 16) :
    parseReHeaderOld host memory buffer = {
      version := Int32.ofInt version
      first := first
      last := last
      dataId := dataId
      sequence := sequence
      tick := tick } := by
  rw [read_reHeaderOld, reHeaderOld] at held
  obtain ⟨held, -⟩ := List.append_inj held (by simp)
  obtain ⟨held, heldTick⟩ := List.append_inj held (by simp)
  obtain ⟨held, heldSequence⟩ := List.append_inj held (by simp)
  obtain ⟨heldBytes, heldDataId⟩ := List.append_inj held (by simp)
  simp only [List.cons.injEq] at heldBytes
  obtain ⟨isVersion, isFlags, -⟩ := heldBytes
  obtain ⟨isFirst, isLast⟩ := charToInt_flags first last
  have nibble : charToInt (UInt8.ofInt (version * 16)) >>> 4 &&& 0xf = Int32.ofInt version := by
    have stored := toNat_ofInt_byte (show 0 ≤ version * 16 by omega) (by omega)
    apply Int32.toInt_inj.mp
    rw [charToInt_nibble, Int32.toInt_ofInt_of_le (by omega) (by omega)]
    omega
  rw [parseReHeaderOld, isVersion, isFlags, ntohs_eq heldDataId, ntohl_eq heldSequence,
    ntohll_eq heldTick, isFirst, isLast, nibble]

theorem reHeaderOld_parse {host : ByteOrder} {memory : Mem} {buffer : Nat}
    (nibble : memory buffer &&& 0x0f = 0) (flags : memory (buffer + 1) &&& 0xfc = 0)
    (padding : memory (buffer + 16) = 0 ∧ memory (buffer + 17) = 0) :
    let fields := parseReHeaderOld host memory buffer
    reHeaderOld fields.first fields.last fields.tick fields.sequence fields.version.toInt
      fields.dataId = memory.read buffer reHeaderBytesOld := by
  rw [read_reHeaderOld]
  simp only [parseReHeaderOld, reHeaderOld, bytes_ntohs, bytes_ntohl, bytes_ntohll,
    charToInt_nibble, ofInt_nibble nibble, flags_charToInt flags, padding]

/-! ### The version 2 reassembly header -/

theorem read_reHeader (memory : Mem) (buffer : Nat) :
    memory.read buffer reHeaderBytes =
      [memory buffer, memory (buffer + 1)] ++ memory.read (buffer + 2) 2 ++
        memory.read (buffer + 4) 4 ++ memory.read (buffer + 8) 4 ++
        memory.read (buffer + 12) 8 := by
  show memory.read buffer (2 + 2 + 4 + 4 + 8) = _
  rw [Memory.read_add, Memory.read_add, Memory.read_add, Memory.read_add]
  simp [Memory.read_succ, Nat.add_assoc]

theorem parseReHeaderStruct_eq {host : ByteOrder} {memory : Mem} {buffer : Nat}
    {offset length : UInt32} {tick : UInt64} {version : Int} {dataId : UInt16} {reserved : Int}
    (held : memory.read buffer reHeaderBytes =
      reHeader offset length tick version dataId reserved)
    (versionAtLeast : 0 ≤ version) (versionBelow : version < 16)
    (reservedAtLeast : 0 ≤ reserved) (reservedBelow : reserved < 256) :
    parseReHeaderStruct host memory buffer = {
      version := UInt8.ofInt version
      reserved := Int32.ofInt reserved
      dataId := dataId
      offset := offset
      length := length
      tick := tick } := by
  rw [read_reHeader, reHeader] at held
  obtain ⟨held, heldTick⟩ := List.append_inj held (by simp)
  obtain ⟨held, heldLength⟩ := List.append_inj held (by simp)
  obtain ⟨held, heldOffset⟩ := List.append_inj held (by simp)
  obtain ⟨heldBytes, heldDataId⟩ := List.append_inj held (by simp)
  simp only [List.cons.injEq] at heldBytes
  obtain ⟨isVersion, isReserved, -⟩ := heldBytes
  have nibble : UInt8.ofInt (version * 16) >>> 4 = UInt8.ofInt version := by
    have stored := toNat_ofInt_byte (show 0 ≤ version * 16 by omega) (by omega)
    have small := toNat_ofInt_byte versionAtLeast (by omega)
    apply UInt8.toNat_inj.mp
    rw [UInt8.toNat_shiftRight]
    show (UInt8.ofInt (version * 16)).toNat >>> 4 = _
    rw [Nat.shiftRight_eq_div_pow]
    omega
  have whole : charToInt (UInt8.ofInt reserved) &&& 0xff = Int32.ofInt reserved := by
    apply Int32.toInt_inj.mp
    rw [toInt_charToInt_mask, toNat_ofInt_byte reservedAtLeast reservedBelow,
      Int32.toInt_ofInt_of_le (by omega) (by omega)]
  rw [parseReHeaderStruct, isVersion, isReserved, ntohs_eq heldDataId, ntohl_eq heldOffset,
    ntohl_eq heldLength, ntohll_eq heldTick, toUInt8_charToInt_nibble, nibble, whole]

theorem reHeader_parse {host : ByteOrder} {memory : Mem} {buffer : Nat}
    (nibble : memory buffer &&& 0x0f = 0) :
    let fields := parseReHeaderStruct host memory buffer
    reHeader fields.offset fields.length fields.tick fields.version.toNat fields.dataId
      fields.reserved.toInt = memory.read buffer reHeaderBytes := by
  have version : ((memory buffer >>> 4).toNat : Int) = (memory buffer).toNat / 16 := by
    rw [UInt8.toNat_shiftRight]
    show (((memory buffer).toNat >>> 4 : Nat) : Int) = _
    rw [Nat.shiftRight_eq_div_pow]
    omega
  rw [read_reHeader]
  simp only [parseReHeaderStruct, reHeader, bytes_ntohs, bytes_ntohl, bytes_ntohll,
    toUInt8_charToInt_nibble, version, ofInt_nibble nibble, toInt_charToInt_mask, ofInt_toNat]

/-! ### The sync message -/

theorem read_syncData (memory : Mem) (buffer : Nat) :
    memory.read buffer syncBytes =
      [memory buffer, memory (buffer + 1), memory (buffer + 2), memory (buffer + 3)] ++
        memory.read (buffer + 4) 4 ++ memory.read (buffer + 8) 8 ++ memory.read (buffer + 16) 4 ++
        memory.read (buffer + 20) 8 := by
  show memory.read buffer (4 + 4 + 8 + 4 + 8) = _
  rw [Memory.read_add, Memory.read_add, Memory.read_add, Memory.read_add]
  simp [Memory.read_succ, Nat.add_assoc]

theorem parseSyncData_eq {host : ByteOrder} {memory : Mem} {buffer : Nat} {version : Int}
    {srcId : UInt32} {evtNum : UInt64} {evtRate : UInt32} {nanos : UInt64}
    (held : memory.read buffer syncBytes = syncData version srcId evtNum evtRate nanos) :
    parseSyncData host memory buffer = {
      version := (UInt8.ofInt version).toUInt32
      srcId := srcId
      evtNum := evtNum
      evtRate := evtRate
      nanos := nanos } := by
  rw [read_syncData, syncData] at held
  obtain ⟨held, heldNanos⟩ := List.append_inj held (by simp)
  obtain ⟨held, heldRate⟩ := List.append_inj held (by simp)
  obtain ⟨held, heldNumber⟩ := List.append_inj held (by simp)
  obtain ⟨heldBytes, heldSource⟩ := List.append_inj held (by simp)
  simp only [List.cons.injEq] at heldBytes
  obtain ⟨-, -, isVersion, -⟩ := heldBytes
  rw [parseSyncData, isVersion, ntohl_eq heldSource, ntohll_eq heldNumber, ntohl_eq heldRate,
    ntohll_eq heldNanos, toUInt32_charToInt_mask]

theorem syncData_parse {host : ByteOrder} {memory : Mem} {buffer : Nat}
    (isL : memory buffer = 'L'.toUInt8) (isC : memory (buffer + 1) = 'C'.toUInt8)
    (reserved : memory (buffer + 3) = 0) :
    let fields := parseSyncData host memory buffer
    syncData fields.version.toNat fields.srcId fields.evtNum fields.evtRate fields.nanos =
      memory.read buffer syncBytes := by
  rw [read_syncData]
  simp only [parseSyncData, syncData, bytes_ntohl, bytes_ntohll, toUInt32_charToInt_mask,
    UInt8.toNat_toUInt32, ofInt_toNat, isL, isC, reserved]

/-! ### The codecs -/

/-- `setLbMetadata` on one host and `parseLbHeader` on another undo each
other. -/
structure LbInverse (writer reader : ByteOrder) : Prop where
  parse_set : ∀ memory buffer tick version protocol entropy, 0 ≤ version → version < 256 →
    0 ≤ protocol → protocol < 256 → 0 ≤ entropy → entropy < 2 ^ 16 → ∃ fields,
      parseLbHeader reader (setLbMetadata writer memory buffer tick version protocol entropy)
        buffer = .ok fields ∧
      fields.ll = 'L'.toUInt8 ∧ fields.bb = 'B'.toUInt8 ∧
      (fields.version.toNat : Int) = version ∧ (fields.protocol.toNat : Int) = protocol ∧
      (fields.entropy.toNat : Int) = entropy ∧ fields.tick = tick
  set_parse : ∀ (memory : Mem) buffer, memory buffer = 'L'.toUInt8 →
    memory (buffer + 1) = 'B'.toUInt8 → memory (buffer + 4) = 0 → memory (buffer + 5) = 0 →
    ∃ fields, parseLbHeader reader memory buffer = .ok fields ∧ ∀ other start,
      (setLbMetadata writer other start fields.tick fields.version.toNat fields.protocol.toNat
        fields.entropy.toNat).read start lbHeaderBytes = memory.read buffer lbHeaderBytes

/-- `setReMetadataOld` and `parseReHeaderOld`. -/
structure ReOldInverse (writer reader : ByteOrder) : Prop where
  parse_set : ∀ memory buffer first last tick sequence version dataId, 0 ≤ version →
    version < 16 →
    let fields := parseReHeaderOld reader
      (setReMetadataOld writer memory buffer first last tick sequence version dataId) buffer
    fields.version.toInt = version ∧ fields.first = first ∧ fields.last = last ∧
      fields.dataId = dataId ∧ fields.sequence = sequence ∧ fields.tick = tick
  set_parse : ∀ (memory : Mem) buffer, memory buffer &&& 0x0f = 0 →
    memory (buffer + 1) &&& 0xfc = 0 → memory (buffer + 16) = 0 → memory (buffer + 17) = 0 →
    let fields := parseReHeaderOld reader memory buffer
    ∀ other start, (setReMetadataOld writer other start fields.first fields.last fields.tick
      fields.sequence fields.version.toInt fields.dataId).read start reHeaderBytesOld =
        memory.read buffer reHeaderBytesOld

/-- `setReMetadata` and the struct form of `parseReHeader`. -/
structure ReInverse (writer reader : ByteOrder) : Prop where
  parse_set : ∀ memory buffer offset length tick version dataId reserved, 0 ≤ version →
    version < 16 → 0 ≤ reserved → reserved < 256 →
    let fields := parseReHeaderStruct reader
      (setReMetadataReserved writer memory buffer offset length tick version dataId reserved)
      buffer
    (fields.version.toNat : Int) = version ∧ fields.reserved.toInt = reserved ∧
      fields.dataId = dataId ∧ fields.offset = offset ∧ fields.length = length ∧
      fields.tick = tick
  set_parse : ∀ (memory : Mem) buffer, memory buffer &&& 0x0f = 0 →
    let fields := parseReHeaderStruct reader memory buffer
    ∀ other start, (setReMetadataReserved writer other start fields.offset fields.length
      fields.tick fields.version.toNat fields.dataId fields.reserved.toInt).read start
        reHeaderBytes = memory.read buffer reHeaderBytes

/-- `setSyncData` and `parseSyncData`. -/
structure SyncInverse (writer reader : ByteOrder) : Prop where
  parse_set : ∀ memory buffer version srcId evtNum evtRate nanos, 0 ≤ version → version < 256 →
    let fields := parseSyncData reader
      (setSyncData writer memory buffer version srcId evtNum evtRate nanos) buffer
    (fields.version.toNat : Int) = version ∧ fields.srcId = srcId ∧ fields.evtNum = evtNum ∧
      fields.evtRate = evtRate ∧ fields.nanos = nanos
  set_parse : ∀ (memory : Mem) buffer, memory buffer = 'L'.toUInt8 →
    memory (buffer + 1) = 'C'.toUInt8 → memory (buffer + 3) = 0 →
    let fields := parseSyncData reader memory buffer
    ∀ other start, (setSyncData writer other start fields.version.toNat fields.srcId
      fields.evtNum fields.evtRate fields.nanos).read start syncBytes =
        memory.read buffer syncBytes

/-- A block that was just written is read back. -/
theorem read_written (memory : Mem) (start : Nat) {block : List UInt8} {size : Nat}
    (length : block.length = size) : (memory.write start block).read start size = block := by
  rw [← length]
  exact Memory.read_write_self _ _ _

theorem lbInverse (writer reader : ByteOrder) : LbInverse writer reader where
  parse_set := by
    intro memory buffer tick version protocol entropy versionAtLeast versionBelow
      protocolAtLeast protocolBelow entropyAtLeast entropyBelow
    have held := read_written memory buffer (lbHeader_length tick version protocol entropy)
    rw [← setLbMetadata_eq writer] at held
    refine ⟨_, parseLbHeader_eq held, rfl, rfl, ?_, ?_, ?_, rfl⟩
    · rw [UInt8.toNat_toUInt32]
      exact toNat_ofInt_byte versionAtLeast versionBelow
    · rw [UInt8.toNat_toUInt32]
      exact toNat_ofInt_byte protocolAtLeast protocolBelow
    · rw [UInt16.toNat_toUInt32, UInt16.ofInt, UInt16.toNat_ofNat']
      omega
  set_parse := by
    intro memory buffer isL isB fourth fifth
    obtain ⟨fields, parses, same⟩ := lbHeader_parse isL isB ⟨fourth, fifth⟩
    refine ⟨fields, parses, fun other start => ?_⟩
    rw [setLbMetadata_eq, read_written _ _ (lbHeader_length _ _ _ _), same]

theorem reOldInverse (writer reader : ByteOrder) : ReOldInverse writer reader where
  parse_set := by
    intro memory buffer first last tick sequence version dataId atLeast below
    dsimp only
    rw [parseReHeaderOld_eq _ atLeast below]
    · exact ⟨Int32.toInt_ofInt_of_le (by omega) (by omega), rfl, rfl, rfl, rfl, rfl⟩
    · rw [setReMetadataOld_eq]
      exact read_written _ _ (reHeaderOld_length _ _ _ _ _ _)
  set_parse := by
    intro memory buffer nibble flags first second fields other start
    rw [setReMetadataOld_eq, read_written _ _ (reHeaderOld_length _ _ _ _ _ _)]
    exact reHeaderOld_parse nibble flags ⟨first, second⟩

theorem reInverse (writer reader : ByteOrder) : ReInverse writer reader where
  parse_set := by
    intro memory buffer offset length tick version dataId reserved versionAtLeast versionBelow
      reservedAtLeast reservedBelow
    dsimp only
    rw [parseReHeaderStruct_eq _ versionAtLeast versionBelow reservedAtLeast reservedBelow]
    · exact ⟨toNat_ofInt_byte versionAtLeast (by omega),
        Int32.toInt_ofInt_of_le (by omega) (by omega), rfl, rfl, rfl, rfl⟩
    · rw [setReMetadataReserved_eq]
      exact read_written _ _ (reHeader_length _ _ _ _ _ _)
  set_parse := by
    intro memory buffer nibble fields other start
    rw [setReMetadataReserved_eq, read_written _ _ (reHeader_length _ _ _ _ _ _)]
    exact reHeader_parse nibble

theorem syncInverse (writer reader : ByteOrder) : SyncInverse writer reader where
  parse_set := by
    intro memory buffer version srcId evtNum evtRate nanos atLeast below
    dsimp only
    rw [parseSyncData_eq _]
    · rw [UInt8.toNat_toUInt32]
      exact ⟨toNat_ofInt_byte atLeast below, rfl, rfl, rfl, rfl⟩
    · rw [setSyncData_eq]
      exact read_written _ _ (syncData_length _ _ _ _ _)
  set_parse := by
    intro memory buffer isL isC reserved fields other start
    rw [setSyncData_eq, read_written _ _ (syncData_length _ _ _ _ _)]
    exact syncData_parse isL isC reserved

/-- All four codecs are inverse to each other, for any two hosts. -/
theorem codecs_inverse (writer reader : ByteOrder) :
    LbInverse writer reader ∧ ReOldInverse writer reader ∧ ReInverse writer reader ∧
      SyncInverse writer reader :=
  ⟨lbInverse writer reader, reOldInverse writer reader, reInverse writer reader,
    syncInverse writer reader⟩

end Dift.Wire
