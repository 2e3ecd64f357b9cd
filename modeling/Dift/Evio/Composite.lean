import Dift.Evio.Strings
import Dift.Evio.Structures

/-!
Owns `CompositeData::Data`, the collection of values for a composite item, with
all its ways to add to it. Every addition extends parallel lists of items and
types, counts bytes modulo 2^32 and keeps the padding. What the collection holds
is described by the list of single additions, and a vector is the same as its
elements one by one. `float` and `double` values are kept by their bits, and a
string is the list of its bytes.
-/

namespace Dift.Evio.Composite

/-! ### The collection -/

/-- The union, by the member that was set last. -/
inductive SingleMember where
  | flt (bits : UInt32)
  | dbl (bits : UInt64)
  | ul64 (value : UInt64)
  | l64 (value : Int64)
  | ui32 (value : UInt32)
  | i32 (value : Int32)
  | us16 (value : UInt16)
  | s16 (value : Int16)
  | ub8 (value : UInt8)
  | b8 (value : Int8)
  | str (value : Bool)
deriving DecidableEq, Repr

structure DataItem where
  item : SingleMember := .flt 0
  strVec : List (List UInt8) := []
deriving DecidableEq, Repr

structure Data where
  dataBytes : UInt32 := 0
  paddingBytes : UInt32 := 0
  dataItems : List DataItem := []
  dataTypes : List DataType := []
  Nlist : List Int32 := []
  nlist : List Int16 := []
  mlist : List Int8 := []
deriving DecidableEq, Repr

namespace Data

/-- `pads[4] = {0,3,2,1}`. -/
def pads : List UInt32 := [0, 3, 2, 1]

def addBytesToData (data : Data) (bytes : UInt32) : Data :=
  let dataBytes := data.dataBytes + bytes
  { data with dataBytes := dataBytes, paddingBytes := pads.getD (dataBytes % 4).toNat 0 }

def getDataSize (data : Data) : UInt32 := data.dataBytes + data.paddingBytes

/-- The two `push_back` calls. -/
def pushBack (data : Data) (mem : DataItem) (type : DataType) : Data :=
  { data with dataItems := data.dataItems ++ [mem], dataTypes := data.dataTypes ++ [type] }

/-- What the functions that add one number have in common. -/
def addScalar (data : Data) (member : SingleMember) (type : DataType) (bytes : UInt32) : Data :=
  (data.pushBack { item := member } type).addBytesToData bytes

/-- What the functions that add a vector of numbers have in common: the bytes are
added once, for the whole vector. -/
def addVector {ν : Type} (data : Data) (member : ν → SingleMember) (type : DataType)
    (width : UInt64) (values : List ν) : Data :=
  (values.foldl (fun data value => data.pushBack { item := member value } type) data).addBytesToData
    (width * UInt64.ofNat values.length).toUInt32

def addN (data : Data) (N : UInt32) : Data :=
  { data with Nlist := data.Nlist ++ [N.toInt32] }.addScalar (.ui32 N) .uint32 4

def addn (data : Data) (n : UInt16) : Data :=
  { data with nlist := data.nlist ++ [n.toInt16] }.addScalar (.us16 n) .ushort16 2

def addm (data : Data) (m : UInt8) : Data :=
  { data with mlist := data.mlist ++ [m.toInt8] }.addScalar (.ub8 m) .uchar8 1

def addInt (data : Data) (i : Int32) : Data := data.addScalar (.i32 i) .int32 4

def addIntVector (data : Data) (i : List Int32) : Data := data.addVector .i32 .int32 4 i

def addUint (data : Data) (i : UInt32) : Data := data.addScalar (.ui32 i) .uint32 4

def addUintVector (data : Data) (i : List UInt32) : Data := data.addVector .ui32 .uint32 4 i

def addShort (data : Data) (s : Int16) : Data := data.addScalar (.s16 s) .short16 2

def addShortVector (data : Data) (s : List Int16) : Data := data.addVector .s16 .short16 2 s

def addUShort (data : Data) (s : UInt16) : Data := data.addScalar (.us16 s) .ushort16 2

def addUShortVector (data : Data) (s : List UInt16) : Data := data.addVector .us16 .ushort16 2 s

def addLong (data : Data) (l : Int64) : Data := data.addScalar (.l64 l) .long64 8

def addLongVector (data : Data) (l : List Int64) : Data := data.addVector .l64 .long64 8 l

def addULong (data : Data) (l : UInt64) : Data := data.addScalar (.ul64 l) .ulong64 8

def addULongVector (data : Data) (l : List UInt64) : Data := data.addVector .ul64 .ulong64 8 l

def addChar (data : Data) (b : Int8) : Data := data.addScalar (.b8 b) .char8 1

def addCharVector (data : Data) (b : List Int8) : Data := data.addVector .b8 .char8 1 b

def addUChar (data : Data) (b : UInt8) : Data := data.addScalar (.ub8 b) .uchar8 1

def addUCharVector (data : Data) (b : List UInt8) : Data := data.addVector .ub8 .uchar8 1 b

def addFloat (data : Data) (f : UInt32) : Data := data.addScalar (.flt f) .float32 4

def addFloatVector (data : Data) (f : List UInt32) : Data := data.addVector .flt .float32 4 f

def addDouble (data : Data) (d : UInt64) : Data := data.addScalar (.dbl d) .double64 8

def addDoubleVector (data : Data) (d : List UInt64) : Data := data.addVector .dbl .double64 8 d

/-- `addString` of a vector. -/
def addStringVector (data : Data) (s : List (List UInt8)) : Data :=
  (data.pushBack { item := .str true, strVec := s } .charstar8).addBytesToData
    (Strings.stringsToRawSize s)

/-- `addString` of a single string, which becomes a vector of one. -/
def addString (data : Data) (s : List UInt8) : Data :=
  let v := [s]
  (data.pushBack { item := .str true, strVec := v } .charstar8).addBytesToData
    (Strings.stringsToRawSize v)

end Data

/-! ### Sequences of additions -/

/-- The functions that add one item. -/
inductive Add where
  | N (value : UInt32)
  | n (value : UInt16)
  | m (value : UInt8)
  | int (i : Int32)
  | uint (i : UInt32)
  | short (s : Int16)
  | uShort (s : UInt16)
  | long (l : Int64)
  | uLong (l : UInt64)
  | char (b : Int8)
  | uChar (b : UInt8)
  | float (f : UInt32)
  | double (d : UInt64)
  | string (s : List UInt8)
  | stringVector (s : List (List UInt8))

/-- The functions that add a vector of numbers. -/
inductive AddVector where
  | int (i : List Int32)
  | uint (i : List UInt32)
  | short (s : List Int16)
  | uShort (s : List UInt16)
  | long (l : List Int64)
  | uLong (l : List UInt64)
  | char (b : List Int8)
  | uChar (b : List UInt8)
  | float (f : List UInt32)
  | double (d : List UInt64)

inductive AddOperation where
  | single (add : Add)
  | vector (adds : AddVector)

def Add.apply (data : Data) : Add → Data
  | .N value => data.addN value
  | .n value => data.addn value
  | .m value => data.addm value
  | .int i => data.addInt i
  | .uint i => data.addUint i
  | .short s => data.addShort s
  | .uShort s => data.addUShort s
  | .long l => data.addLong l
  | .uLong l => data.addULong l
  | .char b => data.addChar b
  | .uChar b => data.addUChar b
  | .float f => data.addFloat f
  | .double d => data.addDouble d
  | .string s => data.addString s
  | .stringVector s => data.addStringVector s

def AddVector.apply (data : Data) : AddVector → Data
  | .int i => data.addIntVector i
  | .uint i => data.addUintVector i
  | .short s => data.addShortVector s
  | .uShort s => data.addUShortVector s
  | .long l => data.addLongVector l
  | .uLong l => data.addULongVector l
  | .char b => data.addCharVector b
  | .uChar b => data.addUCharVector b
  | .float f => data.addFloatVector f
  | .double d => data.addDoubleVector d

/-- The elements of the vector, each added alone. -/
def AddVector.elements : AddVector → List Add
  | .int i => i.map .int
  | .uint i => i.map .uint
  | .short s => s.map .short
  | .uShort s => s.map .uShort
  | .long l => l.map .long
  | .uLong l => l.map .uLong
  | .char b => b.map .char
  | .uChar b => b.map .uChar
  | .float f => f.map .float
  | .double d => d.map .double

def AddOperation.apply (data : Data) : AddOperation → Data
  | .single add => add.apply data
  | .vector adds => adds.apply data

/-- The single additions that an operation stands for. -/
def AddOperation.adds : AddOperation → List Add
  | .single add => [add]
  | .vector adds => adds.elements

/-- Additions to a fresh object. -/
def run (operations : List AddOperation) : Data :=
  operations.foldl AddOperation.apply {}

/-! ### What is held -/

/-- The type of an item. -/
def DataItem.type (mem : DataItem) : DataType :=
  match mem.item with
  | .flt _ => .float32
  | .dbl _ => .double64
  | .ul64 _ => .ulong64
  | .l64 _ => .long64
  | .ui32 _ => .uint32
  | .i32 _ => .int32
  | .us16 _ => .ushort16
  | .s16 _ => .short16
  | .ub8 _ => .uchar8
  | .b8 _ => .char8
  | .str _ => .charstar8

/-- The bytes of an item when it is written. -/
def DataItem.serializedSize (mem : DataItem) : Nat :=
  match mem.item with
  | .flt _ | .ui32 _ | .i32 _ => 4
  | .dbl _ | .ul64 _ | .l64 _ => 8
  | .us16 _ | .s16 _ => 2
  | .ub8 _ | .b8 _ => 1
  | .str _ => (Strings.stringsToRawSize mem.strVec).toNat

/-- The item that is added. -/
def Add.item : Add → DataItem
  | .N value => { item := .ui32 value }
  | .n value => { item := .us16 value }
  | .m value => { item := .ub8 value }
  | .int i => { item := .i32 i }
  | .uint i => { item := .ui32 i }
  | .short s => { item := .s16 s }
  | .uShort s => { item := .us16 s }
  | .long l => { item := .l64 l }
  | .uLong l => { item := .ul64 l }
  | .char b => { item := .b8 b }
  | .uChar b => { item := .ub8 b }
  | .float f => { item := .flt f }
  | .double d => { item := .dbl d }
  | .string s => { item := .str true, strVec := [s] }
  | .stringVector s => { item := .str true, strVec := s }

/-- A value given to `addN`, as a signed number of the same width. -/
def Add.signedN? : Add → Option Int32
  | .N value => some value.toInt32
  | _ => none

@[inherit_doc Add.signedN?]
def Add.signedn? : Add → Option Int16
  | .n value => some value.toInt16
  | _ => none

@[inherit_doc Add.signedN?]
def Add.signedm? : Add → Option Int8
  | .m value => some value.toInt8
  | _ => none

/-- The padding completes a 4-byte boundary. -/
def Padded (data : Data) : Prop :=
  data.paddingBytes = Data.pads.getD (data.dataBytes % 4).toNat 0

/-- The collection is what these single additions make of a fresh one. -/
structure Holds (data : Data) (adds : List Add) : Prop where
  items : data.dataItems = adds.map Add.item
  types : data.dataTypes = adds.map fun add => add.item.type
  upperN : data.Nlist = adds.filterMap Add.signedN?
  lowerN : data.nlist = adds.filterMap Add.signedn?
  lowerM : data.mlist = adds.filterMap Add.signedm?
  bytes : data.dataBytes = UInt32.ofNat (adds.map fun add => add.item.serializedSize).sum
  padded : Padded data

/-! ### One addition -/

theorem addBytesToData_padded (data : Data) (bytes : UInt32) :
    Padded (data.addBytesToData bytes) := rfl

theorem addScalar_padded (data : Data) (member : SingleMember) (type : DataType)
    (bytes : UInt32) : Padded (data.addScalar member type bytes) := rfl

theorem addBytesToData_zero {data : Data} (padded : Padded data) :
    data.addBytesToData 0 = data := by
  rw [Data.addBytesToData, UInt32.add_zero, ← padded]

/-- Bytes may be added in parts, and items in between. -/
theorem addBytesToData_pushBack (data : Data) (bytes : UInt32) (mem : DataItem)
    (type : DataType) :
    (data.addBytesToData bytes).pushBack mem type =
      (data.pushBack mem type).addBytesToData bytes := rfl

theorem addBytesToData_add (data : Data) (first second : UInt32) :
    (data.addBytesToData first).addBytesToData second = data.addBytesToData (first + second) := by
  simp only [Data.addBytesToData, UInt32.add_assoc]

/-- Every function that adds one item extends the parallel lists by it, the list
of multipliers it belongs to, and the count of bytes. -/
theorem Add.apply_eq (data : Data) (add : Add) :
    add.apply data =
      ({ data with
        Nlist := data.Nlist ++ add.signedN?.toList
        nlist := data.nlist ++ add.signedn?.toList
        mlist := data.mlist ++ add.signedm?.toList }.pushBack add.item
          add.item.type).addBytesToData (UInt32.ofNat add.item.serializedSize) := by
  cases add
  case string => simp [apply, Data.addString, item, DataItem.type, DataItem.serializedSize,
    signedN?, signedn?, signedm?]
  case stringVector => simp [apply, Data.addStringVector, item, DataItem.type,
    DataItem.serializedSize, signedN?, signedn?, signedm?]
  all_goals
    simp only [signedN?, signedn?, signedm?, Option.toList_none, Option.toList_some,
      List.append_nil]
    rfl

/-- One addition keeps the description. -/
theorem Holds.add {data : Data} {adds : List Add} (holds : Holds data adds) (add : Add) :
    Holds (add.apply data) (adds ++ [add]) where
  items := by
    rw [List.map_append, ← holds.items, add.apply_eq]
    rfl
  types := by
    rw [List.map_append, ← holds.types, add.apply_eq]
    rfl
  upperN := by
    rw [List.filterMap_append, ← holds.upperN, add.apply_eq]
    cases given : add.signedN? <;> simp [given, Data.pushBack, Data.addBytesToData]
  lowerN := by
    rw [List.filterMap_append, ← holds.lowerN, add.apply_eq]
    cases given : add.signedn? <;> simp [given, Data.pushBack, Data.addBytesToData]
  lowerM := by
    rw [List.filterMap_append, ← holds.lowerM, add.apply_eq]
    cases given : add.signedm? <;> simp [given, Data.pushBack, Data.addBytesToData]
  bytes := by
    rw [List.map_append, List.sum_append, UInt32.ofNat_add, ← holds.bytes, add.apply_eq]
    simp [Data.pushBack, Data.addBytesToData]
  padded := by
    rw [add.apply_eq]
    exact addBytesToData_padded _ _

theorem Holds.fresh : Holds {} [] where
  items := rfl
  types := rfl
  upperN := rfl
  lowerN := rfl
  lowerM := rfl
  bytes := rfl
  padded := rfl

theorem Holds.addAll {data : Data} {adds : List Add} (holds : Holds data adds)
    (more : List Add) : Holds (more.foldl Add.apply data) (adds ++ more) := by
  induction more generalizing data adds with
  | nil => rwa [List.append_nil]
  | cons add more inductionHypothesis =>
      rw [List.foldl_cons, List.append_cons]
      exact inductionHypothesis (holds.add add)

/-! ### Vectors -/

section Vector

variable {ν : Type} {member : ν → SingleMember} {type : DataType} {width : UInt64}

/-- The byte count of a vector is that of its first element and of the rest. -/
theorem toUInt32_mul_succ (width : UInt64) (count : Nat) :
    (width * UInt64.ofNat (count + 1)).toUInt32 =
      width.toUInt32 + (width * UInt64.ofNat count).toUInt32 := by
  rw [UInt64.ofNat_add, UInt64.mul_add, UInt64.toUInt32_add, UInt32.add_comm]
  simp

theorem foldl_pushBack_addBytesToData (data : Data) (bytes : UInt32) (values : List ν) :
    values.foldl (fun data value => data.pushBack { item := member value } type)
        (data.addBytesToData bytes) =
      (values.foldl (fun data value => data.pushBack { item := member value } type)
        data).addBytesToData bytes := by
  induction values generalizing data with
  | nil => rfl
  | cons value values inductionHypothesis =>
      rw [List.foldl_cons, addBytesToData_pushBack, inductionHypothesis, List.foldl_cons]

/-- Adding a vector is adding its elements one by one. -/
theorem addVector_eq_foldl {data : Data} (padded : Padded data) (values : List ν) :
    data.addVector member type width values =
      values.foldl (fun data value => data.addScalar (member value) type width.toUInt32)
        data := by
  induction values generalizing data with
  | nil =>
      rw [Data.addVector, List.foldl_nil, List.foldl_nil, List.length_nil]
      exact (congrArg _ (by simp)).trans (addBytesToData_zero padded)
  | cons value values inductionHypothesis =>
      rw [List.foldl_cons, ← inductionHypothesis (addScalar_padded data _ _ _), Data.addVector,
        Data.addVector, Data.addScalar, foldl_pushBack_addBytesToData, addBytesToData_add,
        List.foldl_cons, List.length_cons, toUInt32_mul_succ]

end Vector

theorem AddVector.apply_eq_foldl {data : Data} (padded : Padded data) (adds : AddVector) :
    adds.apply data = adds.elements.foldl Add.apply data := by
  cases adds <;>
    rw [AddVector.elements, List.foldl_map] <;>
    exact addVector_eq_foldl padded _

/-! ### Sequences -/

theorem Holds.operation {data : Data} {adds : List Add} (holds : Holds data adds)
    (operation : AddOperation) : Holds (operation.apply data) (adds ++ operation.adds) := by
  cases operation with
  | single add => exact holds.add add
  | vector vector =>
      rw [AddOperation.apply, vector.apply_eq_foldl holds.padded]
      exact holds.addAll vector.elements

/-- What is held after a sequence of operations. -/
theorem run_holds (operations : List AddOperation) :
    Holds (run operations) (operations.flatMap AddOperation.adds) := by
  suffices later : ∀ {data adds}, Holds data adds →
      Holds (operations.foldl AddOperation.apply data)
        (adds ++ operations.flatMap AddOperation.adds) from later .fresh
  intro data adds holds
  induction operations generalizing data adds with
  | nil => rwa [List.flatMap_nil, List.append_nil]
  | cons operation operations inductionHypothesis =>
      rw [List.foldl_cons, List.flatMap_cons, ← List.append_assoc]
      exact inductionHypothesis (holds.operation operation)

/-- The collection agrees with itself and with what was added. -/
structure Consistent (operations : List AddOperation) (data : Data) : Prop where
  sameLength : data.dataItems.length = data.dataTypes.length
  matching : ∀ (index : Nat) (mem : DataItem) (type : DataType), data.dataItems[index]? = some mem →
    data.dataTypes[index]? = some type → mem.type = type
  items : data.dataItems = (operations.flatMap AddOperation.adds).map Add.item
  upperN : data.Nlist = (operations.flatMap AddOperation.adds).filterMap Add.signedN?
  lowerN : data.nlist = (operations.flatMap AddOperation.adds).filterMap Add.signedn?
  lowerM : data.mlist = (operations.flatMap AddOperation.adds).filterMap Add.signedm?
  bytes : data.dataBytes.toNat = (data.dataItems.map DataItem.serializedSize).sum % 2 ^ 32
  padding : data.paddingBytes.toNat = (4 - data.dataBytes.toNat % 4) % 4
  wholeWords : data.getDataSize.toNat % 4 = 0

theorem pads_toNat {residue : Nat} (small : residue < 4) :
    (Data.pads.getD residue 0).toNat = (4 - residue) % 4 := by
  interval_cases residue <;> rfl

theorem Padded.toNat {data : Data} (padded : Padded data) :
    data.paddingBytes.toNat = (4 - data.dataBytes.toNat % 4) % 4 := by
  rw [padded, UInt32.toNat_mod]
  exact pads_toNat (Nat.mod_lt _ (by decide))

theorem Padded.wholeWords {data : Data} (padded : Padded data) :
    data.getDataSize.toNat % 4 = 0 := by
  rw [Data.getDataSize, UInt32.toNat_add, padded.toNat]
  omega

theorem Holds.consistent {data : Data} {operations : List AddOperation}
    (holds : Holds data (operations.flatMap AddOperation.adds)) : Consistent operations data where
  sameLength := by rw [holds.items, holds.types, List.length_map, List.length_map]
  matching := by
    intro index mem type item typed
    rw [holds.items, List.getElem?_map] at item
    rw [holds.types, List.getElem?_map] at typed
    cases added : (operations.flatMap AddOperation.adds)[index]? with
    | none => simp [added] at item
    | some add =>
        rw [added, Option.map_some, Option.some.injEq] at item typed
        rw [← item, typed]
  items := holds.items
  upperN := holds.upperN
  lowerN := holds.lowerN
  lowerM := holds.lowerM
  bytes := by
    rw [holds.bytes, holds.items, List.map_map, UInt32.toNat_ofNat']
    rfl
  padding := holds.padded.toNat
  wholeWords := holds.padded.wholeWords

/-- After every sequence of additions the collection is consistent, and adding a
vector of numbers to it leaves it as adding the elements one by one does. -/
theorem run_consistent (operations : List AddOperation) :
    Consistent operations (run operations) ∧
      ∀ adds : AddVector,
        adds.apply (run operations) = adds.elements.foldl Add.apply (run operations) := by
  have holds := run_holds operations
  exact ⟨holds.consistent, fun adds => adds.apply_eq_foldl holds.padded⟩

example : (run [.single (.N 2), .vector (.short [1, 2, 3]), .single (.string [104])]).getDataSize =
    16 := by decide

end Dift.Evio.Composite
