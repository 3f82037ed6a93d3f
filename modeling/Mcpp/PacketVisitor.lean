import Mcpp.Loop
import Mcpp.Uuid

/-! IPacketVisitor and its three implementations. A visit threads the visitor's
state through the fields it is handed by reference, so each call returns the
field's new value. A visit that never returns or throws ends in a fault. -/
namespace Mcpp.PacketVisitor
open Buffers Uuid

inductive Fault where
  | hang
  | lengthError
  | nullDereference
  | parseError
  | typeError
  deriving DecidableEq, Repr

abbrev Visit (σ α : Type) := StateT σ (Except Fault) α

structure IPacketVisitor (σ : Type) where
  sizeFirst : Bool
  onShort : BitVec 16 → Visit σ (BitVec 16)
  onVarInt : BitVec 32 → Visit σ (BitVec 32)
  onULong : BitVec 64 → Visit σ (BitVec 64)
  onString : Bytes → BitVec 32 → Visit σ Bytes
  onUInt8 : UInt8 → Visit σ UInt8
  onUUID : CUUID → Visit σ CUUID
  setIsEnd : Visit σ Unit

def segmentBits : BitVec 32 := 0x7F
def continueBit : BitVec 32 := 0x80
def maxStringLength : BitVec 32 := 32767

def char (b : UInt8) : BitVec 32 := BitVec.ofNat 32 b.toNat
def forceswap16 (v : BitVec 16) : BitVec 16 := v.extractLsb' 0 8 ++ v.extractLsb' 8 8

/- The VarInt loops of all three visitors leave within five turns or never
(readerLoopLeaves, sizeLoopExact, writerLoopLeaves), so five units of fuel lose no result. -/
def turns : Nat := 5

def loopResult {ρ : Type} : Option ρ → Except Fault ρ
  | some r => .ok r
  | none => .error .hang

structure CPacketReader where
  memory : Memory
  current : Nat := 0
  -- The indices read so far, in the order they were read.
  reads : List Nat := []

namespace CPacketReader

def advance (r : CPacketReader) (count : Nat) : CPacketReader :=
  { r with current := r.current + count, reads := r.reads ++ List.range' r.current count }

def take (r : CPacketReader) (count : Nat) : Bytes := slice r.memory r.current count

structure VarIntState where
  reader : CPacketReader
  value : BitVec 32
  position : Nat

def varIntBody (s : VarIntState) : Loop.Next VarIntState (BitVec 32 × CPacketReader) :=
  let byte := s.reader.memory s.reader.current
  let reader := s.reader.advance 1
  let value := s.value ||| ((char byte &&& segmentBits) <<< s.position)
  if char byte &&& continueBit = 0 then .leave (value, reader)
  else
    let position := s.position + 7
    if position ≥ 32 then .leave (0, reader)
    else .again ⟨reader, value, position⟩

def onVarInt (value : BitVec 32) : Visit CPacketReader (BitVec 32) := fun r =>
  loopResult (Loop.run varIntBody turns ⟨r, value, 0⟩)

def onShort (_ : BitVec 16) : Visit CPacketReader (BitVec 16) := fun r =>
  let reverseInt := BitVec.ofNat 16 (ofLittleEndian (r.take 2))
  .ok (forceswap16 reverseInt, r.advance 2)

def onULong (_ : BitVec 64) : Visit CPacketReader (BitVec 64) := fun r =>
  .ok (BitVec.ofNat 64 (ofLittleEndian (r.take 8)), r.advance 8)

/- std::string(m_current, length) with a negative length throws before it reads. -/
def construct (length : BitVec 32) : Visit CPacketReader Bytes := fun r =>
  if length.msb then .error .lengthError
  else .ok (r.take length.toNat, r.advance length.toNat)

def onString (value : Bytes) (maxSize : BitVec 32) : Visit CPacketReader Bytes := do
  if value.length ≥ maxSize.toNat then pure value
  else
    let length ← onVarInt 0
    construct length

def onUInt8 (_ : UInt8) : Visit CPacketReader UInt8 := fun r =>
  .ok (r.memory r.current, r.advance 1)

def onUUID (_ : CUUID) : Visit CPacketReader CUUID := do
  let y ← onULong 0
  let x ← onULong 0
  pure (CUUID.ofWords x y)

def visitor : IPacketVisitor CPacketReader where
  sizeFirst := true
  onShort := onShort
  onVarInt := onVarInt
  onULong := onULong
  onString := onString
  onUInt8 := onUInt8
  onUUID := onUUID
  setIsEnd := pure ()

end CPacketReader

structure CPacketSizeCalc where
  currentSize : BitVec 32 := 0
  packetLengthSize : BitVec 32 := 0
  success : Bool := true
  isEnd : Bool := false
  deriving DecidableEq, Repr

namespace CPacketSizeCalc

def getFullSize (c : CPacketSizeCalc) : BitVec 32 := c.currentSize
def getPayloadSize (c : CPacketSizeCalc) : BitVec 32 := c.currentSize - c.packetLengthSize

def count (size : BitVec 32) : Visit CPacketSizeCalc Unit := fun c =>
  .ok ((), if c.success then { c with currentSize := c.currentSize + size } else c)

/- finalValue is an int, so its shift keeps the sign. -/
def varIntBody (s : BitVec 32 × BitVec 32) : Loop.Next (BitVec 32 × BitVec 32) (BitVec 32) :=
  let size := s.1 + 1
  if s.2 &&& ~~~segmentBits = 0 then .leave size
  else .again (size, s.2.sshiftRight 7)

def onVarInt (value : BitVec 32) : Visit CPacketSizeCalc (BitVec 32) := fun c =>
  if !c.success then .ok (value, c)
  else
    let finalValue := if c.isEnd then c.currentSize else value
    match Loop.run varIntBody turns (0, finalValue) with
    | none => .error .hang
    | some size => .ok (value, { c with
        currentSize := c.currentSize + size
        packetLengthSize := if c.isEnd then size else c.packetLengthSize })

def onString (value : Bytes) (maxSize : BitVec 32) : Visit CPacketSizeCalc Bytes := fun c =>
  if !c.success then .ok (value, c)
  else do
    let lengthSize := BitVec.ofNat 32 value.length
    let (_, c) ← onVarInt lengthSize c
    if lengthSize > maxSize then .ok (value, { c with success := false })
    else .ok (value, { c with currentSize := c.currentSize + BitVec.ofNat 32 value.length })

def visitor : IPacketVisitor CPacketSizeCalc where
  sizeFirst := false
  onShort := fun value => do count 2; pure value
  onVarInt := onVarInt
  onULong := fun value => do count 8; pure value
  onString := onString
  onUInt8 := fun value => do count 1; pure value
  onUUID := fun uuid c => .ok (uuid, { c with currentSize := c.currentSize + 8*2 })
  setIsEnd := fun c => .ok ((), { c with isEnd := true })

end CPacketSizeCalc

structure CPacketWriter where
  -- The allocation; a store past its end corrupts the heap and leaves it as it is.
  data : Bytes
  size : Nat := 0
  -- Every store made so far, in order, inside the allocation or not.
  stores : List (Nat × UInt8) := []
  deriving DecidableEq, Repr

namespace CPacketWriter

def new (size : BitVec 32) : CPacketWriter := { data := List.replicate size.toNat 0 }

def store (w : CPacketWriter) (index : Nat) (byte : UInt8) : CPacketWriter :=
  { w with data := w.data.set index byte, stores := w.stores ++ [(index, byte)] }

def put (w : CPacketWriter) (byte : UInt8) : CPacketWriter :=
  { w.store w.size byte with size := w.size + 1 }

/- memcpy to m_data + m_size, with m_size moved past it. -/
def copy (bytes : Bytes) : Visit CPacketWriter Unit := fun w =>
  .ok ((), bytes.foldl put w)

def toChar (v : BitVec 32) : UInt8 := UInt8.ofNat v.toNat

def varIntBody (s : CPacketWriter × BitVec 32) : Loop.Next (CPacketWriter × BitVec 32) CPacketWriter :=
  if s.2 &&& ~~~segmentBits = 0 then .leave (s.1.put (toChar s.2))
  else .again (s.1.put (toChar ((s.2 &&& segmentBits) ||| continueBit)), s.2 >>> 7)

def onVarInt (value : BitVec 32) : Visit CPacketWriter (BitVec 32) := fun w => do
  let w ← loopResult (Loop.run varIntBody turns (w, value))
  .ok (value, w)

def onShort (value : BitVec 16) : Visit CPacketWriter (BitVec 16) := do
  let swapped := forceswap16 value
  copy (littleEndian 2 swapped.toNat)
  pure value

def onULong (value : BitVec 64) : Visit CPacketWriter (BitVec 64) := do
  copy (littleEndian 8 value.toNat)
  pure value

def onString (value : Bytes) (maxSize : BitVec 32) : Visit CPacketWriter Bytes := do
  if value.length > maxSize.toNat then pure value
  else
    let _ ← onVarInt (BitVec.ofNat 32 value.length)
    copy value
    pure value

def onUInt8 (value : UInt8) : Visit CPacketWriter UInt8 := fun w => .ok (value, w.put value)

def onUUID (uuid : CUUID) : Visit CPacketWriter CUUID := do
  let uuidBytes := uuid.bytes
  let _ ← onULong (BitVec.ofNat 64 (ofLittleEndian (uuidBytes.take 8)))
  let _ ← onULong (BitVec.ofNat 64 (ofLittleEndian ((uuidBytes.drop 8).take 8)))
  pure uuid

def visitor : IPacketVisitor CPacketWriter where
  sizeFirst := true
  onShort := onShort
  onVarInt := onVarInt
  onULong := onULong
  onString := onString
  onUInt8 := onUInt8
  onUUID := onUUID
  setIsEnd := pure ()

end CPacketWriter
end Mcpp.PacketVisitor
