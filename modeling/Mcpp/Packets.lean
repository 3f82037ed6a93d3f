import Mcpp.PacketVisitor

/-! The packet types and their Serialize. One definition serves the three
visitors, as the macros do: SERIALIZE_BEGIN, the packet's own fields, SERIALIZE_END.
A visitor that takes the size first meets m_packetSize before the id, the other
one meets it last with m_isEnd set. -/
namespace Mcpp.Packets
open Buffers Uuid PacketVisitor

variable {σ : Type}

structure IPacket where
  packetId : BitVec 32
  packetSize : BitVec 32 := 0
  deriving DecidableEq, Repr

def serializeBegin (visitor : IPacketVisitor σ) (p : IPacket) : Visit σ IPacket := do
  if visitor.sizeFirst then
    let packetSize ← visitor.onVarInt p.packetSize
    let packetId ← visitor.onVarInt p.packetId
    pure ⟨packetId, packetSize⟩
  else
    let packetId ← visitor.onVarInt p.packetId
    pure ⟨packetId, p.packetSize⟩

def serializeEnd (visitor : IPacketVisitor σ) (p : IPacket) : Visit σ IPacket := do
  if !visitor.sizeFirst then
    visitor.setIsEnd
    let packetSize ← visitor.onVarInt p.packetSize
    pure ⟨p.packetId, packetSize⟩
  else pure p

/- serializeFields is what a packet writes between the two macros. -/
class Packet (P : Type) where
  base : P → IPacket
  setBase : IPacket → P → P
  serializeFields : {σ : Type} → IPacketVisitor σ → P → Visit σ P

def serialize {P : Type} [Packet P] (visitor : IPacketVisitor σ) (p : P) : Visit σ P := do
  let base ← serializeBegin visitor (Packet.base p)
  let p ← Packet.serializeFields visitor (Packet.setBase base p)
  let base ← serializeEnd visitor (Packet.base p)
  pure (Packet.setBase base p)

structure SHandshake extends IPacket where
  protocolVersion : BitVec 32 := 0
  address : Bytes := []
  port : BitVec 16 := 0
  nextState : UInt8 := 0
  deriving DecidableEq, Repr

def SHandshake.fresh : SHandshake := { packetId := 0x00 }

instance : Packet SHandshake where
  base := SHandshake.toIPacket
  setBase base p := { p with toIPacket := base }
  serializeFields visitor p := do
    let protocolVersion ← visitor.onVarInt p.protocolVersion
    let address ← visitor.onString p.address 32
    let port ← visitor.onShort p.port
    let nextState ← visitor.onUInt8 p.nextState
    pure ⟨p.toIPacket, protocolVersion, address, port, nextState⟩

structure SLoginStart extends IPacket where
  username : Bytes := []
  uuid : CUUID
  deriving DecidableEq

/- CUUID's default constructor leaves its bytes as they are. -/
def SLoginStart.fresh (uninitialised : CUUID) : SLoginStart :=
  { packetId := 0x00, uuid := uninitialised }

instance : Packet SLoginStart where
  base := SLoginStart.toIPacket
  setBase base p := { p with toIPacket := base }
  serializeFields visitor p := do
    let username ← visitor.onString p.username 16
    let uuid ← visitor.onUUID p.uuid
    pure ⟨p.toIPacket, username, uuid⟩

structure SProperty where
  name : Bytes := []
  value : Bytes := []
  signed : Bool := false
  signature : Bytes := []
  deriving DecidableEq, Repr

structure SLoginSuccess extends IPacket where
  id : CUUID
  username : Bytes := []
  properties : List SProperty := []
  deriving DecidableEq

def SLoginSuccess.fresh (uninitialised : CUUID) : SLoginSuccess :=
  { packetId := 0x02, id := uninitialised }

/- The property array is commented out in the source; a VarInt zero stands in its place. -/
instance : Packet SLoginSuccess where
  base := SLoginSuccess.toIPacket
  setBase base p := { p with toIPacket := base }
  serializeFields visitor p := do
    let id ← visitor.onUUID p.id
    let username ← visitor.onString p.username 16
    let _ ← visitor.onVarInt 0
    pure ⟨p.toIPacket, id, username, p.properties⟩

structure SEncryptionRequest extends IPacket where
  serverId : Bytes := []
  publicKeyLength : BitVec 32 := 0
  publicKey : Bytes := []
  verifyTokenLength : BitVec 32 := 0
  verifyToken : Bytes := []
  deriving DecidableEq, Repr

def SEncryptionRequest.fresh : SEncryptionRequest := { packetId := 0x01 }

instance : Packet SEncryptionRequest where
  base := SEncryptionRequest.toIPacket
  setBase base p := { p with toIPacket := base }
  serializeFields visitor p := do
    let serverId ← visitor.onString p.serverId 20
    let publicKey ← visitor.onString p.publicKey maxStringLength
    let verifyToken ← visitor.onString p.verifyToken maxStringLength
    pure ⟨p.toIPacket, serverId, p.publicKeyLength, publicKey, p.verifyTokenLength, verifyToken⟩

structure IRSAKeyPair where
  decrypt : Bytes → Bytes
  asnDerKey : Bytes

structure SEncryptionResponse extends IPacket where
  serverKey : IRSAKeyPair
  sharedSecret : Bytes := []
  verifyTokenValue : Bytes := []

def SEncryptionResponse.fresh (key : IRSAKeyPair) : SEncryptionResponse :=
  { packetId := 0x01, serverKey := key }

instance : Packet SEncryptionResponse where
  base := SEncryptionResponse.toIPacket
  setBase base p := { p with toIPacket := base }
  serializeFields visitor p := do
    let sharedSecret ← visitor.onString p.sharedSecret maxStringLength
    let sharedSecret := p.serverKey.decrypt sharedSecret
    let verifyTokenValue ← visitor.onString p.verifyTokenValue maxStringLength
    let verifyTokenValue := p.serverKey.decrypt verifyTokenValue
    pure ⟨p.toIPacket, p.serverKey, sharedSecret, verifyTokenValue⟩

inductive Json where
  | null
  | bool (value : Bool)
  | number (value : Int)
  | string (value : Bytes)
  | array (items : List Json)
  | object (members : List (Bytes × Json))

/- `toString` is nlohmann::to_string. -/
structure SStatusResponse (toString : Json → Bytes) extends IPacket where
  body : Json := .null

def SStatusResponse.fresh (toString : Json → Bytes) : SStatusResponse toString := { packetId := 0x00 }

instance (toString : Json → Bytes) : Packet (SStatusResponse toString) where
  base := SStatusResponse.toIPacket
  setBase base p := { p with toIPacket := base }
  serializeFields visitor p := do
    let _ ← visitor.onString (toString p.body) maxStringLength
    pure p

structure SPacketPayload where
  -- The buffer m_payload points to, with its allocated size; none is a null pointer.
  payload : Option Bytes := none
  packetId : BitVec 32 := 0
  size : BitVec 32 := 0
  deriving DecidableEq, Repr

/- Everything SerializePacket has in hand when it builds the payload. -/
structure Serialization (P : Type) where
  packet : P
  sizeCalc : CPacketSizeCalc
  writer : CPacketWriter

def serialization {P : Type} [Packet P] (packet : P) : Except Fault (Serialization P) := do
  let (packet, sizeCalc) ← serialize CPacketSizeCalc.visitor packet {}
  let packet := Packet.setBase { Packet.base packet with packetSize := sizeCalc.getPayloadSize } packet
  let (packet, writer) ← serialize CPacketWriter.visitor packet (.new sizeCalc.getFullSize)
  pure ⟨packet, sizeCalc, writer⟩

def Serialization.payload {P : Type} [Packet P] (s : Serialization P) : SPacketPayload :=
  { size := s.sizeCalc.getFullSize
    packetId := (Packet.base s.packet).packetId
    payload := some s.writer.data }

def serializePacket {P : Type} [Packet P] (packet : P) : Except Fault SPacketPayload := do
  let s ← serialization packet
  pure s.payload

end Mcpp.Packets
