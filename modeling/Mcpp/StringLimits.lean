import Mcpp.Decoding
import Mcpp.Oversized
import Mcpp.VarIntCodec
import Mathlib.Data.List.Forall2

/-! The maximum of a string field, on send and on receive. The size calculator and the
writer compare the string with it; the reader compares what the field held before, which
in a fresh packet is empty. What a frame leaves in its string fields is as long as the
frame announces. -/
namespace Mcpp.StringLimits
open Buffers Uuid PacketVisitor Packets Base128 VarInt Wire SerializePacket Decoding
open VarIntCodec (putAllAppends)
open Oversized (lengthSize lengthSizeOf stringCounts)

/-! On send. -/

/- The calculator counts on, and the writer puts the length and the string. -/
structure Accepted (s : Bytes) (maxSize : BitVec 32) : Prop where
  counted : ∃ c, CPacketSizeCalc.onString s maxSize {} = .ok (s, c) ∧ c.success = true
  written : ∀ w, CPacketWriter.onString s maxSize w = .ok (s, putAll (encode s.length ++ s) w)

theorem acceptedExactly {s : Bytes} {maxSize : BitVec 32} (positive : maxSize.msb = false) :
    Accepted s maxSize ↔ s.length ≤ maxSize.toNat := by
  have half := BitVec.msb_eq_false_iff_two_mul_lt.mp positive
  have counts (c : CPacketSizeCalc) := sizeQuiet.onString s maxSize c
  have writes (w : CPacketWriter) := writerQuiet.onString s maxSize w
  simp only [CPacketSizeCalc.visitor] at counts
  simp only [CPacketWriter.visitor] at writes
  constructor
  · intro accepted
    by_contra long
    have longer : s.length > maxSize.toNat := by omega
    have written := accepted.written (.new 0)
    rw [writes, writerEffect, mapOk, Field.bytes, if_pos longer] at written
    have same : putAll [] (.new 0) = putAll (encode s.length ++ s) (.new 0) := congrArg Prod.snd (Except.ok.inj written)
    have sizes := congrArg CPacketWriter.size same
    rw [(putAllAppends _ _).size, (putAllAppends _ _).size, List.length_append, ← width] at sizes
    have some := widthPositive s.length
    simp only [List.length_nil] at sizes
    omega
  · intro within
    have written : ¬ s.length > maxSize.toNat := by omega
    have whole : lengthSize s = s.length := by
      rw [← lengthSizeOf]
      exact (ofNatSmall (by omega)).1
    refine ⟨⟨counting (0 + Oversized.counted s), ?_, rfl⟩, ?_⟩
    · rw [counts]
      exact congrArg _ (stringCounts (by omega) (by omega) 0)
    · intro w
      rw [writes, writerEffect, mapOk, Field.bytes, if_neg written]

/-! On receive. -/

def span (memory : Memory) (start : Nat) (kinds : List Kind) : Nat := (extents memory start kinds).getD 0

/- Where the fields can be read at all, `x` returns what the memory from there on says. -/
def Yields {α : Type} (x : Visit CPacketReader α) (kinds : List Kind) (value : Memory → Nat → α) : Prop :=
  ∀ r : CPacketReader, (extents r.memory r.current kinds).isSome →
    x r = .ok (value r.memory r.current, r.advance (span r.memory r.current kinds))

/- The string at `start`, behind its length. -/
def wireString (memory : Memory) (start : Nat) : Bytes :=
  slice memory (start + (varIntBytes memory start).length) (varIntValue memory start 0).toNat

theorem yieldsPure {α : Type} (a : α) : Yields (pure a) [] fun _ _ => a := by
  intro r _
  simp [visitPure, span, extents, CPacketReader.advance]

theorem yieldsBind {α β : Type} {x : Visit CPacketReader α} {f : α → Visit CPacketReader β} {a b : List Kind}
    {left : Memory → Nat → α} {right : α → Memory → Nat → β} (first : Yields x a left)
    (rest : ∀ v, Yields (f v) b (right v)) :
    Yields (x >>= f) (a ++ b) fun memory start => right (left memory start) memory (start + span memory start a) := by
  intro r readable
  have both := extentsAppend r.memory r.current a b
  cases here : extents r.memory r.current a with
  | none => simp [both, here] at readable
  | some n =>
    have width : span r.memory r.current a = n := by rw [span, here, Option.getD_some]
    rw [here, Option.bind_some] at both
    cases after : extents r.memory (r.current + n) b with
    | none => simp [both, after] at readable
    | some m =>
      have done := first r (by rw [here]; rfl)
      have next := rest (left r.memory r.current) (r.advance n)
      simp only [CPacketReader.advance] at next
      have step := next (by rw [after]; rfl)
      have total : span r.memory r.current (a ++ b) = n + m := by rw [span, both, after]; rfl
      have end' : span r.memory (r.current + n) b = m := by rw [span, after, Option.getD_some]
      rw [end'] at step
      rw [visitBind, done, bindOk, total, ← advanceTwice]
      simp only [width]
      exact step

theorem spanVarInt (memory : Memory) (start : Nat) :
    span memory start [.varInt] = (varIntBytes memory start).length := by
  rw [span, extentsSingle]
  rfl

theorem yieldsVarInt (old : BitVec 32) :
    Yields (CPacketReader.onVarInt old) [.varInt] fun memory start => varIntValue memory start old := by
  intro r _
  rw [readerLoopLeaves, spanVarInt]

theorem yieldsString {maxSize : BitVec 32} (room : 0 < maxSize.toNat) :
    Yields (CPacketReader.onString [] maxSize) [.string] wireString := by
  intro r readable
  have fresh : ¬ ([] : Bytes).length ≥ maxSize.toNat := by
    rw [List.length_nil]
    omega
  rw [extentsSingle, extent] at readable
  rw [span, extentsSingle, extent]
  cases sign : (varIntValue r.memory r.current 0).msb with
  | true =>
    rw [sign] at readable
    contradiction
  | false =>
    rw [CPacketReader.onString, if_neg fresh, visitBind, readerLoopLeaves, bindOk]
    simp only [CPacketReader.construct, sign, Bool.false_eq_true, ite_false, advanceTwice]
    rfl

theorem yieldsShort (old : BitVec 16) : Yields (CPacketReader.onShort old) [.short] fun memory start =>
    forceswap16 (BitVec.ofNat 16 (ofLittleEndian (slice memory start 2))) := fun _ _ => rfl

theorem yieldsUInt8 (old : UInt8) : Yields (CPacketReader.onUInt8 old) [.uInt8] fun memory start => memory start :=
  fun _ _ => rfl

theorem yieldsUUID (old : CUUID) : Yields (CPacketReader.onUUID old) [.uuid] fun memory start =>
    CUUID.ofWords (BitVec.ofNat 64 (ofLittleEndian (slice memory (start+8) 8)))
      (BitVec.ofNat 64 (ofLittleEndian (slice memory start 8))) := by
  intro r _
  have width : span r.memory r.current [.uuid] = 16 := rfl
  simp only [CPacketReader.onUUID, CPacketReader.onULong, visitBind, bindOk, visitPure, advanceTwice, width]
  rfl

/- The base's two VarInts stand in front of every packet's fields. -/
theorem yieldsSerialize {P : Type} [Packet P] {fresh : P} {kinds : List Kind} {value : IPacket → Memory → Nat → P}
    (fields : ∀ b, Yields (Packet.serializeFields CPacketReader.visitor (Packet.setBase b fresh)) kinds (value b))
    (same : ∀ b memory start, Packet.setBase (Packet.base (value b memory start)) (value b memory start) =
      value b memory start) :
    Yields (serialize CPacketReader.visitor fresh) (.varInt :: .varInt :: kinds) fun memory start =>
      value ⟨varIntValue memory (start + span memory start [.varInt]) (Packet.base fresh).packetId,
        varIntValue memory start (Packet.base fresh).packetSize⟩ memory (start + span memory start [.varInt, .varInt]) := by
  have head : Yields (serializeBegin CPacketReader.visitor (Packet.base fresh)) [.varInt, .varInt] _ :=
    yieldsBind (yieldsVarInt _) fun _ => yieldsBind (yieldsVarInt _) fun _ => yieldsPure _
  have tail (p : P) : Yields (serializeEnd CPacketReader.visitor (Packet.base p) >>= fun base =>
      pure (Packet.setBase base p)) ([] ++ []) _ := yieldsBind (yieldsPure _) fun _ => yieldsPure _
  have all := yieldsBind head fun base => yieldsBind (fields base) tail
  simp only [List.cons_append, List.nil_append, List.append_nil, same] at all
  exact all

/-! The strings of a frame. -/

def announced : Kind → Bytes → List Nat
  | .string, bytes => ((takeVarInt turns bytes).map fun r => (accumulated 0 0 r.1).toNat).toList
  | _, _ => []

/- The lengths a frame announces for its strings, in order, with no look at the strings. -/
def stringLengths : List Kind → Bytes → List Nat
  | [], _ => []
  | kind :: rest, bytes => announced kind bytes ++ ((skip kind bytes).map (stringLengths rest)).getD []

/- The maxima of a packet's string fields. -/
def limits : Decoder → List (BitVec 32)
  | .handshake => [32]
  | .loginStart _ => [16]
  | .encryptionResponse _ => [maxStringLength, maxStringLength]

/- What deserializing a fresh packet leaves in its string fields. SEncryptionResponse
decrypts each string as soon as it is read: whatever the key, from the same strings. -/
def Leaves (d : Decoder) (bytes : Bytes) (past : Memory) (strings : List Bytes) : Prop :=
  match d with
  | .handshake => ∃ p r, serialize CPacketReader.visitor SHandshake.fresh { memory := buffer bytes past } =
      .ok (p, r) ∧ strings = [p.address]
  | .loginStart uninitialised => ∃ p r, serialize CPacketReader.visitor (SLoginStart.fresh uninitialised)
      { memory := buffer bytes past } = .ok (p, r) ∧ strings = [p.username]
  | .encryptionResponse _ => ∃ secret token, strings = [secret, token] ∧ ∀ key, ∃ p r,
      serialize CPacketReader.visitor (SEncryptionResponse.fresh key) { memory := buffer bytes past } = .ok (p, r) ∧
        p.sharedSecret = key.decrypt secret ∧ p.verifyTokenValue = key.decrypt token

/- No string is longer than its field's maximum, so each is one that could be sent. -/
def Limited (d : Decoder) (bytes : Bytes) (past : Memory) : Prop :=
  ∃ strings, Leaves d bytes past strings ∧
    List.Forall₂ (fun s maxSize => s.length ≤ maxSize.toNat ∧ Accepted s maxSize) strings (limits d)

def announcedAt (memory : Memory) (start : Nat) : Kind → List Nat
  | .string => [(varIntValue memory start 0).toNat]
  | _ => []

def lengthsAt (memory : Memory) : Nat → List Kind → List Nat
  | _, [] => []
  | start, kind :: rest => announcedAt memory start kind ++ lengthsAt memory (start + span memory start [kind]) rest

theorem completeCons {memory : Memory} {start : Nat} {bytes : Bytes} {kind : Kind} {rest : List Kind}
    (held : Holds memory start bytes) (complete : Complete (kind :: rest) bytes) :
    ∃ n, extent memory start kind = some n ∧ n ≤ bytes.length ∧ Complete rest (bytes.drop n) := by
  rw [Complete, skipAll, skipExact held] at complete
  cases reach : extent memory start kind with
  | none => simp [reach] at complete
  | some n =>
    rw [reach, Option.bind_some, dropExactly] at complete
    rcases Nat.lt_or_ge bytes.length n with short | inside
    · rw [if_neg (Nat.not_le.mpr short)] at complete
      contradiction
    · rw [if_pos inside, Option.bind_some] at complete
      exact ⟨n, rfl, inside, complete⟩

theorem stringExtent {memory : Memory} {start n : Nat} (reach : extent memory start .string = some n) :
    n = (varIntBytes memory start).length + (varIntValue memory start 0).toNat := by
  rw [extent] at reach
  split at reach
  · contradiction
  · exact (Option.some.inj reach).symm

theorem stringLengthsExact {memory : Memory} {start : Nat} {bytes : Bytes} {kinds : List Kind}
    (held : Holds memory start bytes) (complete : Complete kinds bytes) :
    stringLengths kinds bytes = lengthsAt memory start kinds := by
  induction kinds generalizing start bytes with
  | nil => rfl
  | cons kind rest ih =>
    obtain ⟨n, reach, inside, after⟩ := completeCons held complete
    have width : span memory start [kind] = n := by rw [span, extentsSingle, reach, Option.getD_some]
    have tail := ih (holdsDrop held inside) after
    have skipped : skip kind bytes = some (bytes.drop n) := by
      rw [skipExact held, reach, Option.bind_some, dropExactly, if_pos inside]
    have same : announced kind bytes = announcedAt memory start kind := by
      cases kind with
      | string =>
        have long := stringExtent reach
        have header : (varIntBytes memory start).length ≤ bytes.length := by omega
        have taken : takeVarInt turns bytes =
            some (varIntBytes memory start, bytes.drop (varIntBytes memory start).length) := by
          rw [takeVarIntExact held, ← varIntBytes, dropExactly, if_pos header, Option.map_some]
        simp only [announced, taken, Option.map_some, Option.toList_some]
        rfl
      | _ => rfl
    rw [stringLengths, lengthsAt, width, ← tail, skipped, same, Option.map_some, Option.getD_some]

/-! The three packets. -/

theorem spanHeader (memory : Memory) (start : Nat) : start + span memory start [.varInt, .varInt] =
    start + span memory start [.varInt] + span memory (start + span memory start [.varInt]) [.varInt] := by
  simp only [span, extents, extent, Option.bind_some, Option.map_some, Option.getD_some, Nat.add_zero]
  omega

theorem yieldsHandshake : ∃ value, Yields (serialize CPacketReader.visitor SHandshake.fresh)
    Decoder.handshake.schema value ∧ ∀ memory start,
      [(value memory start).address].map List.length = lengthsAt memory start Decoder.handshake.schema := by
  have address : Yields (CPacketReader.onString [] 32) [.string] wireString := yieldsString (by decide)
  have fields (b : IPacket) : Yields (Packet.serializeFields CPacketReader.visitor
      (Packet.setBase b SHandshake.fresh)) [.varInt, .string, .short, .uInt8] _ :=
    yieldsBind (yieldsVarInt 0) fun _ => yieldsBind address fun _ => yieldsBind (yieldsShort 0) fun _ =>
      yieldsBind (yieldsUInt8 0) fun _ => yieldsPure _
  refine ⟨_, yieldsSerialize fields (fun _ _ _ => rfl), ?_⟩
  intro memory start
  simp only [wireString, spanHeader, List.map_cons, List.map_nil, sliceLength]
  rfl

theorem yieldsLoginStart (uninitialised : CUUID) : ∃ value,
    Yields (serialize CPacketReader.visitor (SLoginStart.fresh uninitialised))
      (Decoder.loginStart uninitialised).schema value ∧ ∀ memory start,
      [(value memory start).username].map List.length =
        lengthsAt memory start (Decoder.loginStart uninitialised).schema := by
  have username : Yields (CPacketReader.onString [] 16) [.string] wireString := yieldsString (by decide)
  have fields (b : IPacket) : Yields (Packet.serializeFields CPacketReader.visitor
      (Packet.setBase b (SLoginStart.fresh uninitialised))) [.string, .uuid] _ :=
    yieldsBind username fun _ => yieldsBind (yieldsUUID uninitialised) fun _ => yieldsPure _
  refine ⟨_, yieldsSerialize fields (fun _ _ _ => rfl), ?_⟩
  intro memory start
  simp only [wireString, spanHeader, List.map_cons, List.map_nil, sliceLength]
  rfl

theorem yieldsEncryptionResponse (memory : Memory) (start : Nat) : ∃ secret token,
    [secret, token].map List.length = lengthsAt memory start [.varInt, .varInt, .string, .string] ∧
    ∀ key, ∃ value, Yields (serialize CPacketReader.visitor (SEncryptionResponse.fresh key))
      (Decoder.encryptionResponse key).schema value ∧
      (value memory start).sharedSecret = key.decrypt secret ∧
      (value memory start).verifyTokenValue = key.decrypt token := by
  have string : Yields (CPacketReader.onString [] maxStringLength) [.string] wireString := yieldsString (by decide)
  have fields (key : IRSAKeyPair) (b : IPacket) : Yields (Packet.serializeFields CPacketReader.visitor
      (Packet.setBase b (SEncryptionResponse.fresh key))) [.string, .string] _ :=
    yieldsBind string fun _ => yieldsBind string fun _ => yieldsPure _
  refine ⟨_, _, ?_, fun key => ⟨_, yieldsSerialize (fields key) (fun _ _ _ => rfl), rfl, rfl⟩⟩
  simp only [wireString, spanHeader, List.map_cons, List.map_nil, sliceLength]
  rfl

/-! Frames. -/

theorem heldFrame (bytes : Bytes) (past : Memory) : Holds (buffer bytes past) 0 bytes := by
  have all := bufferHolds [] bytes [] past
  rw [List.nil_append, List.append_nil] at all
  exact all

theorem yieldsFrame {α : Type} {x : Visit CPacketReader α} {kinds : List Kind} {value : Memory → Nat → α}
    (yields : Yields x kinds value) {bytes : Bytes} (complete : Complete kinds bytes) (past : Memory) :
    ∃ r, x { memory := buffer bytes past } = .ok (value (buffer bytes past) 0, r) := by
  rw [Complete, skipAllExact (heldFrame bytes past)] at complete
  refine ⟨_, yields { memory := buffer bytes past } ?_⟩
  exact Option.isSome_of_isSome_bind complete

theorem leavesOnly {P : Type} {result : Except Fault (P × CPacketReader)} {value : P} {r : CPacketReader}
    (done : result = .ok (value, r)) (strings : P → List Bytes) (others : List Bytes) :
    (∃ p r, result = .ok (p, r) ∧ others = strings p) ↔ others = strings value := by
  constructor
  · intro ⟨p, r', same, left⟩
    rw [done] at same
    cases same
    exact left
  · intro left
    exact ⟨value, r, done, left⟩

/- A frame decides its strings, and how long they are stands in front of them. -/
theorem leavesExactly (d : Decoder) {bytes : Bytes} (complete : Complete d.schema bytes) (past : Memory) :
    ∃ strings, strings.map List.length = stringLengths d.schema bytes ∧
      ∀ others, Leaves d bytes past others ↔ others = strings := by
  have lengths := stringLengthsExact (heldFrame bytes past) complete
  cases d with
  | handshake =>
    obtain ⟨value, yields, left⟩ := yieldsHandshake
    obtain ⟨r, done⟩ := yieldsFrame yields complete past
    exact ⟨_, (left _ _).trans lengths.symm, leavesOnly done fun p => [p.address]⟩
  | loginStart uninitialised =>
    obtain ⟨value, yields, left⟩ := yieldsLoginStart uninitialised
    obtain ⟨r, done⟩ := yieldsFrame yields complete past
    exact ⟨_, (left _ _).trans lengths.symm, leavesOnly done fun p => [p.username]⟩
  | encryptionResponse key =>
    obtain ⟨secret, token, left, any⟩ := yieldsEncryptionResponse (buffer bytes past) 0
    have decrypted (key : IRSAKeyPair) : ∃ p r, serialize CPacketReader.visitor (SEncryptionResponse.fresh key)
        { memory := buffer bytes past } = .ok (p, r) ∧
          p.sharedSecret = key.decrypt secret ∧ p.verifyTokenValue = key.decrypt token := by
      obtain ⟨value, yields, fields⟩ := any key
      obtain ⟨r, done⟩ := yieldsFrame yields complete past
      exact ⟨_, r, done, fields⟩
    refine ⟨[secret, token], left.trans lengths.symm, ?_⟩
    intro others
    constructor
    · rintro ⟨secret', token', rfl, every⟩
      -- A key that decrypts nothing shows the strings themselves.
      obtain ⟨p, r, one, secretOne, tokenOne⟩ := every ⟨id, []⟩
      obtain ⟨q, _, two, secretTwo, tokenTwo⟩ := decrypted ⟨id, []⟩
      rw [one] at two
      cases two
      rw [show secret' = secret from secretOne.symm.trans secretTwo,
        show token' = token from tokenOne.symm.trans tokenTwo]
    · rintro rfl
      exact ⟨secret, token, rfl, decrypted⟩

theorem limitsPositive (d : Decoder) : ∀ maxSize ∈ limits d, maxSize.msb = false ∧ 0 < maxSize.toNat := by
  intro maxSize member
  cases d with
  | handshake =>
    obtain rfl := List.mem_singleton.mp member
    decide
  | loginStart =>
    obtain rfl := List.mem_singleton.mp member
    decide
  | encryptionResponse =>
    obtain rfl : maxSize = maxStringLength := by simpa [limits] using member
    decide

theorem acceptedAll {strings : List Bytes} {maxima : List (BitVec 32)} (positive : ∀ m ∈ maxima, m.msb = false) :
    List.Forall₂ (fun s maxSize => s.length ≤ maxSize.toNat ∧ Accepted s maxSize) strings maxima ↔
      List.Forall₂ (fun length maxSize => length ≤ maxSize.toNat) (strings.map List.length) maxima := by
  rw [List.forall₂_map_left_iff]
  induction strings generalizing maxima with
  | nil => simp
  | cons s rest ih =>
    cases maxima with
    | nil => simp
    | cons m maxima =>
      obtain ⟨first, others⟩ := List.forall_mem_cons.mp positive
      rw [List.forall₂_cons, List.forall₂_cons, ih others, acceptedExactly first, and_self]

theorem limitedAnnounced (d : Decoder) {bytes : Bytes} (complete : Complete d.schema bytes) (past : Memory) :
    Limited d bytes past ↔
      List.Forall₂ (fun length maxSize => length ≤ maxSize.toNat) (stringLengths d.schema bytes) (limits d) := by
  obtain ⟨strings, lengths, left⟩ := leavesExactly d complete past
  rw [← lengths, ← acceptedAll fun m mem => (limitsPositive d m mem).1]
  constructor
  · intro ⟨others, leaves, short⟩
    obtain rfl := (left others).mp leaves
    exact short
  · intro short
    exact ⟨strings, (left strings).mpr rfl, short⟩

theorem limitedExactly (d : Decoder) (bytes : Bytes) (past : Memory)
    (inside : d.StaysInside bytes bytes.length past) :
    (Limited d bytes past ↔
      List.Forall₂ (fun length maxSize => length ≤ maxSize.toNat) (stringLengths d.schema bytes) (limits d)) ∧
    ∀ maxSize ∈ limits d, ∀ s, Accepted s maxSize →
      Reads (CPacketReader.onString [] maxSize) s (encode s.length ++ s) := by
  refine ⟨limitedAnnounced d ((decoderInside d bytes past).mp inside) past, ?_⟩
  intro maxSize member s accepted
  obtain ⟨positive, room⟩ := limitsPositive d maxSize member
  have within := (acceptedExactly positive).mp accepted
  have read := readsString room (s := s) ⟨within, positive⟩
  rwa [Field.bytes, if_neg (Nat.not_lt.mpr within)] at read

/- The frame of a login start with a short username and a UUID of zeros. -/
def login (username : Bytes) : Bytes :=
  UInt8.ofNat (username.length + 18) :: 0 :: UInt8.ofNat username.length :: username ++ List.replicate 16 0

theorem limitedSteve : Limited (.loginStart Oversized.nobody) (login [83, 116, 101, 118, 101]) fun _ => 0 := by
  have inside : (Decoder.loginStart Oversized.nobody).StaysInside (login [83, 116, 101, 118, 101])
      (login [83, 116, 101, 118, 101]).length fun _ => 0 := (decoderInside ..).mpr (by decide)
  have short : stringLengths (Decoder.loginStart Oversized.nobody).schema (login [83, 116, 101, 118, 101]) = [5] := by
    decide
  refine (limitedExactly _ _ _ inside).1.mpr ?_
  rw [short]
  exact .cons (by decide) .nil

/- Seventeen bytes where sixteen are allowed, in a frame that holds all of them. -/
theorem longUsernameLeft : ¬ ∀ (d : Decoder) (bytes : Bytes) (past : Memory),
    d.StaysInside bytes bytes.length past → Limited d bytes past := by
  intro always
  have complete : Complete (Decoder.loginStart Oversized.nobody).schema (login (List.replicate 17 88)) := by decide
  have limited := always (.loginStart Oversized.nobody) _ (fun _ => 0) ((decoderInside _ _ _).mpr complete)
  have long : stringLengths (Decoder.loginStart Oversized.nobody).schema (login (List.replicate 17 88)) = [17] := by
    decide
  rw [limitedAnnounced _ complete, long] at limited
  obtain ⟨le, _⟩ := List.forall₂_cons.mp limited
  exact absurd le (by decide)

end Mcpp.StringLimits
