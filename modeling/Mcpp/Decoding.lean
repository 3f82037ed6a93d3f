import Mcpp.ClientConnection

/-! Deserializing a received frame. CPacketReader has no end pointer, so how far it
goes is decided by the bytes it meets, in the frame or behind it. A frame is decoded
inside its bytes exactly when they begin with a complete encoding of the packet's
fields. -/
namespace Mcpp.Decoding
open Buffers Uuid PacketVisitor Packets Base128 VarInt Wire ClientConnection

inductive Kind where
  | varInt
  | short
  | uInt8
  | string
  | uuid
  deriving DecidableEq, Repr

/-! Where the reader stops. -/

/- How far it moves over one field; a negative string length throws. -/
def extent (memory : Memory) (start : Nat) : Kind → Option Nat
  | .varInt => some (varIntBytes memory start).length
  | .short => some 2
  | .uInt8 => some 1
  | .uuid => some 16
  | .string =>
    let length := varIntValue memory start 0
    if length.msb then none else some ((varIntBytes memory start).length + length.toNat)

def extents (memory : Memory) : Nat → List Kind → Option Nat
  | _, [] => some 0
  | start, kind :: rest =>
    (extent memory start kind).bind fun n => (extents memory (start+n) rest).map (n + ·)

/- `x` moves over fields of the given kinds, and does nothing else to the reader. -/
def Skips {α : Type} (x : Visit CPacketReader α) (kinds : List Kind) : Prop :=
  ∀ r : CPacketReader, match extents r.memory r.current kinds with
    | none => x r = .error .lengthError
    | some n => ∃ a, x r = .ok (a, r.advance n)

theorem extentsAppend (memory : Memory) (start : Nat) (a b : List Kind) :
    extents memory start (a ++ b) =
      (extents memory start a).bind fun n => (extents memory (start+n) b).map (n + ·) := by
  induction a generalizing start with
  | nil => simp [extents]
  | cons kind rest ih =>
    cases first : extent memory start kind with
    | none => simp [extents, first]
    | some n =>
      simp only [List.cons_append, extents, first, Option.bind_some, ih]
      cases tail : extents memory (start+n) rest with
      | none => simp
      | some m => simp [Function.comp_def, Nat.add_assoc]

theorem skipsPure {α : Type} (a : α) : Skips (pure a) [] := by
  intro r
  simp [extents, visitPure, CPacketReader.advance]

theorem skipsBind {α β : Type} {x : Visit CPacketReader α} {f : α → Visit CPacketReader β} {a b : List Kind}
    (left : Skips x a) (right : ∀ v, Skips (f v) b) : Skips (x >>= f) (a ++ b) := by
  intro r
  have first := left r
  rw [extentsAppend]
  cases reach : extents r.memory r.current a with
  | none =>
    simp only [reach] at first
    simp only [Option.bind_none, visitBind, first]
    rfl
  | some n =>
    simp only [reach] at first
    obtain ⟨v, done⟩ := first
    have second : match extents r.memory (r.current+n) b with
        | none => f v (r.advance n) = .error .lengthError
        | some m => ∃ w, f v (r.advance n) = .ok (w, (r.advance n).advance m) := right v (r.advance n)
    simp only [Option.bind_some, visitBind, done, bindOk]
    cases rest : extents r.memory (r.current+n) b with
    | none =>
      simp only [rest] at second
      exact second
    | some m =>
      simp only [rest, advanceTwice] at second
      exact second

theorem extentsSingle (memory : Memory) (start : Nat) (kind : Kind) :
    extents memory start [kind] = extent memory start kind := by
  cases reach : extent memory start kind with
  | none => simp [extents, reach]
  | some n => simp [extents, reach]

theorem skipsVarInt (old : BitVec 32) : Skips (CPacketReader.onVarInt old) [.varInt] := by
  intro r
  rw [extentsSingle]
  exact ⟨_, readerLoopLeaves r old⟩

theorem skipsShort (old : BitVec 16) : Skips (CPacketReader.onShort old) [.short] := by
  intro r
  exact ⟨_, rfl⟩

theorem skipsUInt8 (old : UInt8) : Skips (CPacketReader.onUInt8 old) [.uInt8] := by
  intro r
  exact ⟨_, rfl⟩

theorem skipsUUID (old : CUUID) : Skips (CPacketReader.onUUID old) [.uuid] := by
  intro r
  have words (x y : BitVec 64) : (Except.ok (CUUID.ofWords x y, (r.advance 8).advance 8) :
      Except Fault (CUUID × CPacketReader)) = .ok (CUUID.ofWords x y, r.advance 16) := by rw [advanceTwice]
  exact ⟨_, words _ _⟩

theorem skipsString {maxSize : BitVec 32} (room : 0 < maxSize.toNat) :
    Skips (CPacketReader.onString [] maxSize) [.string] := by
  intro r
  have fresh : ¬ ([] : Bytes).length ≥ maxSize.toNat := by
    rw [List.length_nil]
    omega
  rw [extentsSingle, CPacketReader.onString, if_neg fresh, visitBind, readerLoopLeaves, bindOk, extent]
  cases sign : (varIntValue r.memory r.current 0).msb with
  | true => simp only [CPacketReader.construct, sign, ite_true]
  | false =>
    simp only [CPacketReader.construct, sign, Bool.false_eq_true, ite_false, advanceTwice]
    exact ⟨_, rfl⟩

/-! Complete encodings, read from a list that ends. -/

def takeVarInt : Nat → Bytes → Option (Bytes × Bytes)
  | 0, rest => some ([], rest)
  | _+1, [] => none
  | left+1, b :: rest =>
    if b.toNat < 128 then some ([b], rest)
    else (takeVarInt left rest).map fun r => (b :: r.1, r.2)

def dropExactly (count : Nat) (bytes : Bytes) : Option Bytes :=
  if count ≤ bytes.length then some (bytes.drop count) else none

/- What is left behind one field, if the bytes hold all of it. Five bytes that go on
still make a VarInt, with value zero. -/
def skip : Kind → Bytes → Option Bytes
  | .varInt, bytes => (takeVarInt turns bytes).map Prod.snd
  | .short, bytes => dropExactly 2 bytes
  | .uInt8, bytes => dropExactly 1 bytes
  | .uuid, bytes => dropExactly 16 bytes
  | .string, bytes => (takeVarInt turns bytes).bind fun r =>
    let length := accumulated 0 0 r.1
    if length.msb then none else dropExactly length.toNat r.2

def skipAll : List Kind → Bytes → Option Bytes
  | [], bytes => some bytes
  | kind :: rest, bytes => (skip kind bytes).bind (skipAll rest)

def Complete (kinds : List Kind) (bytes : Bytes) : Prop := (skipAll kinds bytes).isSome

instance (kinds : List Kind) (bytes : Bytes) : Decidable (Complete kinds bytes) :=
  inferInstanceAs (Decidable ((skipAll kinds bytes).isSome = true))

theorem dropTwice (a b : Nat) (bytes : Bytes) :
    (dropExactly a bytes).bind (dropExactly b) = dropExactly (a+b) bytes := by
  unfold dropExactly
  rcases Nat.lt_or_ge bytes.length a with short | long
  · rw [if_neg (by omega), if_neg (by omega)]
    rfl
  · rw [if_pos long, Option.bind_some, List.length_drop, List.drop_drop]
    rcases Nat.lt_or_ge bytes.length (a+b) with short | long
    · rw [if_neg (by omega), if_neg (by omega)]
    · rw [if_pos (by omega), if_pos long]

theorem holdsDrop {memory : Memory} {start n : Nat} {bytes : Bytes} (held : Holds memory start bytes)
    (inside : n ≤ bytes.length) : Holds memory (start+n) (bytes.drop n) := by
  have both := held
  rw [← List.take_append_drop n bytes, holdsAppend, List.length_take, Nat.min_eq_left inside] at both
  exact both.2

theorem takeVarIntExact {memory : Memory} {left start : Nat} {bytes : Bytes}
    (held : Holds memory start bytes) : takeVarInt left bytes =
      (dropExactly (scan memory left start).length bytes).map fun rest => (scan memory left start, rest) := by
  induction left generalizing start bytes with
  | zero => simp [takeVarInt, scan, dropExactly]
  | succ left ih =>
    have some := scanPositive memory left start
    cases bytes with
    | nil =>
      have short : ¬ (scan memory (left+1) start).length ≤ ([] : Bytes).length := by
        rw [List.length_nil]
        omega
      rw [takeVarInt, dropExactly, if_neg short]
      rfl
    | cons b rest =>
      obtain ⟨first, tail⟩ := (holdsCons ..).mp held
      subst first
      rw [takeVarInt, scan]
      rcases Nat.lt_or_ge (memory start).toNat 128 with small | large
      · rw [if_pos small, if_pos small]
        simp [dropExactly]
      · rw [if_neg (Nat.not_lt.mpr large), if_neg (Nat.not_lt.mpr large), ih tail]
        unfold dropExactly
        simp only [List.length_cons, Nat.add_le_add_iff_right, List.drop_succ_cons]
        split <;> rfl

/- The list agrees with the reader as far as it goes. -/
theorem skipExact {memory : Memory} {start : Nat} {bytes : Bytes} (held : Holds memory start bytes)
    (kind : Kind) : skip kind bytes = (extent memory start kind).bind fun n => dropExactly n bytes := by
  cases kind with
  | short => rfl
  | uInt8 => rfl
  | uuid => rfl
  | varInt =>
    simp only [skip, takeVarIntExact held, extent, Option.map_map, Option.bind_some]
    exact Option.map_id'
  | string =>
    have value : accumulated 0 0 (scan memory turns start) = varIntValue memory start 0 := rfl
    simp only [skip, takeVarIntExact held, extent, Option.bind_map, Function.comp_def, value]
    cases sign : (varIntValue memory start 0).msb with
    | true => simp
    | false =>
      simp only [Bool.false_eq_true, ite_false, Option.bind_some]
      exact dropTwice ..

theorem skipAllExact {memory : Memory} {start : Nat} {bytes : Bytes} (held : Holds memory start bytes)
    (kinds : List Kind) :
    skipAll kinds bytes = (extents memory start kinds).bind fun n => dropExactly n bytes := by
  induction kinds generalizing start bytes with
  | nil => simp [skipAll, extents, dropExactly]
  | cons kind rest ih =>
    rw [skipAll, skipExact held, extents]
    cases extent memory start kind with
    | none => rfl
    | some n =>
      simp only [Option.bind_some]
      have both (m : Nat) := dropTwice n m bytes
      rcases Nat.lt_or_ge bytes.length n with short | long
      · have none : dropExactly n bytes = none := if_neg (by omega)
        rw [none] at both ⊢
        cases extents memory (start+n) rest with
        | none => rfl
        | some m => exact both m
      · have some : dropExactly n bytes = some (bytes.drop n) := if_pos long
        rw [some] at both ⊢
        rw [Option.bind_some, ih (holdsDrop held long)]
        cases extents memory (start+n) rest with
        | none => rfl
        | some m => exact both m

/-! The packets a client's frames are deserialized into. -/

/- Every byte read lies in the frame, each one behind the one before, and no string
was constructed with a negative length. -/
def StaysInside {α : Type} (x : Visit CPacketReader α) (bytes : Bytes) (size : Nat) (past : Memory) : Prop :=
  ∃ a r, x { memory := buffer bytes past } = .ok (a, r) ∧ (∀ i ∈ r.reads, i < size) ∧
    r.reads.Pairwise (· < ·)

theorem staysInsideOf {α : Type} {x : Visit CPacketReader α} {kinds : List Kind} (skips : Skips x kinds)
    (bytes : Bytes) (past : Memory) : StaysInside x bytes bytes.length past ↔ Complete kinds bytes := by
  have held : Holds (buffer bytes past) 0 bytes := by
    have all := bufferHolds [] bytes [] past
    rw [List.nil_append, List.append_nil] at all
    exact all
  have reach := skips { memory := buffer bytes past }
  rw [Complete, skipAllExact held]
  cases far : extents (buffer bytes past) 0 kinds with
  | none =>
    simp only [far] at reach
    refine iff_of_false ?_ (by simp)
    rintro ⟨a, r, ok, _⟩
    rw [reach] at ok
    contradiction
  | some n =>
    simp only [far] at reach
    obtain ⟨a, done⟩ := reach
    have last : (dropExactly n bytes).isSome ↔ n ≤ bytes.length := by
      unfold dropExactly
      split <;> simp_all
    rw [Option.bind_some, last]
    constructor
    · rintro ⟨a', r, ok, inside, _⟩
      rw [done] at ok
      cases ok
      rcases Nat.eq_zero_or_pos n with none | some
      · omega
      · have last := inside (n-1) (by simp [CPacketReader.advance, List.mem_range'_1]; omega)
        omega
    · intro fits
      refine ⟨a, _, done, ?_, ?_⟩
      · intro i mem
        have less : i < 0 + n := (List.mem_range'_1.mp mem).2
        omega
      · exact List.pairwise_lt_range'

inductive Decoder where
  | handshake
  | loginStart (uninitialised : CUUID)
  | encryptionResponse (key : IRSAKeyPair)

def Decoder.schema : Decoder → List Kind
  | .handshake => [.varInt, .varInt, .varInt, .string, .short, .uInt8]
  | .loginStart _ => [.varInt, .varInt, .string, .uuid]
  | .encryptionResponse _ => [.varInt, .varInt, .string, .string]

def Decoder.StaysInside (d : Decoder) (bytes : Bytes) (size : Nat) (past : Memory) : Prop :=
  match d with
  | .handshake => Decoding.StaysInside (serialize CPacketReader.visitor SHandshake.fresh) bytes size past
  | .loginStart uninitialised =>
    Decoding.StaysInside (serialize CPacketReader.visitor (SLoginStart.fresh uninitialised)) bytes size past
  | .encryptionResponse key =>
    Decoding.StaysInside (serialize CPacketReader.visitor (SEncryptionResponse.fresh key)) bytes size past

theorem skipsSerialize {P : Type} [Packet P] {fresh : P} {kinds : List Kind}
    (fields : ∀ b, Skips (Packet.serializeFields CPacketReader.visitor (Packet.setBase b fresh)) kinds) :
    Skips (serialize CPacketReader.visitor fresh) (.varInt :: .varInt :: kinds) := by
  have head : Skips (serializeBegin CPacketReader.visitor (Packet.base fresh)) ([.varInt] ++ ([.varInt] ++ [])) :=
    skipsBind (skipsVarInt _) fun _ => skipsBind (skipsVarInt _) fun _ => skipsPure _
  have tail (p : P) : Skips (serializeEnd CPacketReader.visitor (Packet.base p) >>= fun base =>
      pure (Packet.setBase base p)) ([] ++ []) := skipsBind (skipsPure _) fun _ => skipsPure _
  have all := skipsBind head fun base => skipsBind (fields base) tail
  simp only [List.cons_append, List.nil_append, List.append_nil] at all
  exact all

theorem skipsHandshake : Skips (serialize CPacketReader.visitor SHandshake.fresh) Decoder.handshake.schema := by
  have address : Skips (CPacketReader.onString [] 32) [.string] := skipsString (by decide)
  refine skipsSerialize fun b => ?_
  exact skipsBind (skipsVarInt 0) fun _ => skipsBind address fun _ =>
    skipsBind (skipsShort 0) fun _ => skipsBind (skipsUInt8 0) fun _ => skipsPure _

theorem skipsLoginStart (uninitialised : CUUID) :
    Skips (serialize CPacketReader.visitor (SLoginStart.fresh uninitialised))
      (Decoder.loginStart uninitialised).schema := by
  have username : Skips (CPacketReader.onString [] 16) [.string] := skipsString (by decide)
  refine skipsSerialize fun b => ?_
  exact skipsBind username fun _ => skipsBind (skipsUUID uninitialised) fun _ => skipsPure _

theorem skipsEncryptionResponse (key : IRSAKeyPair) :
    Skips (serialize CPacketReader.visitor (SEncryptionResponse.fresh key))
      (Decoder.encryptionResponse key).schema := by
  have string : Skips (CPacketReader.onString [] maxStringLength) [.string] := skipsString (by decide)
  refine skipsSerialize fun b => ?_
  exact skipsBind string fun _ => skipsBind string fun _ => skipsPure _

theorem decoderInside (d : Decoder) (bytes : Bytes) (past : Memory) :
    d.StaysInside bytes bytes.length past ↔ Complete d.schema bytes := by
  cases d with
  | handshake => exact staysInsideOf skipsHandshake bytes past
  | loginStart uninitialised => exact staysInsideOf (skipsLoginStart uninitialised) bytes past
  | encryptionResponse key => exact staysInsideOf (skipsEncryptionResponse key) bytes past

/- What readUnencryptedPacket returns has as many bytes as it says. -/
theorem payloadSized {memory : Memory} {start : Nat} {maxSize : BitVec 32} {payload : SPacketPayload}
    {reads : List Nat} (read : readUnencryptedPacket memory start maxSize = .ok (payload, reads))
    {bytes : Bytes} (some : payload.payload = some bytes) : payload.size.toNat = bytes.length := by
  rw [readExact] at read
  cases sign : (prefixSize memory start).msb with
  | true =>
    rw [if_pos sign] at read
    contradiction
  | false =>
    rw [if_neg (by simp [sign])] at read
    split at read
    · cases read
      contradiction
    · cases read
      cases some
      rw [sliceLength]
      exact (announcedWord sign).2

theorem decodedInside {memory : Memory} {start : Nat} {maxSize : BitVec 32} {payload : SPacketPayload}
    {reads : List Nat} (read : readUnencryptedPacket memory start maxSize = .ok (payload, reads))
    {bytes : Bytes} (some : payload.payload = some bytes) (d : Decoder) (past : Memory) :
    d.StaysInside bytes payload.size.toNat past ↔ Complete d.schema bytes := by
  rw [payloadSized read some]
  exact decoderInside d bytes past

/- A handshake of version 772 for status, as it is received. -/
def status : Bytes := [7, 0, 0x84, 0x06, 0, 0, 0, 1]

theorem decodedInsideStatus : Decoder.handshake.StaysInside status 8 (fun _ => 9) := by
  have read : ∃ reads, readUnencryptedPacket (buffer status fun _ => 0) 0 8 = .ok (⟨some status, 0, 8⟩, reads) :=
    ⟨_, rfl⟩
  obtain ⟨reads, read⟩ := read
  exact (decodedInside read rfl .handshake _).mpr (by decide)

/- A frame of an id alone, as a ping is, where a handshake is expected. -/
theorem shortHandshake : ¬ ∀ (memory : Memory) (start : Nat) (maxSize : BitVec 32) (payload : SPacketPayload)
    (reads : List Nat) (bytes : Bytes) (d : Decoder) (past : Memory),
    readUnencryptedPacket memory start maxSize = .ok (payload, reads) → payload.payload = some bytes →
    d.StaysInside bytes payload.size.toNat past := by
  intro always
  have inside := always (buffer [1, 0] fun _ => 0) 0 2 ⟨some [1, 0], 0, 2⟩ _ [1, 0] .handshake (fun _ => 0) rfl rfl
  have complete := (decoderInside .handshake [1, 0] fun _ => 0).mp inside
  revert complete
  decide

end Mcpp.Decoding
