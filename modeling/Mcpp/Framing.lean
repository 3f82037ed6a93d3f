import Mcpp.ClientConnection

/-! What the receive loop promises about the bytes of one chunk, whatever they are
and whatever the handler does with the payloads. The bound check is made against the
whole chunk, not against what is left of it, and a negative length prefix never
leaves the size calculator. -/
namespace Mcpp.Framing
open Buffers PacketVisitor Packets SharedSecret Base128 VarInt ClientConnection

variable {σ : Type}

/- The frames the loop comes to, and the world in which it does. -/
inductive Reached (pHandler : IPacketHandler σ) (memory : Memory) (totalSize : Nat) :
    Nat → σ → Nat → σ → Prop where
  | here (start w) : Reached pHandler memory totalSize start w start w
  | next {start w w' later last} (taken : Taken memory totalSize start)
      (handled : pHandler.processPacket (frameAt memory start) w = .ok (true, w'))
      (more : Reached pHandler memory totalSize (start + announced memory start) w' later last) :
      Reached pHandler memory totalSize start w later last

/- Both header VarInts and all the announced bytes of a frame are in the chunk. -/
structure Whole (memory : Memory) (totalSize start : Nat) : Prop where
  header : start + headerWidth memory start ≤ totalSize
  frame : start + announced memory start ≤ totalSize

def AllWhole (pHandler : IPacketHandler σ) (memory : Memory) (totalSize start : Nat) (w : σ) : Prop :=
  ∀ later last, Reached pHandler memory totalSize start w later last →
    Taken memory totalSize later → Whole memory totalSize later

/- Copies of ranges of the bytes from `start` on, in order and apart, read nowhere else. -/
structure Ranges (bytes : Bytes) (start : Nat) (ds : List Delivery) : Prop where
  copies : ∀ d ∈ ds, d.payload.payload = some ((bytes.drop d.offset).take d.payload.size.toNat)
  inside : ∀ d ∈ ds, start ≤ d.offset ∧ d.stop ≤ bytes.length
  ordered : ds.Pairwise (fun a b => a.stop ≤ b.offset)
  reads : ∀ d ∈ ds, ∀ i ∈ d.reads, i < bytes.length

theorem rangesNil (bytes : Bytes) (start : Nat) : Ranges bytes start [] :=
  ⟨by simp, by simp, .nil, by simp⟩

theorem rangesSum {bytes : Bytes} {start : Nat} {ds : List Delivery} (ranges : Ranges bytes start ds)
    (inside : start ≤ bytes.length) :
    start + (ds.map (fun d => d.payload.size.toNat)).sum ≤ bytes.length := by
  induction ds generalizing start with
  | nil => simpa using inside
  | cons d ds ih =>
    obtain ⟨first, within⟩ := ranges.inside d (by simp)
    obtain ⟨before, apart⟩ := List.pairwise_cons.mp ranges.ordered
    have rest : Ranges bytes d.stop ds :=
      ⟨fun e mem => ranges.copies e (by simp [mem]),
        fun e mem => ⟨before e mem, (ranges.inside e (by simp [mem])).2⟩, apart,
        fun e mem => ranges.reads e (by simp [mem])⟩
    have tail := ih rest within
    simp only [Delivery.stop, List.map_cons, List.sum_cons] at tail ⊢
    omega

theorem headerPositive (memory : Memory) (start : Nat) : 0 < headerWidth memory start := by
  have first := (varIntBytesLength memory start).1
  unfold headerWidth prefixWidth
  omega

theorem readsInside (memory : Memory) (totalSize start : Nat) :
    (∀ i ∈ readsAt memory start, i < totalSize) ↔ Whole memory totalSize start := by
  have header := headerPositive memory start
  have frame := announcedPositive memory start
  constructor
  · intro inside
    have last := inside (start + headerWidth memory start - 1) (by simp [readsAt, List.mem_range'_1]; omega)
    have stop := inside (start + announced memory start - 1) (by simp [readsAt, List.mem_range'_1]; omega)
    exact ⟨by omega, by omega⟩
  · rintro ⟨header, frame⟩ i mem
    rcases List.mem_append.mp mem with mem | mem
    · obtain ⟨_, less⟩ := List.mem_range'_1.mp mem
      exact Nat.lt_of_lt_of_le less header
    · obtain ⟨_, less⟩ := List.mem_range'_1.mp mem
      exact Nat.lt_of_lt_of_le less frame

theorem deliverySize {memory : Memory} {totalSize start : Nat} (taken : Taken memory totalSize start) :
    (deliveryAt memory start).payload.size.toNat = announced memory start :=
  (announcedWord taken.positive).2

theorem rangesCons {memory : Memory} {bytes : Bytes} (held : Holds memory 0 bytes) {start : Nat}
    (taken : Taken memory bytes.length start) (ds : List Delivery) :
    Ranges bytes start (deliveryAt memory start :: ds) ↔
      Whole memory bytes.length start ∧ Ranges bytes (start + announced memory start) ds := by
  have size := deliverySize taken
  have stop : (deliveryAt memory start).stop = start + announced memory start := congrArg (start + ·) size
  constructor
  · intro ranges
    have whole := (readsInside memory bytes.length start).mp (ranges.reads (deliveryAt memory start) (by simp))
    obtain ⟨before, apart⟩ := List.pairwise_cons.mp ranges.ordered
    rw [stop] at before
    exact ⟨whole, fun e mem => ranges.copies e (by simp [mem]),
      fun e mem => ⟨before e mem, (ranges.inside e (by simp [mem])).2⟩, apart,
      fun e mem => ranges.reads e (by simp [mem])⟩
  · rintro ⟨whole, rest⟩
    refine ⟨?_, ?_, ?_, ?_⟩
    · intro d mem
      rcases List.mem_cons.mp mem with rfl | mem
      · rw [size]
        exact congrArg some (holdsPrefix held whole.frame)
      · exact rest.copies d mem
    · intro d mem
      rcases List.mem_cons.mp mem with rfl | mem
      · rw [stop]
        exact ⟨Nat.le_refl _, whole.frame⟩
      · obtain ⟨after, within⟩ := rest.inside d mem
        exact ⟨by omega, within⟩
    · refine List.pairwise_cons.mpr ⟨?_, rest.ordered⟩
      intro d mem
      rw [stop]
      exact (rest.inside d mem).1
    · intro d mem
      rcases List.mem_cons.mp mem with rfl | mem
      · exact (readsInside memory bytes.length start).mpr whole
      · exact rest.reads d mem

theorem reachedSnoc {pHandler : IPacketHandler σ} {memory : Memory} {totalSize start later : Nat} {w last next : σ}
    (reached : Reached pHandler memory totalSize start w later last) (taken : Taken memory totalSize later)
    (handled : pHandler.processPacket (frameAt memory later) last = .ok (true, next)) :
    Reached pHandler memory totalSize start w (later + announced memory later) next := by
  induction reached with
  | here => exact .next taken handled (.here ..)
  | next first handled' more ih => exact .next first handled' (ih taken handled)

/- What every call keeps holds where the loop comes to a frame, and behind the loop. -/
theorem reachedKeeps {pHandler : IPacketHandler σ} {Inv : σ → Prop}
    (keep : ∀ payload w accepted w', pHandler.processPacket payload w = .ok (accepted, w') → Inv w → Inv w')
    {memory : Memory} {totalSize start later : Nat} {w last : σ}
    (reached : Reached pHandler memory totalSize start w later last) (inv : Inv w) : Inv last := by
  induction reached with
  | here => exact inv
  | next taken handled more ih => exact ih (keep _ _ _ _ handled inv)

theorem walkKeeps {pHandler : IPacketHandler σ} {Inv : σ → Prop}
    (keep : ∀ payload w accepted w', pHandler.processPacket payload w = .ok (accepted, w') → Inv w → Inv w')
    {memory : Memory} {totalSize start : Nat} {w last : σ} {ds o socketOpen}
    (walk : Walk pHandler memory totalSize start w ds o socketOpen last) (inv : Inv w) : Inv last := by
  induction walk with
  | done | hang | tail | fault => exact inv
  | reject taken rejected => exact keep _ _ _ _ rejected inv
  | next taken handled more ih => exact ih (keep _ _ _ _ handled inv)

theorem reachedLast {pHandler : IPacketHandler σ} {memory : Memory} {totalSize start later : Nat} {w last : σ}
    (reached : Reached pHandler memory totalSize start w later last)
    (refused : ∀ w', pHandler.processPacket (frameAt memory start) w ≠ .ok (true, w')) : later = start := by
  cases reached with
  | here => rfl
  | next taken handled more => exact absurd handled (refused _)

theorem allWholeLast {pHandler : IPacketHandler σ} {memory : Memory} {totalSize start : Nat} {w : σ}
    (taken : Taken memory totalSize start)
    (refused : ∀ w', pHandler.processPacket (frameAt memory start) w ≠ .ok (true, w')) :
    AllWhole pHandler memory totalSize start w ↔ Whole memory totalSize start := by
  constructor
  · intro all
    exact all _ _ (.here start w) taken
  · intro whole later last reached _
    rw [reachedLast reached refused]
    exact whole

theorem allWholeNone {pHandler : IPacketHandler σ} {memory : Memory} {totalSize start : Nat} {w : σ}
    (not : ¬ Taken memory totalSize start) : AllWhole pHandler memory totalSize start w := by
  intro later last reached taken
  cases reached with
  | here => exact absurd taken not
  | next first handled more => exact absurd first not

theorem allWholeNext {pHandler : IPacketHandler σ} {memory : Memory} {totalSize start : Nat} {w w' : σ}
    (taken : Taken memory totalSize start)
    (handled : pHandler.processPacket (frameAt memory start) w = .ok (true, w')) :
    AllWhole pHandler memory totalSize start w ↔ Whole memory totalSize start ∧
      AllWhole pHandler memory totalSize (start + announced memory start) w' := by
  constructor
  · intro all
    exact ⟨all _ _ (.here start w) taken, fun later last reached => all later last (.next taken handled reached)⟩
  · rintro ⟨whole, rest⟩ later last reached takenLater
    cases reached with
    | here => exact whole
    | next _ other more =>
      rw [handled] at other
      cases other
      exact rest _ _ more takenLater

theorem walkRanges {pHandler : IPacketHandler σ} {memory : Memory} {bytes : Bytes}
    (held : Holds memory 0 bytes) {start w ds o socketOpen last}
    (walk : Walk pHandler memory bytes.length start w ds o socketOpen last) :
    Ranges bytes start ds ↔ AllWhole pHandler memory bytes.length start w := by
  induction walk with
  | done read => exact iff_of_true (rangesNil ..) (allWholeNone fun taken => absurd taken.unread (by omega))
  | hang unread negative =>
    refine iff_of_true (rangesNil ..) (allWholeNone fun taken => ?_)
    rw [taken.positive] at negative
    contradiction
  | tail unread positive tooLong =>
    exact iff_of_true (rangesNil ..) (allWholeNone fun taken => absurd taken.bounded (by omega))
  | fault taken failed =>
    rw [rangesCons held taken, allWholeLast taken (by simp [failed])]
    exact and_iff_left (rangesNil ..)
  | reject taken rejected =>
    rw [rangesCons held taken, allWholeLast taken (by simp [rejected])]
    exact and_iff_left (rangesNil ..)
  | next taken handled more ih => rw [rangesCons held taken, ih, allWholeNext taken handled]

/- What is to hold of the payloads that the loop over one chunk delivers. -/
structure StaysInside (bytes : Bytes) (ds : List Delivery) : Prop where
  ranges : Ranges bytes 0 ds
  sum : (ds.map (fun d => d.payload.size.toNat)).sum ≤ bytes.length

theorem recvBufferHolds (c : Chunk) (stack : Memory) : Holds (c.recvBuffer stack) 0 c.bytes := by
  have held := bufferHolds [] c.bytes (List.replicate (defaultBuflen - c.bytes.length) 0) stack
  exact held

theorem totalSizeNat (c : Chunk) : c.totalSize.toNat = c.bytes.length := by
  have fits := c.fits
  unfold defaultBuflen at fits
  rw [Chunk.totalSize, BitVec.toNat_ofNat]
  omega

theorem startedWalk {block : BlockFunction} {c : CClientConnection} {chunk : Chunk} {stack memory : Memory} {heap : Behind}
    (started : c.start block (chunk.recvBuffer stack) heap chunk.bytes.length = .ok memory)
    (pHandler : IPacketHandler σ) (w : σ) : ∃ o t,
      recvPackets block c pHandler chunk stack heap w = (o, t) ∧
      Walk pHandler memory chunk.bytes.length 0 w t.deliveries o t.socketOpen t.world := by
  have fits := chunk.fits
  unfold defaultBuflen at fits
  have walk : ∃ o t, recvLoop pHandler memory chunk.totalSize { world := w } = (o, t) ∧
      Walk pHandler memory chunk.totalSize.toNat 0 w t.deliveries o t.socketOpen t.world :=
    recvLoopWalk (by rw [totalSizeNat]; omega) w
  rw [totalSizeNat] at walk
  simp only [recvPackets, started]
  exact walk

/- With encryption off the loop reads the received buffer itself. -/
theorem startedPlain (block : BlockFunction) (secret : Option CSharedSecret) (chunk : Chunk)
    (stack : Memory) (heap : Behind) : CClientConnection.start block { secret := secret } (chunk.recvBuffer stack) heap
      chunk.bytes.length = .ok (chunk.recvBuffer stack) := rfl

theorem staysInsideExactly (block : BlockFunction) (secret : Option CSharedSecret)
    (pHandler : IPacketHandler σ) (chunk : Chunk) (stack : Memory) (heap : Behind) (w : σ) :
    StaysInside chunk.bytes
      (recvPackets block { secret := secret } pHandler chunk stack heap w).2.deliveries ↔
    AllWhole pHandler (chunk.recvBuffer stack) chunk.bytes.length 0 w := by
  obtain ⟨o, t, ran, walk⟩ := startedWalk (startedPlain block secret chunk stack heap) pHandler w
  rw [ran, ← walkRanges (recvBufferHolds chunk stack) walk]
  constructor
  · intro inside
    exact inside.ranges
  · intro ranges
    have sum := rangesSum ranges (Nat.zero_le _)
    rw [Nat.zero_add] at sum
    exact ⟨ranges, sum⟩

/- A handler that takes everything. -/
def acceptAll : IPacketHandler Unit := ⟨fun _ _ => .ok (true, ())⟩

/- A frame of two bytes and one that says it has three more: four bytes are no more
than the chunk holds, but only two are left of it. -/
def shortSecond : Chunk := ⟨[1, 0, 3, 0], by decide, by decide⟩

theorem shortSecondLeaks : ¬ ∀ (block : BlockFunction) (secret : Option CSharedSecret)
    (pHandler : IPacketHandler Unit) (chunk : Chunk) (stack : Memory) (heap : Behind) (w : Unit),
    StaysInside chunk.bytes
      (recvPackets block { secret := secret } pHandler chunk stack heap w).2.deliveries := by
  intro always
  have sum := (always (fun _ _ => []) none acceptAll shortSecond (fun _ => 7) ⟨fun _ => 0, fun _ => 0⟩ ()).sum
  revert sum
  decide +kernel

/-! Termination. -/

/- Four continued bytes, then a last one that sets the sign of an int. -/
def Negative (memory : Memory) (start : Nat) : Prop :=
  128 ≤ (memory start).toNat ∧ 128 ≤ (memory (start+1)).toNat ∧ 128 ≤ (memory (start+2)).toNat ∧
  128 ≤ (memory (start+3)).toNat ∧ (memory (start+4)).toNat < 128 ∧ (memory (start+4)).toNat / 8 % 2 = 1

theorem shortValue {bytes : Bytes} (short : bytes.length ≤ 4) : (BitVec.ofNat 32 (value bytes)).msb = false := by
  have bound := valueBound bytes
  have most : 128 ^ bytes.length ≤ 128 ^ 4 := Nat.pow_le_pow_right (by decide) short
  rw [BitVec.msb_eq_false_iff_two_mul_lt, BitVec.toNat_ofNat]
  omega

theorem prefixClosed {memory : Memory} {start : Nat} (closed : Closed (varIntBytes memory start)) :
    prefixSize memory start = BitVec.ofNat 32 (value (varIntBytes memory start)) := by
  rw [prefixSize, varIntValue, accumulated, if_pos closed, BitVec.shiftLeft_zero]
  exact BitVec.zero_or

theorem scanMore {stream : Nat → UInt8} {start : Nat} (large : 128 ≤ (stream start).toNat) (left : Nat) :
    scan stream (left+1) start = stream start :: scan stream left (start+1) := by
  rw [scan, if_neg (Nat.not_lt.mpr large)]

/- A prefix of five bytes is negative when the last one sets the sign. -/
theorem fifthByte {memory : Memory} {start : Nat} (a : 128 ≤ (memory start).toNat)
    (b : 128 ≤ (memory (start+1)).toNat) (c : 128 ≤ (memory (start+2)).toNat)
    (d : 128 ≤ (memory (start+3)).toNat) : (prefixSize memory start).msb = true ↔
      (memory (start+4)).toNat < 128 ∧ (memory (start+4)).toNat / 8 % 2 = 1 := by
  have bytes : varIntBytes memory start =
      [memory start, memory (start+1), memory (start+2), memory (start+3)] ++
        scan memory 1 (start+4) := by
    rw [varIntBytes, turns, scanMore a, scanMore b, scanMore c, scanMore d]
    rfl
  have last : Closed (varIntBytes memory start) ↔ (memory (start+4)).toNat < 128 := by
    rw [bytes, scan]
    split <;> simp [scan, Closed, a, b, c, d]
  rcases Nat.lt_or_ge (memory (start+4)).toNat 128 with small | large
  · rw [prefixClosed (last.mpr small), bytes, scan, if_pos small, BitVec.msb_eq_true_iff_two_mul_ge,
      BitVec.toNat_ofNat]
    simp only [List.cons_append, List.nil_append, value]
    omega
  · rw [prefixSize, varIntValue, accumulated, if_neg (mt last.mp (Nat.not_lt.mpr large))]
    exact iff_of_false (by decide) (by omega)

theorem negativePrefix (memory : Memory) (start : Nat) :
    (prefixSize memory start).msb = true ↔ Negative memory start := by
  constructor
  · intro negative
    have long : 4 < (varIntBytes memory start).length := by
      rcases Nat.lt_or_ge 4 (varIntBytes memory start).length with long | short
      · exact long
      · by_cases closed : Closed (varIntBytes memory start)
        · rw [prefixClosed closed, shortValue short] at negative
          contradiction
        · rw [prefixSize, varIntValue, accumulated, if_neg closed] at negative
          contradiction
    have a : 128 ≤ (memory start).toNat := scanLarge (by omega : 0+1 < (varIntBytes memory start).length)
    have b : 128 ≤ (memory (start+1)).toNat := scanLarge (by omega : 1+1 < (varIntBytes memory start).length)
    have c : 128 ≤ (memory (start+2)).toNat := scanLarge (by omega : 2+1 < (varIntBytes memory start).length)
    have d : 128 ≤ (memory (start+3)).toNat := scanLarge (by omega : 3+1 < (varIntBytes memory start).length)
    exact ⟨a, b, c, d, (fifthByte a b c d).mp negative⟩
  · rintro ⟨a, b, c, d, last⟩
    exact (fifthByte a b c d).mpr last

/- The loop comes to no frame with a negative length. -/
def NoneNegative (pHandler : IPacketHandler σ) (memory : Memory) (totalSize start : Nat) (w : σ) : Prop :=
  ∀ later last, Reached pHandler memory totalSize start w later last → later < totalSize →
    ¬ Negative memory later

/- Handlers that return, whatever they answer. -/
def returning (f : SPacketPayload → σ → Bool × σ) : IPacketHandler σ := ⟨fun payload w => .ok (f payload w)⟩

theorem takenPositive {memory : Memory} {totalSize start : Nat} (taken : Taken memory totalSize start) :
    ¬ Negative memory start := by
  rw [← negativePrefix, taken.positive]
  simp

theorem noneNegativeLast {pHandler : IPacketHandler σ} {memory : Memory} {totalSize start : Nat} {w : σ}
    (positive : ¬ Negative memory start)
    (refused : ∀ w', Taken memory totalSize start →
      pHandler.processPacket (frameAt memory start) w ≠ .ok (true, w')) :
    NoneNegative pHandler memory totalSize start w := by
  intro later last reached _
  cases reached with
  | here => exact positive
  | next taken handled more => exact absurd handled (refused _ taken)

theorem noneNegativeNext {pHandler : IPacketHandler σ} {memory : Memory} {totalSize start : Nat} {w w' : σ}
    (taken : Taken memory totalSize start)
    (handled : pHandler.processPacket (frameAt memory start) w = .ok (true, w')) :
    NoneNegative pHandler memory totalSize start w ↔
      NoneNegative pHandler memory totalSize (start + announced memory start) w' := by
  constructor
  · intro none later last reached
    exact none later last (.next taken handled reached)
  · intro rest later last reached unread
    cases reached with
    | here => exact takenPositive taken
    | next _ other more =>
      rw [handled] at other
      cases other
      exact rest _ _ more unread

theorem walkReturns {f : SPacketPayload → σ → Bool × σ} {memory : Memory} {totalSize start : Nat}
    {w last : σ} {ds o socketOpen}
    (walk : Walk (returning f) memory totalSize start w ds o socketOpen last) :
    o = .returned ↔ NoneNegative (returning f) memory totalSize start w := by
  induction walk with
  | done read =>
    refine iff_of_true rfl ?_
    intro later last reached unread
    cases reached with
    | here => exact absurd unread (Nat.not_lt.mpr read)
    | next taken _ _ => exact absurd taken.unread (Nat.not_lt.mpr read)
  | hang unread negative =>
    refine iff_of_false (by simp) ?_
    intro none
    exact none _ _ (.here _ _) unread ((negativePrefix ..).mp negative)
  | tail unread positive tooLong =>
    refine iff_of_true rfl (noneNegativeLast ?_ fun w' taken => absurd taken.bounded (Nat.not_le.mpr tooLong))
    rw [← negativePrefix, positive]
    simp
  | fault taken failed => contradiction
  | reject taken rejected =>
    exact iff_of_true rfl (noneNegativeLast (takenPositive taken) fun w' _ => by simp [rejected])
  | next taken handled more ih => rw [ih, noneNegativeNext taken handled]

theorem deliveryInt {memory : Memory} {totalSize start : Nat} (small : totalSize < 2^30)
    (taken : Taken memory totalSize start) : 0 < (deliveryAt memory start).payload.size.toInt := by
  have size := deliverySize taken
  have positive := announcedPositive memory start
  have bounded := taken.bounded
  rw [BitVec.toInt_eq_toNat_of_lt (by omega)]
  omega

theorem walkSizes {pHandler : IPacketHandler σ} {memory : Memory} {totalSize start : Nat}
    (small : totalSize < 2^30) {w last : σ} {ds o socketOpen}
    (walk : Walk pHandler memory totalSize start w ds o socketOpen last) :
    ∀ d ∈ ds, 0 < d.payload.size.toInt := by
  induction walk with
  | done | hang | tail => simp
  | fault taken failed => simpa using deliveryInt small taken
  | reject taken rejected => simpa using deliveryInt small taken
  | next taken handled more ih =>
    intro d mem
    rcases List.mem_cons.mp mem with rfl | mem
    · exact deliveryInt small taken
    · exact ih d mem

theorem walkCount {pHandler : IPacketHandler σ} {memory : Memory} {totalSize start : Nat}
    {w last : σ} {ds o socketOpen} (walk : Walk pHandler memory totalSize start w ds o socketOpen last) :
    ds = [] ∨ start + ds.length ≤ totalSize := by
  induction walk with
  | done | hang | tail => exact .inl rfl
  | fault taken failed => exact .inr taken.unread
  | reject taken rejected => exact .inr taken.unread
  | @next start w w' rest o socketOpen last taken handled more ih =>
    right
    have unread := taken.unread
    have more := announcedPositive memory start
    rcases ih with none | some
    · simp only [none, List.length_singleton]
      omega
    · simp only [List.length_cons]
      omega

/- The callback came back, every payload it passed on had a byte at least, and there
were no more of them than bytes. -/
structure Terminates (totalSize : Nat) (result : Outcome × Receiving σ) : Prop where
  returned : result.1 = .returned
  sizes : ∀ d ∈ result.2.deliveries, 0 < d.payload.size.toInt
  count : result.2.deliveries.length ≤ totalSize

theorem terminatesExactly {block : BlockFunction} {c : CClientConnection} {chunk : Chunk}
    {stack memory : Memory} {heap : Behind}
    (started : c.start block (chunk.recvBuffer stack) heap chunk.bytes.length = .ok memory)
    (f : SPacketPayload → σ → Bool × σ) (w : σ) :
    Terminates chunk.bytes.length (recvPackets block c (returning f) chunk stack heap w) ↔
      NoneNegative (returning f) memory chunk.bytes.length 0 w := by
  have fits := chunk.fits
  unfold defaultBuflen at fits
  obtain ⟨o, t, ran, walk⟩ := startedWalk started (returning f) w
  rw [ran, ← walkReturns walk]
  constructor
  · intro ends
    exact ends.returned
  · intro returned
    refine ⟨returned, walkSizes (by omega) walk, ?_⟩
    rcases walkCount walk with none | some
    · simp [none]
    · simpa using some

def ping : Chunk := ⟨[1, 0], by decide, by decide⟩

theorem terminatesPing : Terminates 2 (recvPackets (fun _ _ => []) {} (returning fun _ w => (true, w))
    ping (fun _ => 255) ⟨fun _ => 255, fun _ => 255⟩ ()) := by
  refine (terminatesExactly (startedPlain _ none ping _ _) _ _).mpr ?_
  intro later last reached unread negative
  have large := negative.1
  have small : ∀ i < 2, (ping.recvBuffer (fun _ => 255) i).toNat < 128 := by decide +kernel
  exact absurd (small later unread) (by omega)

/- A length of -1, written the way the writer writes it. -/
def negativeLength : Chunk := ⟨[0xFF, 0xFF, 0xFF, 0xFF, 0x0F], by decide, by decide⟩

theorem negativeLengthHangs : ¬ ∀ (chunk : Chunk) (f : SPacketPayload → Unit → Bool × Unit),
    Terminates chunk.bytes.length
      (recvPackets (fun _ _ => []) {} (returning f) chunk (fun _ => 0) ⟨fun _ => 0, fun _ => 0⟩ ()) := by
  intro always
  have returned := (always negativeLength (fun _ w => (true, w))).returned
  revert returned
  decide +kernel

end Mcpp.Framing
