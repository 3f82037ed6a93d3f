import Mcpp.Buffers

/-! CUUID on a little-endian machine, where the betole and letobe macros are the
identity. A vector register is the function from a byte's index to the byte; each
operation below is the intrinsic of its name, lane by lane. -/
namespace Mcpp.Uuid
open Buffers

structure CUUID where
  data : Bytes
  sized : data.length = 16
  deriving DecidableEq

/- `CUUID(uint64_t x, uint64_t y)`: `_mm_set_epi64x` puts `y` in the low half. -/
def CUUID.ofWords (x y : BitVec 64) : CUUID :=
  ⟨littleEndian 8 y.toNat ++ littleEndian 8 x.toNat, by simp⟩

def CUUID.bytes (uuid : CUUID) : Bytes := uuid.data

def convertSlimToFullUUID (uuid : Bytes) : Bytes :=
  if uuid.length ≠ 32 then []
  else (uuid.drop 0).take 8 ++ [45] ++ (uuid.drop 8).take 4 ++ [45] ++ (uuid.drop 12).take 4 ++
    [45] ++ (uuid.drop 16).take 4 ++ [45] ++ (uuid.drop 20).take 12

abbrev Register := Nat → UInt8

def set (bytes : Bytes) : Register := fun i => bytes.getD i 0

def set1 (b : UInt8) : Register := fun _ => b

/- The little-endian integer in lane `k` of `width` bytes. -/
def lane (width k : Nat) (a : Register) : Nat := ofLittleEndian (slice a (width*k) width)

/- Builds a register from what each lane of `width` bytes holds. -/
def ofLanes (width : Nat) (f : Nat → Nat) : Register :=
  fun i => UInt8.ofNat (f (i/width) / 256^(i % width))

def shuffleEpi8 (a b : Register) : Register :=
  fun i => if b i &&& 0x80 = 0 then a (16*(i/16) + (b i &&& 0x0F).toNat) else 0

def insertAt (a : Register) (start : Nat) (bytes : Bytes) : Register :=
  fun i => if start ≤ i ∧ i < start + bytes.length then bytes.getD (i - start) 0 else a i

def subEpi8 (a b : Register) : Register := fun i => a i - b i
def andSi256 (a b : Register) : Register := fun i => a i &&& b i

def blendvEpi8 (a b mask : Register) : Register :=
  fun i => if mask i &&& 0x80 = 0 then a i else b i

def slliEpi64 (a : Register) (count : Nat) : Register :=
  ofLanes 8 (fun k => (lane 8 k a <<< count) % 2^64)

def sllvEpi32 (a counts : Register) : Register :=
  ofLanes 4 (fun k => (lane 4 k a <<< lane 4 k counts) % 2^32)

/- `_mm256_hadd_epi32(a, 0)`: sums of neighbours in the low half of each 128-bit lane. -/
def haddEpi32 (a : Register) : Register :=
  ofLanes 4 (fun k => if k % 4 < 2 then
    (lane 4 (4*(k/4) + 2*(k % 4)) a + lane 4 (4*(k/4) + 2*(k % 4) + 1) a) % 2^32 else 0)

def permute4x64Epi64 (a : Register) (control : Nat) : Register :=
  ofLanes 8 (fun k => lane 8 (control / 4^k % 4) a)

def dashShuffle : Register := set
  [0x00,0x01,0x02,0x03, 0x04,0x05,0x06,0x07, 0x09,0x0a,0x0b,0x0c, 0x0e,0x0f,0x80,0x80,
   0x03,0x04,0x05,0x06, 0x08,0x09,0x0a,0x0b, 0x0c,0x0d,0x0e,0x0f, 0x80,0x80,0x80,0x80]

def unweave : Register := set
  [0x00,0x02,0x04,0x06, 0x01,0x03,0x05,0x07, 0x08,0x0a,0x0c,0x0e, 0x09,0x0b,0x0d,0x0f,
   0x00,0x02,0x04,0x06, 0x01,0x03,0x05,0x07, 0x08,0x0a,0x0c,0x0e, 0x09,0x0b,0x0d,0x0f]

def shift : Register := ofLanes 4 (fun k => if k % 2 = 0 then 4 else 0)

/- Reads 36 bytes from `mem`, however long the string there is. -/
def stom128i (mem : Memory) : Bytes :=
  let x := shuffleEpi8 mem dashShuffle
  let x := insertAt x 14 (slice mem 16 2)
  let x := insertAt x 28 (slice mem 32 4)
  let a := subEpi8 x (set1 0x2F)
  let alpha := slliEpi64 (andSi256 a (set1 0x20)) 2
  let subMask := blendvEpi8 (set1 0x01) (set1 0x28) alpha
  let a := subEpi8 a subMask
  let a := shuffleEpi8 a unweave
  let a := sllvEpi32 a shift
  let a := haddEpi32 a
  let a := permute4x64Epi64 a 0b00001000
  slice a 0 16

/- `past` is what follows the characters of the string and their terminator. -/
def fromStrFactory (s : Bytes) (past : Memory) : CUUID :=
  ⟨stom128i (buffer (s ++ [0]) past), by simp [stom128i]⟩

/-! The other way: 36 characters from 16 bytes. -/

def addEpi8 (a b : Register) : Register := fun i => a i + b i
def orSi256 (a b : Register) : Register := fun i => a i ||| b i

def srliEpi64 (a : Register) (count : Nat) : Register := ofLanes 8 (fun k => lane 8 k a >>> count)

/- Bytes of `a` and `b` in turn, from the low half of each 128-bit lane. -/
def unpackloEpi8 (a b : Register) : Register :=
  fun i => if i % 2 = 0 then a (16*(i/16) + i % 16 / 2) else b (16*(i/16) + i % 16 / 2)

def unpackhiEpi8 (a b : Register) : Register :=
  fun i => if i % 2 = 0 then a (16*(i/16) + 8 + i % 16 / 2) else b (16*(i/16) + 8 + i % 16 / 2)

def inserti128Si256 (a b : Register) (half : Nat) : Register :=
  fun i => if i / 16 = half then b (i % 16) else a i

/- The intrinsic says nothing of the upper half. -/
def castsi128Si256 (x : Bytes) (undefined : Register) : Register :=
  fun i => if i < 16 then x.getD i 0 else undefined i

def insertDashes : Register := set
  [0x00,0x01,0x02,0x03, 0x04,0x05,0x06,0x07, 0x80,0x08,0x09,0x0a, 0x0b,0x80,0x0c,0x0d,
   0x80,0x80,0x80,0x00, 0x01,0x02,0x03,0x80, 0x04,0x05,0x06,0x07, 0x08,0x09,0x0a,0x0b]

def dash : Register := set
  [0x00,0x00,0x00,0x00, 0x00,0x00,0x00,0x00, 0x2d,0x00,0x00,0x00, 0x00,0x2d,0x00,0x00,
   0x00,0x00,0x2d,0x00, 0x00,0x00,0x00,0x2d, 0x00,0x00,0x00,0x00, 0x00,0x00,0x00,0x00]

def m128itos (x : Bytes) (undefined : Register) : Bytes :=
  let add := set1 0x06
  let a := castsi128Si256 x undefined
  let shifted := srliEpi64 a 4
  let lo := unpackloEpi8 shifted a
  let hi := unpackhiEpi8 shifted a
  let c := inserti128Si256 lo hi 1
  let d := andSi256 c (set1 0x0F)
  let alpha := slliEpi64 (andSi256 (addEpi8 d add) (set1 0x10)) 3
  let offset := blendvEpi8 (slliEpi64 add 3) (set1 0x57) alpha
  let res := addEpi8 d offset
  let mem := orSi256 (shuffleEpi8 res insertDashes) dash
  let mem := insertAt mem 16 (slice res 14 2)
  let mem := insertAt mem 32 (slice res 28 4)
  slice mem 0 36

def CUUID.str (uuid : CUUID) (undefined : Register) : Bytes := m128itos uuid.data undefined

end Mcpp.Uuid
