import Chiralite.Framework.TwoDigits
import Chiralite.Protocol.Messages

/-!
# Rapidhash

`rapidhash` of `hash.py`, which calls the C function of the same name in `vendor/rapidhash.h`; the
build sets none of its options, so that the loop is the compact one and `rapid_mum` the fast one.
A pointer into the buffer is an offset, and a read takes the proof that the bytes it reads lie in
the buffer: the function can be written down like this only because it never reads outside.

The header is written for other compilers, machines and options too: `Build.rapidhashInternal` is
the function as any build compiles it.
-/

namespace Chiralite

/-- `rapid_secret`. -/
def rapidSecret : Fin 8 → UInt64
  | 0 => 0x2d358dccaa6c78a5
  | 1 => 0x8bb84b93962eacc9
  | 2 => 0x4b33a62ed433d4a3
  | 3 => 0x4d5a2da51de1aa47
  | 4 => 0xa0761d6478bd642f
  | 5 => 0xe7037ed1a0b428db
  | 6 => 0x90ed1765281c388c
  | 7 => 0xaaaaaaaaaaaaaaaa

/-- `rapid_mum`: the low and the high half of the product. -/
def rapidMum (a b : UInt64) : UInt64 × UInt64 :=
  let r := a.toNat * b.toNat
  (UInt64.ofNat r, UInt64.ofNat (r / 2 ^ 64))

/-- `rapid_mix`. -/
def rapidMix (a b : UInt64) : UInt64 := (rapidMum a b).1 ^^^ (rapidMum a b).2

/-- The number with these bytes, the lowest first. -/
def littleEndian (bytes : Bytes) : UInt64 :=
  bytes.foldr (fun b n => n <<< 8 ||| b.toUInt64) 0

section Reads

variable (data : Bytes) (p : Nat)

/-- `rapid_read64`. -/
def rapidRead64 (_ : p + 8 ≤ data.length) : UInt64 := littleEndian ((data.drop p).take 8)

/-- `rapid_read32`. -/
def rapidRead32 (_ : p + 4 ≤ data.length) : UInt64 := littleEndian ((data.drop p).take 4)

/-- One step of a lane: sixteen bytes are mixed into it. -/
def rapidLane (k : Fin 8) (seed : UInt64) (h : p + 16 ≤ data.length) : UInt64 :=
  rapidMix (rapidRead64 data p (by omega) ^^^ rapidSecret k)
    (rapidRead64 data (p + 8) (by omega) ^^^ seed)

end Reads

/-- The seven lanes of the loop over long buffers. -/
structure Lanes where
  seed : UInt64
  see1 : UInt64
  see2 : UInt64
  see3 : UInt64
  see4 : UInt64
  see5 : UInt64
  see6 : UInt64

/-- The body of the loop. -/
def Lanes.step (l : Lanes) (data : Bytes) (p : Nat) (h : p + 112 ≤ data.length) : Lanes where
  seed := rapidLane data p 0 l.seed (by omega)
  see1 := rapidLane data (p + 16) 1 l.see1 (by omega)
  see2 := rapidLane data (p + 32) 2 l.see2 (by omega)
  see3 := rapidLane data (p + 48) 3 l.see3 (by omega)
  see4 := rapidLane data (p + 64) 4 l.see4 (by omega)
  see5 := rapidLane data (p + 80) 5 l.see5 (by omega)
  see6 := rapidLane data (p + 96) 6 l.see6 (by omega)

/-- The lanes folded into one. -/
def Lanes.fold (l : Lanes) : UInt64 :=
  let seed := l.seed ^^^ l.see1
  let see2 := l.see2 ^^^ l.see3
  let see4 := l.see4 ^^^ l.see5
  let seed := seed ^^^ l.see6
  let see2 := see2 ^^^ see4
  seed ^^^ see2

/-- The part of a buffer that is left, and the seed so far. -/
structure Rest (data : Bytes) where
  p : Nat
  i : Nat
  inside : p + i = data.length
  seed : UInt64

/-- The loop over long buffers: `do … while (i > 112)`. -/
def rapidBulk (data : Bytes) (p i : Nat) (inside : p + i = data.length) (hi : 112 < i)
    (l : Lanes) : Rest data :=
  let l := l.step data p (by omega)
  if hmore : 112 < i - 112 then rapidBulk data (p + 112) (i - 112) (by omega) hmore l
  else ⟨p + 112, i - 112, by omega, l.fold⟩
termination_by i

/-- The at most 112 bytes that are left, in steps of sixteen. -/
def rapidTail {data : Bytes} (r : Rest data) : UInt64 :=
  have inside := r.inside
  -- the lanes of the tail use the secrets 2, 2, 1, 1, 2, 1
  if h₁ : 16 < r.i then
    let seed := rapidLane data r.p 2 r.seed (by omega)
    if h₂ : 32 < r.i then
      let seed := rapidLane data (r.p + 16) 2 seed (by omega)
      if h₃ : 48 < r.i then
        let seed := rapidLane data (r.p + 32) 1 seed (by omega)
        if h₄ : 64 < r.i then
          let seed := rapidLane data (r.p + 48) 1 seed (by omega)
          if h₅ : 80 < r.i then
            let seed := rapidLane data (r.p + 64) 2 seed (by omega)
            if h₆ : 96 < r.i then rapidLane data (r.p + 80) 1 seed (by omega)
            else seed
          else seed
        else seed
      else seed
    else seed
  else r.seed

/-- The end of `rapidhash_internal`. -/
def rapidFinish (a b seed : UInt64) (i : Nat) : UInt64 :=
  let m := rapidMum (a ^^^ rapidSecret 1) (b ^^^ seed)
  rapidMix (m.1 ^^^ rapidSecret 7) (m.2 ^^^ rapidSecret 1 ^^^ UInt64.ofNat i)

/-- `rapidhash_internal`, with `rapid_secret`. -/
def rapidhashInternal (data : Bytes) (seed : UInt64) : UInt64 :=
  let len := data.length
  let seed := seed ^^^ rapidMix (seed ^^^ rapidSecret 2) (rapidSecret 1)
  if h16 : len ≤ 16 then
    if h4 : 4 ≤ len then
      -- only here is the length mixed into the seed
      let seed := seed ^^^ UInt64.ofNat len
      if h8 : 8 ≤ len then
        rapidFinish (rapidRead64 data 0 (by omega)) (rapidRead64 data (len - 8) (by omega)) seed len
      else
        rapidFinish (rapidRead32 data 0 (by omega)) (rapidRead32 data (len - 4) (by omega)) seed len
    else if h0 : 0 < len then
      rapidFinish ((data.get ⟨0, h0⟩).toUInt64 <<< 45 ||| (data.get ⟨len - 1, by omega⟩).toUInt64)
        (data.get ⟨len >>> 1, by rw [Nat.shiftRight_eq_div_pow]; omega⟩).toUInt64 seed len
    else rapidFinish 0 0 seed len
  else
    let r : Rest data :=
      if h112 : 112 < len then
        rapidBulk data 0 len (by omega) h112 ⟨seed, seed, seed, seed, seed, seed, seed⟩
      else ⟨0, len, by omega, seed⟩
    have inside : r.p + r.i = len := r.inside
    -- the last sixteen bytes are read whether or not the tail has mixed them in
    rapidFinish (rapidRead64 data (r.p + r.i - 16) (by omega) ^^^ UInt64.ofNat r.i)
      (rapidRead64 data (r.p + r.i - 8) (by omega)) (rapidTail r) r.i

/-- `rapidhash` of `hash.py`. Without a seed it calls the C function that has the seed 0. -/
def rapidhash (data : Bytes) (seed : UInt64 := 0) : Int := (rapidhashInternal data seed).toNat

/-- **Every digest fits the wire.** -/
theorem rapidHashInt_rapidhash (data : Bytes) (seed : UInt64) :
    RapidHashInt (rapidhash data seed) := by
  have hlt := (rapidhashInternal data seed).toNat_lt
  unfold RapidHashInt rapidhash
  omega

/-! ### Other builds -/

/-- The multiplication of the last branch of `rapid_mum`, out of 32-bit halves. -/
def mumHalves (a b : UInt64) : UInt64 × UInt64 :=
  let ha := a >>> 32
  let hb := b >>> 32
  let la := a.toUInt32.toUInt64
  let lb := b.toUInt32.toUInt64
  let rh := ha * hb
  let rm0 := ha * lb
  let rm1 := hb * la
  let rl := la * lb
  let t := rl + (rm0 <<< 32)
  let c : UInt64 := if t < rl then 1 else 0
  let lo := t + (rm1 <<< 32)
  let c := c + if lo < t then 1 else 0
  let hi := rh + (rm0 >>> 32) + (rm1 >>> 32) + c
  (lo, hi)

/-- The bytes of a word, the lowest first. -/
def wordBytes (n : Nat) (v : UInt64) : Bytes :=
  (List.range n).map fun k => UInt8.ofBitVec (v.toBitVec.extractLsb' (8 * k) 8)

/-- `__builtin_bswap64` and `_byteswap_uint64`: the bytes in the other order. -/
def bswap64 (v : UInt64) : UInt64 := littleEndian (wordBytes 8 v).reverse

/-- `__builtin_bswap32` and `_byteswap_ulong`. -/
def bswap32 (v : UInt32) : UInt32 := (littleEndian (wordBytes 4 v.toUInt64).reverse).toUInt32

/-- The shifts of the last `rapid_read64`. -/
def shiftSwap64 (v : UInt64) : UInt64 :=
  (v >>> 56 &&& (0xff : UInt64)) ||| (v >>> 40 &&& (0xff00 : UInt64)) |||
  (v >>> 24 &&& (0xff0000 : UInt64)) ||| (v >>> 8 &&& (0xff000000 : UInt64)) |||
  (v <<< 8 &&& (0xff00000000 : UInt64)) ||| (v <<< 24 &&& (0xff0000000000 : UInt64)) |||
  (v <<< 40 &&& (0xff000000000000 : UInt64)) ||| (v <<< 56 &&& (0xff00000000000000 : UInt64))

/-- The shifts of the last `rapid_read32`. -/
def shiftSwap32 (v : UInt32) : UInt32 :=
  (v >>> 24 &&& (0xff : UInt32)) ||| (v >>> 8 &&& (0xff00 : UInt32)) |||
  (v <<< 8 &&& (0xff0000 : UInt32)) ||| (v <<< 24 &&& (0xff000000 : UInt32))

/-- How `rapid_mum` multiplies: with `__uint128_t` or an intrinsic (`_umul128`, `__umulh`), which
give both halves of the product, or with halves. -/
inductive Multiply where
  | wide
  | halves

/-- The order of the bytes of a word in memory, and how it is put right. -/
inductive Reads where
  | littleEndian
  | bigSwapped
  | bigShifted

/-- A build: what the compiler and the machine have, and the options. -/
structure Build where
  multiply : Multiply
  reads : Reads
  /-- `RAPIDHASH_COMPACT`; otherwise `RAPIDHASH_UNROLLED`. -/
  compact : Bool
  /-- `RAPIDHASH_PROTECTED`; otherwise `RAPIDHASH_FAST`. -/
  isProtected : Bool

/-- The functions that depend on the compiler and the machine. -/
structure Primitives where
  mum : UInt64 → UInt64 → UInt64 × UInt64
  read64 : {bytes : Bytes // bytes.length = 8} → UInt64
  read32 : {bytes : Bytes // bytes.length = 4} → UInt64

namespace Build

variable (B : Build)

/-- `rapid_mum`. -/
def rapidMum (a b : UInt64) : UInt64 × UInt64 :=
  let r := match B.multiply with
    | .wide => Chiralite.rapidMum a b
    | .halves => mumHalves a b
  if B.isProtected then (a ^^^ r.1, b ^^^ r.2) else r

/-- `rapid_read64`: the word that `memcpy` fills from these bytes, put right. -/
def rapidRead64 (bytes : {bytes : Bytes // bytes.length = 8}) : UInt64 :=
  match B.reads with
  | .littleEndian => Chiralite.littleEndian bytes.1
  | .bigSwapped => bswap64 (Chiralite.littleEndian bytes.1.reverse)
  | .bigShifted => shiftSwap64 (Chiralite.littleEndian bytes.1.reverse)

/-- `rapid_read32`, whose word has 32 bits and is returned in 64. -/
def rapidRead32 (bytes : {bytes : Bytes // bytes.length = 4}) : UInt64 :=
  match B.reads with
  | .littleEndian => (Chiralite.littleEndian bytes.1).toUInt32.toUInt64
  | .bigSwapped => (bswap32 (Chiralite.littleEndian bytes.1.reverse).toUInt32).toUInt64
  | .bigShifted => (shiftSwap32 (Chiralite.littleEndian bytes.1.reverse).toUInt32).toUInt64

def primitives : Primitives := ⟨B.rapidMum, B.rapidRead64, B.rapidRead32⟩

end Build

/-! ### The hash over the primitives -/

namespace Primitives

variable (P : Primitives)

/-- `rapid_mix`. -/
def mix (a b : UInt64) : UInt64 := (P.mum a b).1 ^^^ (P.mum a b).2

section Reads

variable (data : Bytes) (p : Nat)

def readAt64 (h : p + 8 ≤ data.length) : UInt64 :=
  P.read64 ⟨(data.drop p).take 8, by rw [List.length_take, List.length_drop]; omega⟩

def readAt32 (h : p + 4 ≤ data.length) : UInt64 :=
  P.read32 ⟨(data.drop p).take 4, by rw [List.length_take, List.length_drop]; omega⟩

/-- One step of a lane: sixteen bytes are mixed into it. -/
def lane (k : Fin 8) (seed : UInt64) (h : p + 16 ≤ data.length) : UInt64 :=
  P.mix (P.readAt64 data p (by omega) ^^^ rapidSecret k)
    (P.readAt64 data (p + 8) (by omega) ^^^ seed)

/-- The body of the loop: one block of 112 bytes. -/
def block (l : Lanes) (h : p + 112 ≤ data.length) : Lanes where
  seed := P.lane data p 0 l.seed (by omega)
  see1 := P.lane data (p + 16) 1 l.see1 (by omega)
  see2 := P.lane data (p + 32) 2 l.see2 (by omega)
  see3 := P.lane data (p + 48) 3 l.see3 (by omega)
  see4 := P.lane data (p + 64) 4 l.see4 (by omega)
  see5 := P.lane data (p + 80) 5 l.see5 (by omega)
  see6 := P.lane data (p + 96) 6 l.see6 (by omega)

end Reads

/-- The compact loop: `do … while (i > 112)`. -/
def bulk (data : Bytes) (p i : Nat) (inside : p + i = data.length) (hi : 112 < i) (l : Lanes) :
    Rest data :=
  let l := P.block data p l (by omega)
  if hmore : 112 < i - 112 then bulk data (p + 112) (i - 112) (by omega) hmore l
  else ⟨p + 112, i - 112, by omega, l.fold⟩
termination_by i

/-- The unrolled loop: `while (i > 224)` two blocks, and then one `if (i > 112)`. -/
def bulkUnrolled (data : Bytes) (p i : Nat) (inside : p + i = data.length) (l : Lanes) :
    Rest data :=
  if htwo : 224 < i then
    let l := P.block data p l (by omega)
    let l := P.block data (p + 112) l (by omega)
    bulkUnrolled data (p + 224) (i - 224) (by omega) l
  else if hone : 112 < i then ⟨p + 112, i - 112, by omega, (P.block data p l (by omega)).fold⟩
  else ⟨p, i, inside, l.fold⟩
termination_by i

/-- The bytes behind the loop, in steps of sixteen. -/
def tail {data : Bytes} (r : Rest data) : UInt64 :=
  have inside := r.inside
  if h₁ : 16 < r.i then
    let seed := P.lane data r.p 2 r.seed (by omega)
    if h₂ : 32 < r.i then
      let seed := P.lane data (r.p + 16) 2 seed (by omega)
      if h₃ : 48 < r.i then
        let seed := P.lane data (r.p + 32) 1 seed (by omega)
        if h₄ : 64 < r.i then
          let seed := P.lane data (r.p + 48) 1 seed (by omega)
          if h₅ : 80 < r.i then
            let seed := P.lane data (r.p + 64) 2 seed (by omega)
            if h₆ : 96 < r.i then P.lane data (r.p + 80) 1 seed (by omega)
            else seed
          else seed
        else seed
      else seed
    else seed
  else r.seed

/-- The end of `rapidhash_internal`. -/
def finish (a b seed : UInt64) (i : Nat) : UInt64 :=
  let m := P.mum (a ^^^ rapidSecret 1) (b ^^^ seed)
  P.mix (m.1 ^^^ rapidSecret 7) (m.2 ^^^ rapidSecret 1 ^^^ UInt64.ofNat i)

/-- The loop over a long buffer, and where it stops. -/
def rest (compact : Bool) (data : Bytes) (seed : UInt64) : Rest data :=
  if h112 : 112 < data.length then
    let l : Lanes := ⟨seed, seed, seed, seed, seed, seed, seed⟩
    if compact then P.bulk data 0 data.length (Nat.zero_add _) h112 l
    else P.bulkUnrolled data 0 data.length (Nat.zero_add _) l
  else ⟨0, data.length, Nat.zero_add _, seed⟩

/-- `rapidhash_internal`, with `rapid_secret`. -/
def hash (compact : Bool) (data : Bytes) (seed : UInt64) : UInt64 :=
  let len := data.length
  let seed := seed ^^^ P.mix (seed ^^^ rapidSecret 2) (rapidSecret 1)
  if h16 : len ≤ 16 then
    if h4 : 4 ≤ len then
      let seed := seed ^^^ UInt64.ofNat len
      if h8 : 8 ≤ len then
        P.finish (P.readAt64 data 0 (by omega)) (P.readAt64 data (len - 8) (by omega)) seed len
      else
        P.finish (P.readAt32 data 0 (by omega)) (P.readAt32 data (len - 4) (by omega)) seed len
    else if h0 : 0 < len then
      P.finish ((data.get ⟨0, h0⟩).toUInt64 <<< 45 ||| (data.get ⟨len - 1, by omega⟩).toUInt64)
        (data.get ⟨len >>> 1, by rw [Nat.shiftRight_eq_div_pow]; omega⟩).toUInt64 seed len
    else P.finish 0 0 seed len
  else
    let r := P.rest compact data seed
    have inside : r.p + r.i = len := r.inside
    P.finish (P.readAt64 data (r.p + r.i - 16) (by omega) ^^^ UInt64.ofNat r.i)
      (P.readAt64 data (r.p + r.i - 8) (by omega)) (P.tail r) r.i

end Primitives

/-- `rapidhash_internal` as the build compiles it. -/
def Build.rapidhashInternal (B : Build) (data : Bytes) (seed : UInt64) : UInt64 :=
  B.primitives.hash B.compact data seed

end Chiralite
