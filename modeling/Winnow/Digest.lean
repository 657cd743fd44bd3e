/-! # BLAKE2b

The unkeyed BLAKE2b hash with a digest of one to sixty-four bytes. -/

namespace Winnow.Digest

def initial : Array UInt64 :=
  #[0x6a09e667f3bcc908, 0xbb67ae8584caa73b, 0x3c6ef372fe94f82b, 0xa54ff53a5f1d36f1,
    0x510e527fade682d1, 0x9b05688c2b3e6c1f, 0x1f83d9abfb41bd6b, 0x5be0cd19137e2179]

/-- The order in which each round takes the words of a block. -/
def schedule : Array (Array Nat) :=
  #[#[0, 1, 2, 3, 4, 5, 6, 7, 8, 9, 10, 11, 12, 13, 14, 15],
    #[14, 10, 4, 8, 9, 15, 13, 6, 1, 12, 0, 2, 11, 7, 5, 3],
    #[11, 8, 12, 0, 5, 2, 15, 13, 10, 14, 3, 6, 7, 1, 9, 4],
    #[7, 9, 3, 1, 13, 12, 11, 14, 2, 6, 5, 10, 4, 0, 15, 8],
    #[9, 0, 5, 7, 2, 4, 10, 15, 14, 1, 11, 12, 6, 8, 3, 13],
    #[2, 12, 6, 10, 0, 11, 8, 3, 4, 13, 7, 5, 15, 14, 1, 9],
    #[12, 5, 1, 15, 14, 13, 4, 10, 0, 7, 6, 3, 9, 2, 8, 11],
    #[13, 11, 7, 14, 12, 1, 3, 9, 5, 0, 15, 4, 8, 6, 2, 10],
    #[6, 15, 14, 9, 11, 3, 0, 8, 12, 2, 13, 7, 1, 4, 10, 5],
    #[10, 2, 8, 4, 7, 6, 1, 5, 15, 11, 9, 14, 3, 12, 13, 0]]

def rotateRight (x : UInt64) (n : UInt64) : UInt64 := (x >>> n) ||| (x <<< (64 - n))

/-- Mixes two words into four words of the working vector. -/
def mix (v : Array UInt64) (a b c d : Nat) (x y : UInt64) : Array UInt64 :=
  let at' (v : Array UInt64) (i : Nat) : UInt64 := v[i]?.getD 0
  let va := at' v a + at' v b + x
  let vd := rotateRight (at' v d ^^^ va) 32
  let vc := at' v c + vd
  let vb := rotateRight (at' v b ^^^ vc) 24
  let va := va + vb + y
  let vd := rotateRight (vd ^^^ va) 16
  let vc := vc + vd
  let vb := rotateRight (vb ^^^ vc) 63
  (((v.setIfInBounds a va).setIfInBounds b vb).setIfInBounds c vc).setIfInBounds d vd

/-- Columns and diagonals of the working vector, mixed in this order. -/
def quarters : List (Nat × Nat × Nat × Nat) :=
  [(0, 4, 8, 12), (1, 5, 9, 13), (2, 6, 10, 14), (3, 7, 11, 15),
   (0, 5, 10, 15), (1, 6, 11, 12), (2, 7, 8, 13), (3, 4, 9, 14)]

def round (block : Array UInt64) (v : Array UInt64) (i : Nat) : Array UInt64 :=
  let order := schedule[i % 10]?.getD #[]
  let word (j : Nat) : UInt64 := block[order[j]?.getD 0]?.getD 0
  (quarters.zipIdx).foldl (fun v ((a, b, c, d), j) => mix v a b c d (word (2 * j)) (word (2 * j + 1))) v

/-- Absorbs a block; `total` counts the bytes up to its end. -/
def compress (h : Array UInt64) (block : Array UInt64) (total : Nat) (last : Bool) : Array UInt64 :=
  let v := h ++ initial
  let v := v.modify 12 (· ^^^ UInt64.ofNat total)
  let v := v.modify 13 (· ^^^ UInt64.ofNat (total / Nat.pow 2 64))
  let v := if last then v.modify 14 (~~~ ·) else v
  let v := (List.range 12).foldl (round block) v
  (Array.range 8).map fun i => (h[i]?.getD 0) ^^^ (v[i]?.getD 0) ^^^ (v[i + 8]?.getD 0)

def littleEndian (bytes : List UInt8) : UInt64 :=
  bytes.foldr (fun b n => n <<< 8 ||| b.toUInt64) 0

/-- The sixteen words of a block, padded with zeros. -/
def wordsOf (bytes : List UInt8) : Array UInt64 :=
  (Array.range 16).map fun i => littleEndian ((bytes.drop (8 * i)).take 8)

/-- Absorbs the message block by block; only the last block may be short. -/
def absorb : Nat → Array UInt64 → Nat → List UInt8 → Array UInt64
  | 0, h, _, _ => h
  | fuel + 1, h, done, message =>
    let block := message.take 128
    let rest := message.drop 128
    let total := done + block.length
    if rest.isEmpty then compress h (wordsOf block) total true
    else absorb fuel (compress h (wordsOf block) total false) total rest

def bytesOf (n : UInt64) : List UInt8 :=
  (List.range 8).map fun i => (n >>> UInt64.ofNat (8 * i)).toUInt8

/-- The digest of a message. -/
def blake2b (size : Nat) (message : List UInt8) : List UInt8 :=
  let h := initial.modify 0 (· ^^^ (0x01010000 ^^^ UInt64.ofNat size))
  let h := absorb (message.length / 128 + 1) h 0 message
  (h.toList.flatMap bytesOf).take size

def hexText (bytes : List UInt8) : String :=
  String.ofList (bytes.flatMap fun b => [Nat.digitChar (b.toNat / 16), Nat.digitChar (b.toNat % 16)])

end Winnow.Digest
