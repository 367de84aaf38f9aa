/-! # Fingerprints

A fingerprint is one word made of a list of bytes. The bytes are read in words, and each word is
masked with a word of a fixed key. Lists of up to 240 bytes are cut into blocks of two words, and
what is added for a block is the folded product of its masked words. Longer lists are cut into
stripes of eight words, which pass through eight lanes; the lanes are scrambled after every
sixteen stripes and folded in pairs at the end.

There are fewer fingerprints than lists, so different lists may share one. -/

namespace TableQuery.Fingerprint

/-- The bytes of the key. -/
def key : Array UInt8 :=
  #[0xb8, 0xfe, 0x6c, 0x39, 0x23, 0xa4, 0x4b, 0xbe, 0x7c, 0x01, 0x81, 0x2c,
    0xf7, 0x21, 0xad, 0x1c, 0xde, 0xd4, 0x6d, 0xe9, 0x83, 0x90, 0x97, 0xdb,
    0x72, 0x40, 0xa4, 0xa4, 0xb7, 0xb3, 0x67, 0x1f, 0xcb, 0x79, 0xe6, 0x4e,
    0xcc, 0xc0, 0xe5, 0x78, 0x82, 0x5a, 0xd0, 0x7d, 0xcc, 0xff, 0x72, 0x21,
    0xb8, 0x08, 0x46, 0x74, 0xf7, 0x43, 0x24, 0x8e, 0xe0, 0x35, 0x90, 0xe6,
    0x81, 0x3a, 0x26, 0x4c, 0x3c, 0x28, 0x52, 0xbb, 0x91, 0xc3, 0x00, 0xcb,
    0x88, 0xd0, 0x65, 0x8b, 0x1b, 0x53, 0x2e, 0xa3, 0x71, 0x64, 0x48, 0x97,
    0xa2, 0x0d, 0xf9, 0x4e, 0x38, 0x19, 0xef, 0x46, 0xa9, 0xde, 0xac, 0xd8,
    0xa8, 0xfa, 0x76, 0x3f, 0xe3, 0x9c, 0x34, 0x3f, 0xf9, 0xdc, 0xbb, 0xc7,
    0xc7, 0x0b, 0x4f, 0x1d, 0x8a, 0x51, 0xe0, 0x4b, 0xcd, 0xb4, 0x59, 0x31,
    0xc8, 0x9f, 0x7e, 0xc9, 0xd9, 0x78, 0x73, 0x64, 0xea, 0xc5, 0xac, 0x83,
    0x34, 0xd3, 0xeb, 0xc3, 0xc5, 0x81, 0xa0, 0xff, 0xfa, 0x13, 0x63, 0xeb,
    0x17, 0x0d, 0xdd, 0x51, 0xb7, 0xf0, 0xda, 0x49, 0xd3, 0x16, 0x55, 0x26,
    0x29, 0xd4, 0x68, 0x9e, 0x2b, 0x16, 0xbe, 0x58, 0x7d, 0x47, 0xa1, 0xfc,
    0x8f, 0xf8, 0xb8, 0xd1, 0x7a, 0xd0, 0x31, 0xce, 0x45, 0xcb, 0x3a, 0x8f,
    0x95, 0x16, 0x04, 0x28, 0xaf, 0xd7, 0xfb, 0xca, 0xbb, 0x4b, 0x40, 0x7e]

/-- The word at a place: eight bytes, the lowest first. Behind the last byte all are zero. -/
def wordAt (bytes : Array UInt8) (place : Nat) : UInt64 :=
  (List.range 8).foldr (fun i word => (word <<< 8) ||| (bytes.getD (place + i) 0).toUInt64) 0

/-- The word at a place, masked with the word of the key at another place. -/
def maskedAt (bytes : Array UInt8) (place keyPlace : Nat) : UInt64 :=
  wordAt bytes place ^^^ wordAt key keyPlace

/-- The product of two words in full, its high half laid over its low half. -/
def foldProduct (a b : UInt64) : UInt64 :=
  let product := a.toNat * b.toNat
  .ofNat product ^^^ .ofNat (product >>> 64)

/-- Spreads the bits of a word over all of it. -/
def spread (w : UInt64) : UInt64 :=
  let w := (w ^^^ (w >>> 37)) * 0x165667919e3779f9
  w ^^^ (w >>> 32)

/-- What a fingerprint of a number of bytes starts from. -/
def start (size : Nat) : UInt64 := .ofNat size * 0x9e3779b185ebca87

/-- What is added for the block of two words at a place. -/
def block (bytes : Array UInt8) (place keyPlace : Nat) : UInt64 :=
  foldProduct (maskedAt bytes place keyPlace) (maskedAt bytes (place + 8) (keyPlace + 8))

/-- The fingerprint of at most 128 bytes. The blocks are taken from both ends, in pairs, until
they meet. A list shorter than a block is read as if zeros followed it. -/
def ofShort (bytes : Array UInt8) : UInt64 :=
  let size := bytes.size
  let add (sum : UInt64) (i : Nat) : UInt64 :=
    sum + block bytes (16 * i) (32 * i) + block bytes (size - 16 * (i + 1)) (32 * i + 16)
  spread ((List.range ((size - 1) / 32 + 1)).foldl add (start size))

/-- The fingerprint of 129 to 240 bytes. The sum is spread after the first eight blocks, and the
last block ends with the last byte. -/
def ofMedium (bytes : Array UInt8) : UInt64 :=
  let size := bytes.size
  let first := (List.range 8).foldl (fun sum i => sum + block bytes (16 * i) (16 * i)) (start size)
  let rest := (List.range (size / 16 - 8)).foldl
    (fun sum i => sum + block bytes (16 * (i + 8)) (16 * i + 3)) (spread first)
  spread (rest + block bytes (size - 16) 119)

/-- The lanes before the first stripe. -/
def firstLanes : Array UInt64 :=
  #[0xc2b2ae3d, 0x9e3779b185ebca87, 0xc2b2ae3d27d4eb4f, 0x165667b19e3779f9,
    0x85ebca77c2b2ae63, 0x85ebca77, 0x27d4eb2f165667c5, 0x9e3779b1]

/-- What a lane gains from the stripe at a place: the product of the halves of its masked word, and
the word of the lane beside it. -/
def laneGain (bytes : Array UInt8) (place keyPlace i : Nat) : UInt64 :=
  let masked := maskedAt bytes (place + 8 * i) (keyPlace + 8 * i)
  let low : UInt64 := masked &&& 0xffffffff
  let high : UInt64 := masked >>> 32
  wordAt bytes (place + 8 * (i ^^^ 1)) + low * high

/-- Passes the stripe at a place through the lanes. -/
def absorb (bytes : Array UInt8) (place keyPlace : Nat) (lanes : Array UInt64) : Array UInt64 :=
  lanes.mapIdx fun i lane => lane + laneGain bytes place keyPlace i

/-- Scrambles a lane. -/
def scrambleLane (i : Nat) (lane : UInt64) : UInt64 :=
  (lane ^^^ (lane >>> 47) ^^^ wordAt key (128 + 8 * i)) * 0x9e3779b1

/-- Passes a stripe of the given number through the lanes, which are scrambled after the last one
of sixteen. -/
def absorbNext (bytes : Array UInt8) (lanes : Array UInt64) (i : Nat) : Array UInt64 :=
  let lanes := absorb bytes (64 * i) (8 * (i % 16)) lanes
  if i % 16 = 15 then lanes.mapIdx scrambleLane else lanes

/-- Folds the lanes in pairs to the fingerprint of a number of bytes. -/
def ofLanes (size : Nat) (lanes : Array UInt64) : UInt64 :=
  let masked (i : Nat) : UInt64 := lanes.getD i 0 ^^^ wordAt key (8 * i + 11)
  spread ((List.range 4).foldl
    (fun sum i => sum + foldProduct (masked (2 * i)) (masked (2 * i + 1))) (start size))

/-- The fingerprint of more than 240 bytes. The last stripe ends with the last byte. -/
def ofLong (bytes : Array UInt8) : UInt64 :=
  let size := bytes.size
  let lanes := (List.range ((size - 1) / 64)).foldl (absorbNext bytes) firstLanes
  ofLanes size (absorb bytes (size - 64) 121 lanes)

/-- The fingerprint of a list of bytes. -/
def ofBytes (bytes : List UInt8) : UInt64 :=
  let bytes := bytes.toArray
  if bytes.size ≤ 128 then ofShort bytes
  else if bytes.size ≤ 240 then ofMedium bytes
  else ofLong bytes

end TableQuery.Fingerprint
