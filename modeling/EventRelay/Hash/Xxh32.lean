/-!
XXH32 with seed 0x9747b28c, the hash that places a record key in a partition.
-/
namespace EventRelay.Xxh32

def prime1 : UInt32 := 0x9E3779B1
def prime2 : UInt32 := 0x85EBCA77
def prime3 : UInt32 := 0xC2B2AE3D
def prime4 : UInt32 := 0x27D4EB2F
def prime5 : UInt32 := 0x165667B1
def seed : UInt32 := 0x9747b28c

def rotate (x : UInt32) (r : UInt32) : UInt32 := (x <<< r) ||| (x >>> (32 - r))

def word (bs : List UInt8) : UInt32 :=
  (bs.take 4).foldr (fun b w => (w <<< 8) ||| b.toUInt32) 0

def round (acc lane : UInt32) : UInt32 := rotate (acc + lane * prime2) 13 * prime1

structure Lanes where
  a : UInt32 := seed + prime1 + prime2
  b : UInt32 := seed + prime2
  c : UInt32 := seed
  d : UInt32 := seed - prime1

def Lanes.absorb (l : Lanes) (bs : List UInt8) : Lanes :=
  ⟨round l.a (word bs), round l.b (word (bs.drop 4)), round l.c (word (bs.drop 8)),
    round l.d (word (bs.drop 12))⟩

def Lanes.merge (l : Lanes) : UInt32 :=
  rotate l.a 1 + rotate l.b 7 + rotate l.c 12 + rotate l.d 18

def stripes : Nat → Lanes → List UInt8 → Lanes
  | 0, l, _ => l
  | n + 1, l, bs => stripes n (l.absorb bs) (bs.drop 16)

/- The bytes after the last stripe: whole words, then single bytes. -/
def words : Nat → UInt32 → List UInt8 → UInt32
  | 0, h, _ => h
  | n + 1, h, bs => words n (rotate (h + word bs * prime3) 17 * prime4) (bs.drop 4)

def singles (h : UInt32) (bs : List UInt8) : UInt32 :=
  bs.foldl (fun h b => rotate (h + b.toUInt32 * prime5) 11 * prime1) h

def avalanche (h : UInt32) : UInt32 :=
  let h := (h ^^^ (h >>> 15)) * prime2
  let h := (h ^^^ (h >>> 13)) * prime3
  h ^^^ (h >>> 16)

def hash (bs : List UInt8) : UInt32 :=
  let n := bs.length
  let h := if n < 16 then seed + prime5 else (stripes (n / 16) {} bs).merge
  let rest := bs.drop (n / 16 * 16)
  let h := words (rest.length / 4) (h + n.toUInt32) rest
  avalanche (singles h (rest.drop (rest.length / 4 * 4)))

end EventRelay.Xxh32
