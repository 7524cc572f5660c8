/-!
XXH64 with seed 0, the hash that places a channel name in a registry shard.
-/
namespace EventRelay.Xxh64

def prime1 : UInt64 := 0x9E3779B185EBCA87
def prime2 : UInt64 := 0xC2B2AE3D27D4EB4F
def prime3 : UInt64 := 0x165667B19E3779F9
def prime4 : UInt64 := 0x85EBCA77C2B2AE63
def prime5 : UInt64 := 0x27D4EB2F165667C5

def rotate (x : UInt64) (r : UInt64) : UInt64 := (x <<< r) ||| (x >>> (64 - r))

def word (n : Nat) (bs : List UInt8) : UInt64 :=
  (bs.take n).foldr (fun b w => (w <<< 8) ||| b.toUInt64) 0

def round (acc lane : UInt64) : UInt64 := rotate (acc + lane * prime2) 31 * prime1

structure Lanes where
  a : UInt64 := prime1 + prime2
  b : UInt64 := prime2
  c : UInt64 := 0
  d : UInt64 := 0 - prime1

def Lanes.absorb (l : Lanes) (bs : List UInt8) : Lanes :=
  ⟨round l.a (word 8 bs), round l.b (word 8 (bs.drop 8)), round l.c (word 8 (bs.drop 16)),
    round l.d (word 8 (bs.drop 24))⟩

def Lanes.merge (l : Lanes) : UInt64 :=
  [l.a, l.b, l.c, l.d].foldl (fun h v => (h ^^^ round 0 v) * prime1 + prime4)
    (rotate l.a 1 + rotate l.b 7 + rotate l.c 12 + rotate l.d 18)

def stripes : Nat → Lanes → List UInt8 → Lanes
  | 0, l, _ => l
  | n + 1, l, bs => stripes n (l.absorb bs) (bs.drop 32)

/- The bytes after the last stripe: whole words, then a half word, then single bytes. -/
def words : Nat → UInt64 → List UInt8 → UInt64
  | 0, h, _ => h
  | n + 1, h, bs =>
    words n (rotate (h ^^^ round 0 (word 8 bs)) 27 * prime1 + prime4) (bs.drop 8)

def halfWord (h : UInt64) (bs : List UInt8) : UInt64 :=
  rotate (h ^^^ (word 4 bs * prime1)) 23 * prime2 + prime3

def singles (h : UInt64) (bs : List UInt8) : UInt64 :=
  bs.foldl (fun h b => rotate (h ^^^ (b.toUInt64 * prime5)) 11 * prime1) h

def avalanche (h : UInt64) : UInt64 :=
  let h := (h ^^^ (h >>> 33)) * prime2
  let h := (h ^^^ (h >>> 29)) * prime3
  h ^^^ (h >>> 32)

def hash (bs : List UInt8) : UInt64 :=
  let n := bs.length
  let h := if n < 32 then prime5 else (stripes (n / 32) {} bs).merge
  let rest := bs.drop (n / 32 * 32)
  let h := words (rest.length / 8) (h + n.toUInt64) rest
  let rest := rest.drop (rest.length / 8 * 8)
  if rest.length < 4 then avalanche (singles h rest)
  else avalanche (singles (halfWord h rest) (rest.drop 4))

end EventRelay.Xxh64
