import Mathlib

/-!
# SHA-256 and HMAC

`crypto/sha256` and `crypto/hmac`, over lists of bytes.
-/

namespace Go

def rotateRight (x n : UInt32) : UInt32 := (x >>> n) ||| (x <<< (32 - n))

def sha256Constants : List UInt32 :=
  [0x428a2f98, 0x71374491, 0xb5c0fbcf, 0xe9b5dba5, 0x3956c25b, 0x59f111f1, 0x923f82a4, 0xab1c5ed5,
   0xd807aa98, 0x12835b01, 0x243185be, 0x550c7dc3, 0x72be5d74, 0x80deb1fe, 0x9bdc06a7, 0xc19bf174,
   0xe49b69c1, 0xefbe4786, 0x0fc19dc6, 0x240ca1cc, 0x2de92c6f, 0x4a7484aa, 0x5cb0a9dc, 0x76f988da,
   0x983e5152, 0xa831c66d, 0xb00327c8, 0xbf597fc7, 0xc6e00bf3, 0xd5a79147, 0x06ca6351, 0x14292967,
   0x27b70a85, 0x2e1b2138, 0x4d2c6dfc, 0x53380d13, 0x650a7354, 0x766a0abb, 0x81c2c92e, 0x92722c85,
   0xa2bfe8a1, 0xa81a664b, 0xc24b8b70, 0xc76c51a3, 0xd192e819, 0xd6990624, 0xf40e3585, 0x106aa070,
   0x19a4c116, 0x1e376c08, 0x2748774c, 0x34b0bcb5, 0x391c0cb3, 0x4ed8aa4a, 0x5b9cca4f, 0x682e6ff3,
   0x748f82ee, 0x78a5636f, 0x84c87814, 0x8cc70208, 0x90befffa, 0xa4506ceb, 0xbef9a3f7, 0xc67178f2]

structure Sha256State where
  a : UInt32
  b : UInt32
  c : UInt32
  d : UInt32
  e : UInt32
  f : UInt32
  g : UInt32
  h : UInt32

def Sha256State.initial : Sha256State where
  a := 0x6a09e667
  b := 0xbb67ae85
  c := 0x3c6ef372
  d := 0xa54ff53a
  e := 0x510e527f
  f := 0x9b05688c
  g := 0x1f83d9ab
  h := 0x5be0cd19

namespace Sha256State

def round (s : Sha256State) (k w : UInt32) : Sha256State :=
  next (s.h + (rotateRight s.e 6 ^^^ rotateRight s.e 11 ^^^ rotateRight s.e 25) +
      ((s.e &&& s.f) ^^^ (~~~s.e &&& s.g)) + k + w)
    ((rotateRight s.a 2 ^^^ rotateRight s.a 13 ^^^ rotateRight s.a 22) +
      ((s.a &&& s.b) ^^^ (s.a &&& s.c) ^^^ (s.b &&& s.c)))
where
  next (t1 t2 : UInt32) : Sha256State :=
    { a := t1 + t2, b := s.a, c := s.b, d := s.c, e := s.d + t1, f := s.e, g := s.f, h := s.g }

def add (s t : Sha256State) : Sha256State where
  a := s.a + t.a
  b := s.b + t.b
  c := s.c + t.c
  d := s.d + t.d
  e := s.e + t.e
  f := s.f + t.f
  g := s.g + t.g
  h := s.h + t.h

def words (s : Sha256State) : List UInt32 := [s.a, s.b, s.c, s.d, s.e, s.f, s.g, s.h]

end Sha256State

def wordsOfBytes : List UInt8 → List UInt32
  | b0 :: b1 :: b2 :: b3 :: rest =>
      ((b0.toUInt32 <<< 24) ||| (b1.toUInt32 <<< 16) ||| (b2.toUInt32 <<< 8) ||| b3.toUInt32) ::
        wordsOfBytes rest
  | _ => []

def bytesOfWord (w : UInt32) : List UInt8 :=
  [(w >>> 24).toUInt8, (w >>> 16).toUInt8, (w >>> 8).toUInt8, w.toUInt8]

/-- The next word of the schedule; the words before it stand in reverse order. -/
def nextScheduleWord (previous : List UInt32) : UInt32 :=
  smallSigma 17 19 10 (previous.getD 1 0) + previous.getD 6 0 +
    smallSigma 7 18 3 (previous.getD 14 0) + previous.getD 15 0
where
  smallSigma (r1 r2 shift x : UInt32) : UInt32 :=
    rotateRight x r1 ^^^ rotateRight x r2 ^^^ (x >>> shift)

def extendSchedule : Nat → List UInt32 → List UInt32
  | 0, previous => previous
  | n + 1, previous => extendSchedule n (nextScheduleWord previous :: previous)

def sha256Block (s : Sha256State) (block : List UInt8) : Sha256State :=
  s.add ((sha256Constants.zip (extendSchedule 48 (wordsOfBytes block).reverse).reverse).foldl
    (fun t kw => t.round kw.1 kw.2) s)

/-- The message with its delimiter, zeros and bit length: whole blocks. -/
def sha256Pad (message : List UInt8) : List UInt8 :=
  message ++ 0x80 :: List.replicate ((119 - message.length % 64) % 64) 0 ++
    (List.range 8).map fun i => UInt8.ofNat (8 * message.length / 256 ^ (7 - i))

def sha256Blocks (s : Sha256State) : Nat → List UInt8 → Sha256State
  | 0, _ => s
  | n + 1, bytes => sha256Blocks (sha256Block s (bytes.take 64)) n (bytes.drop 64)

def sha256 (message : List UInt8) : List UInt8 :=
  (sha256Blocks .initial ((sha256Pad message).length / 64) (sha256Pad message)).words.flatMap
    bytesOfWord

-- The digest of "abc" starts so.
example : (sha256 [97, 98, 99]).take 4 = [0xba, 0x78, 0x16, 0xbf] := by decide +kernel

/-- The key of `hmac.New`, filled up to a block. -/
def hmacKey (key : List UInt8) : List UInt8 :=
  fill (if 64 < key.length then sha256 key else key)
where
  fill (k : List UInt8) : List UInt8 := k ++ List.replicate (64 - k.length) 0

/-- `hmac.New(sha256.New, key)`, fed with a message. -/
def hmacSha256 (key message : List UInt8) : List UInt8 :=
  sha256 ((hmacKey key).map (· ^^^ 0x5c) ++
    sha256 ((hmacKey key).map (· ^^^ 0x36) ++ message))

end Go
