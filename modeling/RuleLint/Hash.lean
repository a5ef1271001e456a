import RuleLint.Text.Basic

/-!
SHA-256. A message is padded to blocks of sixteen words; each block takes the eight words of the
state through sixty-four rounds, and the last state is the digest.
-/

namespace RuleLint.Hash

namespace Sha256

def roundConstants : Vector UInt32 64 := #v[
  0x428a2f98, 0x71374491, 0xb5c0fbcf, 0xe9b5dba5, 0x3956c25b, 0x59f111f1, 0x923f82a4, 0xab1c5ed5,
  0xd807aa98, 0x12835b01, 0x243185be, 0x550c7dc3, 0x72be5d74, 0x80deb1fe, 0x9bdc06a7, 0xc19bf174,
  0xe49b69c1, 0xefbe4786, 0x0fc19dc6, 0x240ca1cc, 0x2de92c6f, 0x4a7484aa, 0x5cb0a9dc, 0x76f988da,
  0x983e5152, 0xa831c66d, 0xb00327c8, 0xbf597fc7, 0xc6e00bf3, 0xd5a79147, 0x06ca6351, 0x14292967,
  0x27b70a85, 0x2e1b2138, 0x4d2c6dfc, 0x53380d13, 0x650a7354, 0x766a0abb, 0x81c2c92e, 0x92722c85,
  0xa2bfe8a1, 0xa81a664b, 0xc24b8b70, 0xc76c51a3, 0xd192e819, 0xd6990624, 0xf40e3585, 0x106aa070,
  0x19a4c116, 0x1e376c08, 0x2748774c, 0x34b0bcb5, 0x391c0cb3, 0x4ed8aa4a, 0x5b9cca4f, 0x682e6ff3,
  0x748f82ee, 0x78a5636f, 0x84c87814, 0x8cc70208, 0x90befffa, 0xa4506ceb, 0xbef9a3f7, 0xc67178f2]

def initialState : Vector UInt32 8 := #v[
  0x6a09e667, 0xbb67ae85, 0x3c6ef372, 0xa54ff53a, 0x510e527f, 0x9b05688c, 0x1f83d9ab, 0x5be0cd19]

def rotateRight (x : UInt32) (n : UInt32) : UInt32 := (x >>> n) ||| (x <<< (32 - n))

def smallSigma0 (x : UInt32) : UInt32 := rotateRight x 7 ^^^ rotateRight x 18 ^^^ (x >>> 3)

def smallSigma1 (x : UInt32) : UInt32 := rotateRight x 17 ^^^ rotateRight x 19 ^^^ (x >>> 10)

def bigSigma0 (x : UInt32) : UInt32 := rotateRight x 2 ^^^ rotateRight x 13 ^^^ rotateRight x 22

def bigSigma1 (x : UInt32) : UInt32 := rotateRight x 6 ^^^ rotateRight x 11 ^^^ rotateRight x 25

def choice (x y z : UInt32) : UInt32 := (x &&& y) ^^^ (~~~x &&& z)

def majority (x y z : UInt32) : UInt32 := (x &&& y) ^^^ (x &&& z) ^^^ (y &&& z)

def schedule (block : Vector UInt32 16) : (n : Nat) → Vector UInt32 n
  | 0 => #v[]
  | n + 1 =>
    let earlier := schedule block n
    if h : n < 16 then earlier.push block[n]
    else
      earlier.push (smallSigma1 earlier[n - 2] + earlier[n - 7] + smallSigma0 earlier[n - 15] +
        earlier[n - 16])

def round (state : Vector UInt32 8) (addend : UInt32) : Vector UInt32 8 :=
  let a := state[0]
  let b := state[1]
  let c := state[2]
  let d := state[3]
  let e := state[4]
  let f := state[5]
  let g := state[6]
  let h := state[7]
  let t := h + bigSigma1 e + choice e f g + addend
  #v[t + bigSigma0 a + majority a b c, a, b, c, d + t, e, f, g]

def compress (state : Vector UInt32 8) (block : Vector UInt32 16) : Vector UInt32 8 :=
  let addends := Vector.zipWith (· + ·) roundConstants (schedule block 64)
  Vector.zipWith (· + ·) state (addends.foldl round state)

def word (a b c d : UInt8) : UInt32 :=
  (a.toUInt32 <<< 24) ||| (b.toUInt32 <<< 16) ||| (c.toUInt32 <<< 8) ||| d.toUInt32

def words : List UInt8 → List UInt32
  | a :: b :: c :: d :: rest => word a b c d :: words rest
  | _ => []

def blocks (ws : List UInt32) : List (Vector UInt32 16) :=
  if h : (ws.take 16).length = 16 then
    ⟨(ws.take 16).toArray, by simpa using h⟩ :: blocks (ws.drop 16)
  else []
termination_by ws.length
decreasing_by
  simp only [List.length_take, List.length_drop] at h ⊢
  omega

def lengthBytes (length : Nat) : List UInt8 :=
  (List.range 8).map fun i => UInt8.ofNat (8 * length / Nat.pow 256 (7 - i))

def pad (message : List UInt8) : List UInt8 :=
  let zeros := (119 - message.length % 64) % 64
  message ++ 0x80 :: List.replicate zeros 0 ++ lengthBytes message.length

def digest (message : List UInt8) : Vector UInt32 8 :=
  (blocks (words (pad message))).foldl compress initialState

end Sha256

structure Fingerprint where
  words : Vector UInt32 8
deriving DecidableEq, Repr

namespace Fingerprint

def ofBytes (bytes : List UInt8) : Fingerprint := ⟨Sha256.digest bytes⟩

def text (f : Fingerprint) : String :=
  String.join ((f.words.toList.take 2).map fun word => Text.hexDigits 8 word.toNat)

end Fingerprint

end RuleLint.Hash
