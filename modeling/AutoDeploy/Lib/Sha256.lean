import AutoDeploy.Lib.Bytes

namespace AutoDeploy.Lib

-- FIPS 180-4 SHA-256 on natural numbers below 2^32, structurally recursive so that a digest
-- of a closed message can be evaluated.
namespace Sha256

def modulus : Nat := 4294967296

def add (x y : Nat) : Nat := (x + y) % modulus

def rotr (n x : Nat) : Nat := Nat.lor (x >>> n) ((x <<< (32 - n)) % modulus)

def ch (x y z : Nat) : Nat := Nat.xor (Nat.land x y) (Nat.land (modulus - 1 - x) z)

def maj (x y z : Nat) : Nat := Nat.xor (Nat.xor (Nat.land x y) (Nat.land x z)) (Nat.land y z)

def bigSigma0 (x : Nat) : Nat := Nat.xor (Nat.xor (rotr 2 x) (rotr 13 x)) (rotr 22 x)

def bigSigma1 (x : Nat) : Nat := Nat.xor (Nat.xor (rotr 6 x) (rotr 11 x)) (rotr 25 x)

def smallSigma0 (x : Nat) : Nat := Nat.xor (Nat.xor (rotr 7 x) (rotr 18 x)) (x >>> 3)

def smallSigma1 (x : Nat) : Nat := Nat.xor (Nat.xor (rotr 17 x) (rotr 19 x)) (x >>> 10)

def constants : List Nat :=
  [0x428a2f98, 0x71374491, 0xb5c0fbcf, 0xe9b5dba5, 0x3956c25b, 0x59f111f1, 0x923f82a4, 0xab1c5ed5,
   0xd807aa98, 0x12835b01, 0x243185be, 0x550c7dc3, 0x72be5d74, 0x80deb1fe, 0x9bdc06a7, 0xc19bf174,
   0xe49b69c1, 0xefbe4786, 0x0fc19dc6, 0x240ca1cc, 0x2de92c6f, 0x4a7484aa, 0x5cb0a9dc, 0x76f988da,
   0x983e5152, 0xa831c66d, 0xb00327c8, 0xbf597fc7, 0xc6e00bf3, 0xd5a79147, 0x06ca6351, 0x14292967,
   0x27b70a85, 0x2e1b2138, 0x4d2c6dfc, 0x53380d13, 0x650a7354, 0x766a0abb, 0x81c2c92e, 0x92722c85,
   0xa2bfe8a1, 0xa81a664b, 0xc24b8b70, 0xc76c51a3, 0xd192e819, 0xd6990624, 0xf40e3585, 0x106aa070,
   0x19a4c116, 0x1e376c08, 0x2748774c, 0x34b0bcb5, 0x391c0cb3, 0x4ed8aa4a, 0x5b9cca4f, 0x682e6ff3,
   0x748f82ee, 0x78a5636f, 0x84c87814, 0x8cc70208, 0x90befffa, 0xa4506ceb, 0xbef9a3f7, 0xc67178f2]

-- The eight chaining words.
structure Chain where
  a : Nat
  b : Nat
  c : Nat
  d : Nat
  e : Nat
  f : Nat
  g : Nat
  h : Nat
deriving DecidableEq

def initial : Chain :=
  ⟨0x6a09e667, 0xbb67ae85, 0x3c6ef372, 0xa54ff53a, 0x510e527f, 0x9b05688c, 0x1f83d9ab, 0x5be0cd19⟩

def round (s : Chain) (k w : Nat) : Chain :=
  let t1 := (s.h + bigSigma1 s.e + ch s.e s.f s.g + k + w) % modulus
  let t2 := (bigSigma0 s.a + maj s.a s.b s.c) % modulus
  ⟨add t1 t2, s.a, s.b, s.c, add s.d t1, s.e, s.f, s.g⟩

-- The message schedule is kept as a sliding window of sixteen words.
def rounds : List Nat → List Nat → Chain → Chain
  | [], _, s => s
  | _ :: _, [], s => s
  | k :: ks, w :: ws, s =>
      let next := (smallSigma1 (ws.getD 13 0) + ws.getD 8 0 + smallSigma0 (ws.getD 0 0) + w) % modulus
      rounds ks (ws ++ [next]) (round s k w)

def compress (s : Chain) (block : List Nat) : Chain :=
  let r := rounds constants block s
  ⟨add s.a r.a, add s.b r.b, add s.c r.c, add s.d r.d, add s.e r.e, add s.f r.f, add s.g r.g,
    add s.h r.h⟩

def words : Bytes → List Nat
  | a :: b :: c :: d :: rest =>
      (((a.toNat * 256 + b.toNat) * 256 + c.toNat) * 256 + d.toNat) :: words rest
  | _ => []

def pad (msg : Bytes) : Bytes :=
  msg ++ (0x80 : UInt8) :: List.replicate ((119 - msg.length % 64) % 64) 0 ++
    Bytes.bigEndian (msg.length * 8) 8

def blocks : Nat → List Nat → Chain → Chain
  | 0, _, s => s
  | n + 1, ws, s => blocks n (ws.drop 16) (compress s (ws.take 16))

def sumBytes (msg : Bytes) : Bytes :=
  let p := pad msg
  let s := blocks (p.length / 64) (words p) initial
  [s.a, s.b, s.c, s.d, s.e, s.f, s.g, s.h].flatMap fun w => Bytes.bigEndian w 4

end Sha256

-- A 32-byte digest. The length is part of the value, as in the `[32]byte` of the source and
-- the octet-length checks of the schema.
structure Digest where
  bytes : Bytes
  length_eq : bytes.length = 32
deriving DecidableEq

namespace Digest

def ofBytes? (bytes : Bytes) : Option Digest :=
  if h : bytes.length = 32 then some ⟨bytes, h⟩ else none

@[simp] theorem ofBytes?_bytes (d : Digest) : ofBytes? d.bytes = some d := by
  simp [ofBytes?, d.length_eq]

end Digest

theorem Sha256.length_sumBytes (msg : Bytes) : (Sha256.sumBytes msg).length = 32 := by
  simp [Sha256.sumBytes]

def Sha256.sum (msg : Bytes) : Digest := ⟨Sha256.sumBytes msg, Sha256.length_sumBytes msg⟩

end AutoDeploy.Lib
