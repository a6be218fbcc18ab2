import AutoDeploy.Lib.Bytes

namespace AutoDeploy.Lib.Base64

-- The URL alphabet without padding.
def digit (n : Nat) : UInt8 :=
  if n < 26 then UInt8.ofNat (65 + n)
  else if n < 52 then UInt8.ofNat (71 + n)
  else if n < 62 then UInt8.ofNat (n - 4)
  else if n = 62 then 45
  else 95

def value (c : UInt8) : Option Nat :=
  if 65 ≤ c ∧ c ≤ 90 then some (c.toNat - 65)
  else if 97 ≤ c ∧ c ≤ 122 then some (c.toNat - 71)
  else if 48 ≤ c ∧ c ≤ 57 then some (c.toNat + 4)
  else if c = 45 then some 62
  else if c = 95 then some 63
  else none

def encode : Bytes → Bytes
  | a :: b :: c :: rest =>
      digit (a.toNat / 4) :: digit (a.toNat % 4 * 16 + b.toNat / 16) :: digit (b.toNat % 16 * 4 + c.toNat / 64) ::
        digit (c.toNat % 64) :: encode rest
  | [a, b] => [digit (a.toNat / 4), digit (a.toNat % 4 * 16 + b.toNat / 16), digit (b.toNat % 16 * 4)]
  | [a] => [digit (a.toNat / 4), digit (a.toNat % 4 * 16)]
  | [] => []

-- Each full group of four digits is three bytes; what is left over is one or two.
def decodeDigits : List Nat → Option Bytes
  | p :: q :: r :: s :: rest => do
      let bytes ← decodeDigits rest
      pure (UInt8.ofNat (p * 4 + q / 16) :: UInt8.ofNat (q % 16 * 16 + r / 4) :: UInt8.ofNat (r % 4 * 64 + s) :: bytes)
  | [p, q, r] => some [UInt8.ofNat (p * 4 + q / 16), UInt8.ofNat (q % 16 * 16 + r / 4)]
  | [p, q] => some [UInt8.ofNat (p * 4 + q / 16)]
  | [_] => none
  | [] => some []

-- Line breaks are skipped.
def decode (text : Bytes) : Option Bytes := do
  let digits ← (text.filter fun c => c != 10 && c != 13).mapM value
  decodeDigits digits

end AutoDeploy.Lib.Base64
