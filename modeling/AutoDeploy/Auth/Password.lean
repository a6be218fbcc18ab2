import AutoDeploy.Auth.Schema
import AutoDeploy.Lib.Base64

namespace AutoDeploy.Auth

open Lib

def Argon2Policy.validate (p : Argon2Policy) : Bool :=
  decide (p.revision ≠ 0 ∧ 19 * 1024 ≤ p.memoryKiB ∧ p.memoryKiB ≤ 64 * 1024 ∧ 2 ≤ p.iterations ∧ p.iterations ≤ 5 ∧
    p.lanes = 1)

def argonSaltBytes : Nat := 16

def argonHashBytes : Nat := 32

def argonSaltEncodedBytes : Nat := 22

def argonHashEncodedBytes : Nat := 43

def maxPHCBytes : Nat := 128

-- A verifier as it is read from its text.
structure ParsedPHC where
  memory : Nat
  iterations : Nat
  lanes : Nat
  salt : Bytes
  hash : Bytes
deriving DecidableEq

-- The standard alphabet read in the URL alphabet: `+` and `/` stand for `-` and `_`, which it does not have.
def stdDigit (c : UInt8) : UInt8 := if c = 43 then 45 else if c = 47 then 95 else if c = 45 ∨ c = 95 then 0 else c

def decodeCanonicalRawStd (value : Bytes) : Option Bytes :=
  if value = [] ∨ 61 ∈ value then none
  else do
    let decoded ← Base64.decode (value.map stdDigit)
    if Base64.encode decoded = value.map stdDigit then pure decoded else none

-- strconv.ParseUint in base 10 for 32 bits.
def parseUint32 (digits : Bytes) : Option Nat :=
  if digits = [] ∨ digits.any (fun c => decide (c < 48 ∨ 57 < c)) then none
  else
    let value := digits.foldl (fun value c => value * 10 + (c.toNat - 48)) 0
    if value ≤ 4294967295 then some value else none

-- One canonical parameter: its name and a decimal number without leading zeros.
def parseParameter (name field : Bytes) : Option Nat :=
  if name.isPrefixOf field = false then none
  else
    let number := field.drop name.length
    if number = [] ∨ (1 < number.length ∧ number.head? = some 48) then none else parseUint32 number

def parsePHC (value : Bytes) : Option ParsedPHC :=
  if value.length < 68 ∨ maxPHCBytes < value.length ∨ value[value.length - 44]? ≠ some 36 ∨
      value[value.length - 67]? ≠ some 36 then none
  else
    match value.splitOn 36 with
    | [empty, name, version, parameters, salt, hash] =>
        if empty ≠ [] ∨ name ≠ Bytes.ofString "argon2id" ∨ version ≠ Bytes.ofString "v=19" ∨ 32 < parameters.length ∨
            salt.length ≠ argonSaltEncodedBytes ∨ hash.length ≠ argonHashEncodedBytes then none
        else
          match parameters.splitOn 44 with
          | [m, t, p] => do
              let memory ← parseParameter (Bytes.ofString "m=") m
              let iterations ← parseParameter (Bytes.ofString "t=") t
              let lanes ← parseParameter (Bytes.ofString "p=") p
              if 256 * 1024 < memory ∨ iterations = 0 ∨ 10 < iterations ∨ lanes = 0 ∨ 4 < lanes ∨ memory < 8 * lanes then
                none
              else do
                let salt ← decodeCanonicalRawStd salt
                let hash ← decodeCanonicalRawStd hash
                if salt.length = argonSaltBytes ∧ hash.length = argonHashBytes then
                  pure ⟨memory, iterations, lanes, salt, hash⟩
                else none
          | _ => none
    | _ => none

def validatePasswordVerifier (verifier : PasswordVerifier) : Bool :=
  decide (verifier.policyRevision ≠ 0) && (parsePHC verifier.phc).isSome

-- New writes must exactly match the installation policy and may not merely claim its revision.
def validatePasswordVerifierForPolicy (verifier : PasswordVerifier) (policy : Argon2Policy) : Bool :=
  policy.validate && validatePasswordVerifier verifier && (parsePHC verifier.phc).any fun parsed =>
    decide (verifier.policyRevision = policy.revision ∧ parsed.memory = policy.memoryKiB ∧
      parsed.iterations = policy.iterations ∧ parsed.lanes = policy.lanes)

end AutoDeploy.Auth
