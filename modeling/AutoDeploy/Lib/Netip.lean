import AutoDeploy.Lib.Utf8
import AutoDeploy.Lib.Runes
import Mathlib.Data.Nat.Digits.Defs

namespace AutoDeploy.Lib

-- Addresses of the Internet protocol, their texts, and the prefixes that hold them.
inductive Addr where
  | v4 (bits : BitVec 32)
  | v6 (bits : BitVec 128) (zone : Bytes)
deriving DecidableEq

namespace Addr

def is4In6 : Addr → Bool
  | .v4 _ => false
  | .v6 bits _ => decide (bits.toNat / 2 ^ 32 = 0xffff)

-- An IPv4 address in its mapped form becomes the IPv4 address, without a zone.
def unmap : Addr → Addr
  | .v4 bits => .v4 bits
  | .v6 bits zone => if (Addr.v6 bits zone).is4In6 then .v4 (bits.setWidth 32) else .v6 bits zone

def zone : Addr → Bytes
  | .v4 _ => []
  | .v6 _ zone => zone

@[simp] theorem unmap_unmap (a : Addr) : a.unmap.unmap = a.unmap := by
  cases a with
  | v4 bits => rfl
  | v6 bits zone =>
      by_cases h : (Addr.v6 bits zone).is4In6 = true
      · simp only [unmap, h, if_true]
      · simp only [unmap, h, Bool.false_eq_true, if_false]

-- The pieces of a text between separators: always at least one.
def split (sep : UInt8) : Bytes → List Bytes
  | [] => [[]]
  | b :: rest =>
      if b = sep then [] :: split sep rest
      else
        match split sep rest with
        | [] => [[b]]
        | piece :: pieces => (b :: piece) :: pieces

def digit (b : UInt8) : Option Nat := if 0x30 ≤ b ∧ b ≤ 0x39 then some (b.toNat - 48) else none

def hexDigit (b : UInt8) : Option Nat :=
  if 0x30 ≤ b ∧ b ≤ 0x39 then some (b.toNat - 48)
  else if 0x61 ≤ b ∧ b ≤ 0x66 then some (b.toNat - 87)
  else if 0x41 ≤ b ∧ b ≤ 0x46 then some (b.toNat - 55)
  else none

-- One of the four fields: at most 255, and no zero in front of another digit.
def octet (field : Bytes) : Option Nat := do
  let digits ← field.mapM digit
  let value := digits.foldl (fun n d => n * 10 + d) 0
  if digits = [] ∨ (digits.head? = some 0 ∧ digits ≠ [0]) ∨ 255 < value then none else some value

def parseIPv4Fields (s : Bytes) : Option Nat :=
  match (split 0x2e s).mapM octet with
  | some [a, b, c, d] => some (((a * 256 + b) * 256 + c) * 256 + d)
  | _ => none

-- The groups of sixteen bits that were read, and before which of them `::` stood.
structure Groups where
  values : List Nat
  ellipsis : Option Nat

-- The colon-separated fields. The fuel is more than the eight of them.
def parseGroups : Nat → Groups → Bytes → Option Groups
  | 0, _, _ => none
  | fuel + 1, read, s =>
      if 8 ≤ read.values.length then if s = [] then some read else none
      else
        let digits := (s.map hexDigit).takeWhile Option.isSome
        let off := digits.length
        let value := digits.foldl (fun n d => n * 16 + d.getD 0) 0
        if off = 0 ∨ 4 < off then none
        else
          match s.drop off with
          | [] => some { read with values := read.values ++ [value] }
          | 0x2e :: _ =>
              -- The rest is an IPv4 address.
              if (read.ellipsis = none ∧ read.values.length ≠ 6) ∨ 6 < read.values.length then none
              else (parseIPv4Fields s).map fun n => { read with values := read.values ++ [n / 65536, n % 65536] }
          | 0x3a :: [] => none
          | 0x3a :: 0x3a :: rest =>
              if read.ellipsis ≠ none then none
              else
                let read : Groups := ⟨read.values ++ [value], some (read.values.length + 1)⟩
                if rest = [] then some read else parseGroups fuel read rest
          | 0x3a :: rest => parseGroups fuel { read with values := read.values ++ [value] } rest
          | _ => none

-- The eight groups, with zeros in place of `::`.
def expand (read : Groups) : Option (List Nat) :=
  match read.ellipsis with
  | none => if read.values.length = 8 then some read.values else none
  | some i =>
      if read.values.length < 8 then
        some (read.values.take i ++ List.replicate (8 - read.values.length) 0 ++ read.values.drop i)
      else none

def ofGroups (groups : List Nat) : BitVec 128 := BitVec.ofNat 128 (groups.foldl (fun n g => n * 65536 + g) 0)

def parseIPv6 (s : Bytes) : Option Addr :=
  let address := s.takeWhile fun b => b ≠ 0x25
  let after := s.dropWhile fun b => b ≠ 0x25
  if after = [0x25] then none
  else
    let zone := after.drop 1
    match address with
    | 0x3a :: 0x3a :: rest =>
        if rest = [] then some (.v6 0 zone)
        else do
          let groups ← (parseGroups 9 ⟨[], some 0⟩ rest).bind expand
          pure (.v6 (ofGroups groups) zone)
    | address => do
        let groups ← (parseGroups 9 ⟨[], none⟩ address).bind expand
        pure (.v6 (ofGroups groups) zone)

def parseAddr (s : Bytes) : Option Addr :=
  match s.find? fun b => b = 0x2e ∨ b = 0x3a ∨ b = 0x25 with
  | some b =>
      if b = 0x2e then (parseIPv4Fields s).map fun n => .v4 (BitVec.ofNat 32 n)
      else if b = 0x3a then parseIPv6 s
      else none
  | none => none

def decimalText (n : Nat) : Bytes := Bytes.ofString (toString n)

def string4 (bits : BitVec 32) : Bytes :=
  let n := bits.toNat
  decimalText (n / 2 ^ 24) ++ 0x2e :: (decimalText (n / 2 ^ 16 % 256) ++ 0x2e ::
    (decimalText (n / 2 ^ 8 % 256) ++ 0x2e :: decimalText (n % 256)))

def group (bits : BitVec 128) (i : Nat) : Nat := bits.toNat / 2 ^ (16 * (7 - i)) % 65536

-- How many groups from the `i`-th on are zero.
def zeroRun (bits : BitVec 128) : Nat → Nat → Nat
  | 0, _ => 0
  | fuel + 1, i => if i < 8 ∧ group bits i = 0 then zeroRun bits fuel (i + 1) + 1 else 0

-- The first of the longest runs of at least two zeros: its start and its end.
def longestZeros (bits : BitVec 128) : Nat × Nat :=
  (List.range 8).foldl (fun best i =>
    let l := zeroRun bits 8 i
    if 2 ≤ l ∧ best.2 - best.1 < l then (i, i + l) else best) (255, 255)

def hexGroup (n : Nat) : Bytes :=
  Bytes.ofString (String.ofList ((Nat.toDigits 16 n)))

def string6 (bits : BitVec 128) : Bytes :=
  let zeros := longestZeros bits
  let plain (from_ to_ : Nat) : Bytes :=
    (List.range' from_ (to_ - from_)).flatMap fun i => (if i = from_ then [] else [0x3a]) ++ hexGroup (group bits i)
  if zeros.1 < 8 then plain 0 zeros.1 ++ [0x3a, 0x3a] ++ plain zeros.2 8 else plain 0 8

def zoneText (zone : Bytes) : Bytes := if zone = [] then [] else 0x25 :: zone

def string : Addr → Bytes
  | .v4 bits => string4 bits
  | .v6 bits zone =>
      if (Addr.v6 bits zone).is4In6 then Bytes.ofString "::ffff:" ++ string4 (bits.setWidth 32) ++ zoneText zone
      else string6 bits ++ zoneText zone

end Addr

-- An address and how many of its leading bits count.
inductive AddrPrefix where
  | v4 (bits : BitVec 32) (length : Fin 33)
  | v6 (bits : BitVec 128) (length : Fin 129)
deriving DecidableEq

-- Addresses with a zone, and those of the other version, are in no prefix.
def AddrPrefix.contains : AddrPrefix → Addr → Bool
  | .v4 bits length, .v4 other => (bits ^^^ other) >>> (32 - length.val) == 0
  | .v6 bits length, .v6 other zone => decide (zone = []) && (bits ^^^ other) >>> (128 - length.val) == 0
  | _, _ => false

-- `host:port` or `[host]:port`.
def splitHostPort (hostport : Bytes) : Option (Bytes × Bytes) :=
  let after := (hostport.reverse.takeWhile fun b => b ≠ 0x3a).reverse
  if after.length = hostport.length then none
  else
    let i := hostport.length - after.length - 1
    if hostport.head? = some 0x5b then
      let host := (hostport.drop 1).takeWhile fun b => b ≠ 0x5d
      let stop := host.length + 1
      if hostport.length ≤ stop ∨ stop + 1 ≠ i then none
      else if (hostport.drop 1).contains 0x5b ∨ (hostport.drop (stop + 1)).contains 0x5d then none
      else some (host, after)
    else
      let host := hostport.take i
      if host.contains 0x3a ∨ hostport.contains 0x5b ∨ hostport.contains 0x5d then none
      else some (host, after)

end AutoDeploy.Lib
