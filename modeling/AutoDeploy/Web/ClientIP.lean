import AutoDeploy.Lib.Netip
import AutoDeploy.Lib.Result

namespace AutoDeploy.Web

open Lib Lib.Result

-- Which address a request counts as coming from.

def maxForwardedFor : Nat := 32

inductive WebError where
  | badRequest
deriving DecidableEq, Repr

-- The parts of a request that are read for it.
structure Request where
  remoteAddr : Bytes
  -- The values of the X-Forwarded-For headers.
  forwardedFor : List Bytes

def spaceRune : Utf8.Rune → Bool
  | .encoded bytes => (Utf8.decodeRune bytes).any fun read => Utf8.isSpace read.1
  | .invalid _ => false

def trimSpace (s : Bytes) : Bytes :=
  ((((Utf8.runes s).dropWhile spaceRune).reverse.dropWhile spaceRune).reverse).flatMap Utf8.Rune.bytes

section

variable (trustedProxyCIDRs : List AddrPrefix)

def trusted (address : Addr) : Bool := trustedProxyCIDRs.any fun cidr => cidr.contains address.unmap

-- The direct peer.
def peerAddr (remoteAddr : Bytes) : Except WebError Addr := do
  let (host, _) ← found (splitHostPort remoteAddr) .badRequest
  let peer ← found (Addr.parseAddr host) .badRequest
  pure peer.unmap

-- One address of the chain, in the form it is written in by `String`.
def forwardedAddr (value : Bytes) : Except WebError Addr := do
  let value := trimSpace value
  require (value ≠ [] ∧ value.any (fun b => b == 0x0d || b == 0x0a || b == 0x00) = false) .badRequest
  let addr ← found (Addr.parseAddr value) .badRequest
  require (addr.zone = [] ∧ addr.string = value) .badRequest
  pure addr.unmap

def clientIP (r : Request) : Except WebError Addr := do
  let peer ← peerAddr r.remoteAddr
  if trusted trustedProxyCIDRs peer = false then pure peer
  else
    match r.forwardedFor with
    | [header] => do
        let values := Addr.split 0x2c header
        require (values ≠ [] ∧ values.length ≤ maxForwardedFor) .badRequest
        let chain ← values.mapM forwardedAddr
        found (chain.reverse.find? fun addr => !trusted trustedProxyCIDRs addr) .badRequest
    | _ => .error .badRequest

end

section

variable {trustedProxyCIDRs : List AddrPrefix}

theorem peerAddr_unmapped {remoteAddr : Bytes} {peer : Addr} (h : peerAddr remoteAddr = .ok peer) : peer.unmap = peer := by
  simp only [peerAddr, bind_eq_ok, found_eq_ok, pure_eq_ok] at h
  obtain ⟨-, -, addr, -, rfl⟩ := h
  exact Addr.unmap_unmap addr

theorem forwardedAddr_unmapped {value : Bytes} {addr : Addr} (h : forwardedAddr value = .ok addr) : addr.unmap = addr := by
  simp only [forwardedAddr, bind_eq_ok, require_eq_ok, found_eq_ok, pure_eq_ok, exists_const] at h
  obtain ⟨-, addr, -, -, rfl⟩ := h
  exact Addr.unmap_unmap addr

-- The chain of the values is as long as they are, and ends in what their end stands for.
theorem chain_ends {before last chain : List Bytes} {addrs found : List Addr}
    (hchain : chain = before ++ last) (hread : chain.mapM forwardedAddr = .ok addrs)
    (hlast : last.mapM forwardedAddr = .ok found) : ∃ first, addrs = first ++ found := by
  subst hchain
  rw [List.mapM_append] at hread
  obtain ⟨first, -, hread⟩ := bind_eq_ok.1 hread
  obtain ⟨rest, hrest, heq⟩ := bind_eq_ok.1 hread
  rw [hlast] at hrest
  cases hrest
  exact ⟨first, (pure_eq_ok.1 heq).symm⟩

-- Scanned from the right, a chain whose end is trusted gives the address before it.
theorem find_last_untrusted {first rest : List Addr} {a : Addr} (ha : trusted trustedProxyCIDRs a = false)
    (hrest : ∀ b ∈ rest, trusted trustedProxyCIDRs b = true) :
    (first ++ a :: rest).reverse.find? (fun addr => !trusted trustedProxyCIDRs addr) = some a := by
  have hnone : rest.reverse.find? (fun addr => !trusted trustedProxyCIDRs addr) = none := by
    refine List.find?_eq_none.2 fun b hb => ?_
    rw [hrest b (List.mem_reverse.1 hb)]
    decide
  have hsplit : (first ++ a :: rest).reverse = rest.reverse ++ a :: first.reverse := by simp
  rw [hsplit, List.find?_append, hnone, Option.none_or, List.find?_cons, ha]
  rfl

theorem clientIP_of_untrusted_peer {remoteAddr : Bytes} {peer : Addr} (hpeer : peerAddr remoteAddr = .ok peer)
    (huntrusted : trusted trustedProxyCIDRs peer = false) (headers : List Bytes) :
    clientIP trustedProxyCIDRs ⟨remoteAddr, headers⟩ = .ok peer := by
  simp only [clientIP, hpeer, ok_bind, huntrusted, if_true]
  rfl

-- The chain is in one header.
theorem clientIP_of_headers {remoteAddr : Bytes} {peer : Addr} (hpeer : peerAddr remoteAddr = .ok peer)
    (htrusted : trusted trustedProxyCIDRs peer = true) {headers : List Bytes} (hcount : headers.length ≠ 1) :
    clientIP trustedProxyCIDRs ⟨remoteAddr, headers⟩ = .error .badRequest := by
  simp only [clientIP, hpeer, ok_bind, htrusted, Bool.true_eq_false, if_false]
  match headers, hcount with
  | [], _ => rfl
  | [_], hcount => exact absurd rfl hcount
  | _ :: _ :: _, _ => rfl

theorem clientIP_of_trusted_end {remoteAddr : Bytes} {peer : Addr} (hpeer : peerAddr remoteAddr = .ok peer)
    (htrusted : trusted trustedProxyCIDRs peer = true) {value : Bytes} {values : List Bytes} {a : Addr} {rest : List Addr}
    (ha : forwardedAddr value = .ok a) (huntrusted : trusted trustedProxyCIDRs a = false)
    (hrest : values.mapM forwardedAddr = .ok rest) (hall : ∀ b ∈ rest, trusted trustedProxyCIDRs b = true)
    {before : List Bytes} {header : Bytes} (hheader : Addr.split 0x2c header = before ++ value :: values) :
    clientIP trustedProxyCIDRs ⟨remoteAddr, [header]⟩ = .ok a ∨
      clientIP trustedProxyCIDRs ⟨remoteAddr, [header]⟩ = .error .badRequest := by
  cases hresult : clientIP trustedProxyCIDRs ⟨remoteAddr, [header]⟩ with
  | error e => exact .inr (congrArg _ (by cases e; rfl))
  | ok result =>
      simp only [clientIP, hpeer, ok_bind, htrusted, Bool.true_eq_false, if_false, hheader, bind_eq_ok, require_eq_ok,
        found_eq_ok, exists_const] at hresult
      obtain ⟨-, addrs, haddrs, hfind⟩ := hresult
      have hlast : (value :: values).mapM forwardedAddr = .ok (a :: rest) := by
        rw [List.mapM_cons, ha, ok_bind, hrest, ok_bind]
        rfl
      obtain ⟨first, rfl⟩ := chain_ends rfl haddrs hlast
      rw [find_last_untrusted huntrusted hall] at hfind
      exact .inl (congrArg Except.ok (Option.some.inj hfind).symm)

end

-- An untrusted peer is the client. Behind a trusted one, the last untrusted address of the chain is, or the request is
-- rejected, whatever stands before that address. Addresses count unmapped.
theorem clientIP_not_spoofed (trustedProxyCIDRs : List AddrPrefix) (remoteAddr : Bytes) (peer : Addr)
    (hpeer : peerAddr remoteAddr = .ok peer) :
    peer.unmap = peer ∧
    (trusted trustedProxyCIDRs peer = false →
      ∀ headers, clientIP trustedProxyCIDRs ⟨remoteAddr, headers⟩ = .ok peer) ∧
    (trusted trustedProxyCIDRs peer = true →
      (∀ headers, headers.length ≠ 1 → clientIP trustedProxyCIDRs ⟨remoteAddr, headers⟩ = .error .badRequest) ∧
      ∀ value values a rest, forwardedAddr value = .ok a → trusted trustedProxyCIDRs a = false →
        values.mapM forwardedAddr = .ok rest → (∀ b ∈ rest, trusted trustedProxyCIDRs b = true) →
        a.unmap = a ∧
        ∀ before header, Addr.split 0x2c header = before ++ value :: values →
          clientIP trustedProxyCIDRs ⟨remoteAddr, [header]⟩ = .ok a ∨
            clientIP trustedProxyCIDRs ⟨remoteAddr, [header]⟩ = .error .badRequest) := by
  refine ⟨peerAddr_unmapped hpeer, fun huntrusted headers => clientIP_of_untrusted_peer hpeer huntrusted headers, ?_⟩
  intro htrusted
  refine ⟨fun headers hcount => clientIP_of_headers hpeer htrusted hcount, ?_⟩
  intro value values a rest ha huntrusted hrest hall
  refine ⟨forwardedAddr_unmapped ha, fun before header hheader => ?_⟩
  exact clientIP_of_trusted_end hpeer htrusted ha huntrusted hrest hall hheader

-- A mapped peer in a trusted network passes on what it was sent.
theorem clientIP_not_spoofed_mapped :
    clientIP [.v4 0x0a000000 8] ⟨Bytes.ofString "[::ffff:10.0.0.1]:443", [Bytes.ofString "6.6.6.6, 1.2.3.4,10.0.0.2"]⟩ =
        .ok (.v4 0x01020304) ∨
      clientIP [.v4 0x0a000000 8] ⟨Bytes.ofString "[::ffff:10.0.0.1]:443", [Bytes.ofString "6.6.6.6, 1.2.3.4,10.0.0.2"]⟩ =
        .error .badRequest :=
  (((clientIP_not_spoofed [.v4 0x0a000000 8] (Bytes.ofString "[::ffff:10.0.0.1]:443") (.v4 0x0a000001)
    (by decide +kernel)).2.2 (by decide +kernel)).2 (Bytes.ofString " 1.2.3.4") [Bytes.ofString "10.0.0.2"] (.v4 0x01020304)
      [.v4 0x0a000002] (by decide +kernel) (by decide +kernel) (by decide +kernel) (by decide +kernel)).2
        [Bytes.ofString "6.6.6.6"] (Bytes.ofString "6.6.6.6, 1.2.3.4,10.0.0.2") (by decide +kernel)

end AutoDeploy.Web
