import AutoDeploy.Lib.Sha256

namespace AutoDeploy.Lib

-- RFC 2104 over SHA-256: a key longer than a block is hashed, a shorter one padded with zeros.
namespace Hmac

def blockKey (key : Bytes) : Bytes :=
  let key := if 64 < key.length then (Sha256.sum key).bytes else key
  key ++ List.replicate (64 - key.length) 0

def sum (key message : Bytes) : Digest :=
  let inner := Sha256.sum ((blockKey key).map (fun b => b ^^^ 0x36) ++ message)
  Sha256.sum ((blockKey key).map (fun b => b ^^^ 0x5c) ++ inner.bytes)

end Hmac

end AutoDeploy.Lib
