import AutoDeploy.Lib.Bytes
import Mathlib.Data.List.Nodup

namespace AutoDeploy.Lib

-- An ideal authenticated cipher. It remembers what it sealed, and it opens nothing else.
structure Sealing where
  key : Bytes
  aad : Bytes
  plaintext : Bytes
  ciphertext : Bytes
deriving DecidableEq, Repr

abbrev Cipher := List Sealing

namespace Cipher

def sealed (cipher : Cipher) (key plaintext aad ciphertext : Bytes) : Cipher :=
  ⟨key, aad, plaintext, ciphertext⟩ :: cipher

def opened (cipher : Cipher) (key ciphertext aad : Bytes) : Option Bytes :=
  (cipher.find? fun s => s.key == key && s.aad == aad && s.ciphertext == ciphertext).map Sealing.plaintext

-- A sealed text starts with a nonce of its own: the cipher never returns one text twice.
def Fresh (cipher : Cipher) (ciphertext : Bytes) : Prop := ∀ s ∈ cipher, s.ciphertext ≠ ciphertext

instance (cipher : Cipher) (ciphertext : Bytes) : Decidable (cipher.Fresh ciphertext) :=
  inferInstanceAs (Decidable (∀ s ∈ cipher, s.ciphertext ≠ ciphertext))

def Distinct (cipher : Cipher) : Prop := (cipher.map Sealing.ciphertext).Nodup

variable {cipher : Cipher} {key plaintext aad ciphertext : Bytes} {s t : Sealing}

theorem distinct_nil : Distinct [] := List.nodup_nil

theorem Distinct.sealed (h : cipher.Distinct) (hfresh : cipher.Fresh ciphertext) :
    (cipher.sealed key plaintext aad ciphertext).Distinct := by
  refine List.nodup_cons.2 ⟨?_, h⟩
  intro hmem
  obtain ⟨s, hs, hsame⟩ := List.mem_map.1 hmem
  exact hfresh s hs hsame

-- A sealed text says which sealing it is from.
theorem Distinct.eq_of_ciphertext (h : cipher.Distinct) (hs : s ∈ cipher) (ht : t ∈ cipher)
    (hsame : s.ciphertext = t.ciphertext) : s = t :=
  List.inj_on_of_nodup_map h hs ht hsame

theorem mem_of_opened (h : cipher.opened key ciphertext aad = some plaintext) :
    ⟨key, aad, plaintext, ciphertext⟩ ∈ cipher := by
  obtain ⟨s, hfind, rfl⟩ := Option.map_eq_some_iff.1 h
  have hmatch := List.find?_some hfind
  simp only [Bool.and_eq_true, beq_iff_eq] at hmatch
  obtain ⟨⟨rfl, rfl⟩, rfl⟩ := hmatch
  exact List.mem_of_find?_eq_some hfind

-- Opening succeeds exactly for the key, the associated data and the text of a sealing.
theorem Distinct.opened_iff (h : cipher.Distinct) :
    cipher.opened key ciphertext aad = some plaintext ↔ ⟨key, aad, plaintext, ciphertext⟩ ∈ cipher := by
  constructor
  · exact mem_of_opened
  · intro hmem
    cases hopened : cipher.opened key ciphertext aad with
    | none =>
        have hnone := List.find?_eq_none.1 (Option.map_eq_none_iff.1 hopened) _ hmem
        simp at hnone
    | some other =>
        have hsame := h.eq_of_ciphertext (mem_of_opened hopened) hmem rfl
        exact congrArg some (congrArg Sealing.plaintext hsame)

end Cipher

end AutoDeploy.Lib
