import AutoDeploy.Lib.Bytes
import Mathlib.Data.Nat.ModEq

namespace AutoDeploy.Lib

-- Buffers of a fixed size: what is written into them from an offset on, and what is read there.
namespace Frame

-- A copy, as far as there is room.
def put (frame : Bytes) (i : Nat) (source : Bytes) : Bytes :=
  frame.take i ++ source.take (frame.length - i) ++ frame.drop (i + source.length)

def slice (frame : Bytes) (i size : Nat) : Bytes := (frame.drop i).take size

def number (bytes : Bytes) : Nat := bytes.foldl (fun n b => 256 * n + b.toNat) 0

-- A buffer of zeros after what was written.
def written (size : Nat) (front : Bytes) : Bytes := front ++ List.replicate (size - front.length) 0

variable {size i n k : Nat} {front source rest : Bytes}

theorem length_written (h : front.length ≤ size) : (written size front).length = size := by
  rw [written, List.length_append, List.length_replicate]
  omega

theorem written_nil : written size [] = List.replicate size 0 := rfl

-- Writing further on leaves zeros in between.
theorem put_written (hi : front.length ≤ i) (hsize : i + source.length ≤ size) :
    put (written size front) i source =
      written size (front ++ List.replicate (i - front.length) 0 ++ source) := by
  have hlength : (written size front).length = size := length_written (by omega)
  have hzeros : List.replicate (size - front.length) (0 : UInt8) =
      List.replicate (i - front.length) 0 ++ List.replicate (size - i) 0 := by
    rw [← List.replicate_add]
    congr 1
    omega
  have hfront : (front ++ List.replicate (i - front.length) (0 : UInt8)).length = i := by
    rw [List.length_append, List.length_replicate]
    omega
  have htake : (written size front).take i = front ++ List.replicate (i - front.length) 0 := by
    rw [written, hzeros, ← List.append_assoc, List.take_left' hfront]
  have hdrop : (written size front).drop (i + source.length) = List.replicate (size - i - source.length) 0 := by
    rw [← List.drop_drop, written, hzeros, ← List.append_assoc, List.drop_left' hfront, List.drop_replicate]
  have hwhole : source.take (size - i) = source := List.take_of_length_le (by omega)
  rw [put, htake, hdrop, hlength, hwhole, written, List.length_append, hfront, Nat.sub_sub]

theorem put_next (hi : i = front.length) (hsize : i + source.length ≤ size) :
    put (written size front) i source = written size (front ++ source) := by
  rw [put_written hi.ge hsize, hi, Nat.sub_self, List.replicate_zero, List.append_nil]

theorem slice_append (hi : i = front.length) (hk : k = source.length) : slice (front ++ (source ++ rest)) i k = source := by
  rw [slice, List.drop_left' hi.symm, List.take_left' hk.symm]

theorem number_bigEndian (n k : Nat) : number (Bytes.bigEndian n k) = n % 256 ^ k := by
  induction k generalizing n with
  | zero => simp [Bytes.bigEndian, number, Nat.mod_one]
  | succ k ih =>
      have hstep : number (Bytes.bigEndian (n / 256) k ++ [UInt8.ofNat n]) =
          256 * number (Bytes.bigEndian (n / 256) k) + (UInt8.ofNat n).toNat := by
        rw [number, List.foldl_append]
        rfl
      have hlast : (UInt8.ofNat n).toNat = n % 256 := UInt8.toNat_ofNat'
      have hpow : 256 ^ (k + 1) = 256 * 256 ^ k := Nat.pow_succ'
      rw [Bytes.bigEndian, hstep, ih, hlast, hpow, Nat.mod_mul, Nat.add_comm]

end Frame

end AutoDeploy.Lib
