import Mathlib.Algebra.Group.Nat.Defs
import Mathlib.Tactic.Common
import Mathlib.Tactic.Ring

/-!
# Big-endian numbers

Fixed-width byte strings of natural numbers, most significant byte first. A
number below the width's bound is read back from its bytes, and bytes are
written again from the number they stand for.
-/

set_option autoImplicit false

namespace Remerge.BigEndian

def toBytes : ℕ → ℕ → List UInt8
  | 0, _ => []
  | w+1, n => UInt8.ofNat (n/256^w)::toBytes w n

def ofBytes (bytes : List UInt8) : ℕ := bytes.foldl (fun acc b => acc*256+b.toNat) 0

@[simp] theorem length_toBytes (w n : ℕ) : (toBytes w n).length = w := by
  induction w with
  | zero => rfl
  | succ w ih => simp [toBytes,ih]

theorem foldl_toBytes (w n acc : ℕ) :
    (toBytes w n).foldl (fun acc b => acc*256+b.toNat) acc = acc*256^w+n%256^w := by
  induction w generalizing acc with
  | zero => simp [toBytes,Nat.mod_one]
  | succ w ih =>
    have hb : (UInt8.ofNat (n/256^w)).toNat = n/256^w%256 := by simp
    rw [toBytes,List.foldl_cons,ih,hb,Nat.mod_pow_succ]
    ring

theorem ofBytes_toBytes (w n : ℕ) (h : n < 256^w) : ofBytes (toBytes w n) = n := by
  rw [ofBytes,foldl_toBytes,Nat.mod_eq_of_lt h]
  omega

theorem toBytes_mod (w n k : ℕ) (h : w ≤ k) : toBytes w (n%256^k) = toBytes w n := by
  induction w with
  | zero => rfl
  | succ w ih =>
    have hdigit : n%256^k/256^w%256 = n/256^w%256 := by
      have hk : 256^k = 256^w*256^(k-w) := by rw [← Nat.pow_add]; congr 1; omega
      have hd : (256 : ℕ) ∣ 256^(k-w) := dvd_pow_self 256 (by omega)
      rw [hk,Nat.mod_mul_right_div_self,Nat.mod_mod_of_dvd _ hd]
    have hbyte : UInt8.ofNat (n%256^k/256^w) = UInt8.ofNat (n/256^w) := by
      apply UInt8.toNat_inj.mp
      simpa using hdigit
    rw [toBytes,toBytes,ih (by omega),hbyte]

theorem foldl_ofBytes (bytes : List UInt8) (acc : ℕ) :
    bytes.foldl (fun acc b => acc*256+b.toNat) acc = acc*256^bytes.length+ofBytes bytes := by
  induction bytes generalizing acc with
  | nil => simp [ofBytes]
  | cons b bytes ih =>
    rw [ofBytes,List.foldl_cons,List.foldl_cons,ih,ih,List.length_cons,Nat.pow_succ]
    ring

theorem ofBytes_cons (b : UInt8) (bytes : List UInt8) :
    ofBytes (b::bytes) = b.toNat*256^bytes.length+ofBytes bytes := by
  rw [ofBytes,List.foldl_cons,foldl_ofBytes,Nat.zero_mul,Nat.zero_add]

theorem ofBytes_lt (bytes : List UInt8) : ofBytes bytes < 256^bytes.length := by
  induction bytes with
  | nil => simp [ofBytes]
  | cons b bytes ih =>
    have hb : b.toNat+1 ≤ 256 := b.toNat_lt
    have hmul : (b.toNat+1)*256^bytes.length ≤ 256*256^bytes.length := Nat.mul_le_mul_right _ hb
    rw [Nat.add_mul,Nat.one_mul] at hmul
    rw [ofBytes_cons,List.length_cons,Nat.pow_succ]
    omega

theorem toBytes_ofBytes (bytes : List UInt8) : toBytes bytes.length (ofBytes bytes) = bytes := by
  induction bytes with
  | nil => rfl
  | cons b bytes ih =>
    have hlt := ofBytes_lt bytes
    have hpos : 0 < 256^bytes.length := Nat.pow_pos (by omega)
    have hdiv : ofBytes (b::bytes)/256^bytes.length = b.toNat := by
      rw [ofBytes_cons,Nat.add_comm,Nat.add_mul_div_right _ _ hpos,Nat.div_eq_of_lt hlt]
      omega
    have hmod : ofBytes (b::bytes)%256^bytes.length = ofBytes bytes := by
      rw [ofBytes_cons,Nat.add_comm,Nat.add_mul_mod_self_right,Nat.mod_eq_of_lt hlt]
    have hrest : toBytes bytes.length (ofBytes (b::bytes)) = bytes := by
      rw [← toBytes_mod _ _ _ le_rfl,hmod,ih]
    rw [List.length_cons,toBytes,hdiv,hrest,UInt8.ofNat_toNat]

end Remerge.BigEndian
