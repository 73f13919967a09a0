/-
Fixed-width numbers in bytes, and a block of memory read and written
within its bounds.

# Numbers

`leBytes n v` are the low `n` bytes of `v`, least significant first, and
`leValue` reads bytes back; `beBytes` and `beValue` are the same most
significant first. `hostBytes e` is how a machine of byte order `e` lays
a number out. Every conversion is determined by two rules, value of
bytes and bytes of value, and by the rule for concatenation.

# Blocks

`load` and `store` answer `Fault` when a byte is outside the block. A
writer that proceeds front to back is verified by its frontier: `done`
is a prefix of the block, and a store at the frontier extends it
(`store_frontier`).
-/
import Mathlib.Data.List.Basic
import Mathlib.Data.List.Infix
import Mathlib.Tactic.Ring

namespace Bytes

-- ================================================================ numbers

def leBytes : Nat → Nat → List UInt8
  | 0, _ => []
  | n + 1, v => UInt8.ofNat v :: leBytes n (v / 256)

def leValue : List UInt8 → Nat
  | [] => 0
  | b :: bs => b.toNat + 256 * leValue bs

def beBytes (n v : Nat) : List UInt8 := (leBytes n v).reverse

def beValue (bs : List UInt8) : Nat := leValue bs.reverse

variable {m n v : Nat} {bs cs : List UInt8}

@[simp] theorem leBytes_length (n v : Nat) : (leBytes n v).length = n := by
  induction n generalizing v with
  | zero => rfl
  | succ n ih => simp [leBytes, ih]

@[simp] theorem beBytes_length (n v : Nat) : (beBytes n v).length = n := by
  simp [beBytes]

theorem leValue_leBytes (n v : Nat) : leValue (leBytes n v) = v % 256 ^ n := by
  induction n generalizing v with
  | zero => simp [leBytes, leValue, Nat.mod_one]
  | succ n ih =>
      unfold leBytes
      rw [leValue, ih, Nat.pow_succ', Nat.mod_mul]
      simp

theorem leBytes_leValue (bs : List UInt8) :
    leBytes bs.length (leValue bs) = bs := by
  induction bs with
  | nil => rfl
  | cons b bs ih =>
      have hlt := b.toNat_lt
      have hdiv : (b.toNat + 256 * leValue bs) / 256 = leValue bs := by omega
      have hmod : UInt8.ofNat (b.toNat + 256 * leValue bs) = b := by
        apply UInt8.toNat_inj.mp
        simp
      rw [List.length_cons, leValue, leBytes, hdiv, hmod, ih]

theorem leValue_append (bs cs : List UInt8) :
    leValue (bs ++ cs) = leValue bs + 256 ^ bs.length * leValue cs := by
  induction bs with
  | nil => simp [leValue]
  | cons b bs ih =>
      rw [List.cons_append, leValue, leValue, ih, List.length_cons,
        Nat.pow_succ']
      ring

theorem leValue_lt (bs : List UInt8) : leValue bs < 256 ^ bs.length := by
  rw [← leBytes_leValue bs, leValue_leBytes, leBytes_length]
  exact Nat.mod_lt _ (Nat.pow_pos (by decide))

/-- The bytes of a number split where its digits do. -/
theorem leBytes_add (m n v : Nat) :
    leBytes (m + n) v = leBytes m v ++ leBytes n (v / 256 ^ m) := by
  induction m generalizing v with
  | zero => simp [leBytes]
  | succ m ih =>
      rw [Nat.succ_add, leBytes, ih, leBytes, List.cons_append,
        Nat.div_div_eq_div_mul, Nat.pow_succ']

theorem beValue_beBytes (n v : Nat) : beValue (beBytes n v) = v % 256 ^ n := by
  unfold beValue
  rw [beBytes, List.reverse_reverse, leValue_leBytes]

theorem beBytes_beValue (bs : List UInt8) :
    beBytes bs.length (beValue bs) = bs := by
  unfold beValue
  rw [beBytes, ← List.length_reverse, leBytes_leValue, List.reverse_reverse]

theorem beValue_append (bs cs : List UInt8) :
    beValue (bs ++ cs) = beValue cs + 256 ^ cs.length * beValue bs := by
  rw [beValue, List.reverse_append, leValue_append, List.length_reverse]
  rfl

theorem beValue_lt (bs : List UInt8) : beValue bs < 256 ^ bs.length := by
  unfold beValue
  rw [← List.length_reverse]
  exact leValue_lt _

theorem beBytes_add (m n v : Nat) :
    beBytes (m + n) v = beBytes m (v / 256 ^ n) ++ beBytes n v := by
  rw [beBytes, Nat.add_comm, leBytes_add, List.reverse_append]
  rfl

theorem leBytes_mod (n v : Nat) : leBytes n (v % 256 ^ n) = leBytes n v := by
  have := leBytes_leValue (leBytes n v)
  rwa [leValue_leBytes, leBytes_length] at this

theorem beBytes_mod (n v : Nat) : beBytes n (v % 256 ^ n) = beBytes n v := by
  rw [beBytes, leBytes_mod, beBytes]

-- ============================================================= byte order

inductive Endian where
  | little
  | big
deriving DecidableEq

/-- How a machine lays the low `n` bytes of a number out. -/
def hostBytes : Endian → Nat → Nat → List UInt8
  | .little => leBytes
  | .big => beBytes

/-- The number a machine reads from bytes. -/
def hostValue : Endian → List UInt8 → Nat
  | .little => leValue
  | .big => beValue

variable (e : Endian)

@[simp] theorem hostBytes_length (n v : Nat) :
    (hostBytes e n v).length = n := by
  cases e <;> simp [hostBytes]

theorem hostValue_lt (bs : List UInt8) :
    hostValue e bs < 256 ^ bs.length := by
  cases e with
  | little => exact leValue_lt bs
  | big => exact beValue_lt bs

theorem hostBytes_hostValue (bs : List UInt8) :
    hostBytes e bs.length (hostValue e bs) = bs := by
  cases e with
  | little => exact leBytes_leValue bs
  | big => exact beBytes_beValue bs

-- ================================================================= blocks

/-- An access outside a block, by the offset of the byte. -/
inductive Fault where
  | read (off : Nat)
  | write (off : Nat)
deriving DecidableEq

/-- Read `n` bytes at an offset. -/
def load (mem : List UInt8) (off n : Nat) : Except Fault (List UInt8) :=
  if off + n ≤ mem.length then .ok ((mem.drop off).take n)
  else .error (.read (max off mem.length))

/-- Write bytes at an offset. -/
def store (mem : List UInt8) (off : Nat) (bs : List UInt8) :
    Except Fault (List UInt8) :=
  if off + bs.length ≤ mem.length then
    .ok (mem.take off ++ bs ++ mem.drop (off + bs.length))
  else .error (.write (max off mem.length))

variable {mem mem' : List UInt8} {off : Nat}

/-- Loads inside the block go through. -/
theorem load_ok (h : off + n ≤ mem.length) :
    load mem off n = .ok ((mem.drop off).take n) := if_pos h

/-- A store at the frontier of what is written extends it. -/
theorem store_frontier {done : List UInt8} (off : Nat) (bs : List UInt8)
    (h : done <+: mem) (hoff : off = done.length)
    (hfit : (done ++ bs).length ≤ mem.length) :
    ∃ mem', store mem off bs = .ok mem' ∧ (done ++ bs) <+: mem'
      ∧ mem'.length = mem.length := by
  subst hoff
  rw [List.length_append] at hfit
  refine ⟨_, if_pos hfit, ?_, ?_⟩
  · rw [← List.prefix_iff_eq_take.mp h]
    exact List.prefix_append ..
  · simp only [List.length_append, List.length_take, List.length_drop]
    omega

end Bytes
