import Mathlib.Data.List.Basic
import Mathlib.Algebra.Order.Group.Nat

/-! Bytes as `libminijail.c` handles them: NUL-free C strings, little-endian integer fields of a
raw struct, and the window of a buffer that a pointer and a remaining length delimit. -/

namespace Libminijail

/-- A C string: the bytes before its terminating NUL. -/
structure CStr where
  bytes : List UInt8
  nul_free : 0 ∉ bytes
  deriving DecidableEq

theorem CStr.ext {s t : CStr} (h : s.bytes = t.bytes) : s = t := by
  cases s; cases t; cases h; rfl

def CStr.withNul (s : CStr) : List UInt8 := s.bytes ++ [0]

@[simp] theorem CStr.length_withNul (s : CStr) : s.withNul.length = s.bytes.length + 1 := by
  simp [CStr.withNul]

theorem CStr.withNul_append_inj {s t : CStr} {r r' : List UInt8}
    (h : s.withNul ++ r = t.withNul ++ r') : s = t ∧ r = r' := by
  obtain ⟨s, hs⟩ := s
  obtain ⟨t, ht⟩ := t
  simp only [CStr.withNul, List.append_assoc, List.singleton_append, CStr.mk.injEq] at h ⊢
  induction s generalizing t with
  | nil =>
    cases t with
    | nil => simpa using h
    | cons d t =>
      simp only [List.nil_append, List.cons_append, List.cons.injEq] at h
      simp [← h.1] at ht
  | cons c s ih =>
    cases t with
    | nil =>
      simp only [List.nil_append, List.cons_append, List.cons.injEq] at h
      simp [h.1] at hs
    | cons d t =>
      simp only [List.cons_append, List.cons.injEq, List.mem_cons, not_or] at h hs ht ⊢
      exact ⟨⟨h.1, (ih hs.2 t ht.2 h.2).1⟩, (ih hs.2 t ht.2 h.2).2⟩

theorem CStr.zero_mem_withNul (s : CStr) : (0 : UInt8) ∈ s.withNul := by simp [CStr.withNul]

def leBytes : Nat → Nat → List UInt8
  | 0, _ => []
  | w + 1, v => UInt8.ofNat (v % 256) :: leBytes w (v / 256)

def leNat : List UInt8 → Nat
  | [] => 0
  | b :: bs => b.toNat + 256 * leNat bs

@[simp] theorem length_leBytes (w v : Nat) : (leBytes w v).length = w := by
  induction w generalizing v <;> simp [leBytes, *]

theorem leNat_leBytes (w v : Nat) : leNat (leBytes w v) = v % 256 ^ w := by
  induction w generalizing v with
  | zero => simp [leBytes, leNat, Nat.mod_one]
  | succ w ih =>
    have hb : (UInt8.ofNat (v % 256)).toNat = v % 256 := by
      simp [UInt8.ofNat, UInt8.toNat, Fin.ofNat]
    rw [leBytes, leNat, ih, hb, pow_succ', Nat.mod_mul]

def window (buf : Nat → UInt8) (p : Nat) : Nat → List UInt8
  | 0 => []
  | n + 1 => buf p :: window buf (p + 1) n

def strnlen (buf : Nat → UInt8) (p : Nat) : Nat → Nat
  | 0 => 0
  | n + 1 => if buf p = 0 then 0 else strnlen buf (p + 1) n + 1

section Window

variable {buf buf' : Nat → UInt8}

@[simp] theorem length_window (p n : Nat) : (window buf p n).length = n := by
  induction n generalizing p <;> simp [window, *]

theorem window_add (p m n : Nat) :
    window buf p (m + n) = window buf p m ++ window buf (p + m) n := by
  induction m generalizing p with
  | zero => simp [window]
  | succ m ih =>
    rw [Nat.succ_add, window, ih, window, List.cons_append, Nat.add_right_comm, Nat.add_assoc]

theorem window_eq_append {p n : Nat} {s r : List UInt8} (h : window buf p n = s ++ r) :
    window buf p s.length = s ∧ window buf (p + s.length) (n - s.length) = r := by
  have hn : s.length ≤ n := by
    have := congrArg List.length h
    simp only [length_window, List.length_append] at this
    omega
  rw [← Nat.add_sub_cancel' hn, window_add] at h
  exact List.append_inj h (by simp)

theorem window_congr {p n : Nat} (h : ∀ i, p ≤ i → i < p + n → buf i = buf' i) :
    window buf p n = window buf' p n := by
  induction n generalizing p with
  | zero => rfl
  | succ n ih =>
    simp only [window]
    rw [h p le_rfl (by omega), ih fun i hi hi' => h i (by omega) (by omega)]

theorem window_of_getD {p : Nat} {l : List UInt8} (h : ∀ i < l.length, buf (p + i) = l.getD i 0) :
    window buf p l.length = l := by
  induction l generalizing p with
  | nil => rfl
  | cons x xs ih =>
    have hx : buf p = x := by simpa using h 0 (by simp)
    have hxs : window buf (p + 1) xs.length = xs :=
      ih fun i hi => by simpa [Nat.add_assoc, Nat.add_comm 1] using h (i + 1) (by simpa using hi)
    simp only [List.length_cons, window, hx, hxs]

theorem strnlen_congr {p n : Nat} (h : ∀ i, p ≤ i → i < p + n → buf i = buf' i) :
    strnlen buf p n = strnlen buf' p n := by
  induction n generalizing p with
  | zero => rfl
  | succ n ih =>
    simp only [strnlen]
    rw [h p le_rfl (by omega), ih fun i hi hi' => h i (by omega) (by omega)]

theorem strnlen_le (p n : Nat) : strnlen buf p n ≤ n := by
  induction n generalizing p with
  | zero => rfl
  | succ n ih => simp only [strnlen]; split <;> simp [ih]

theorem zero_not_mem_window_strnlen (p n : Nat) : 0 ∉ window buf p (strnlen buf p n) := by
  induction n generalizing p with
  | zero => simp [strnlen, window]
  | succ n ih =>
    simp only [strnlen]
    split
    · simp [window]
    · simp_all [window, eq_comm]

theorem buf_strnlen {p n : Nat} (h : strnlen buf p n < n) : buf (p + strnlen buf p n) = 0 := by
  induction n generalizing p with
  | zero => simp at h
  | succ n ih =>
    simp only [strnlen] at h ⊢
    split
    · assumption
    · rename_i h0
      simp only [h0, ite_false] at h
      rw [← Nat.add_assoc, Nat.add_right_comm]
      exact ih (by omega)

theorem strnlen_of_window {p n : Nat} {s r : List UInt8} (h : window buf p n = s ++ 0 :: r)
    (hs : 0 ∉ s) : strnlen buf p n = s.length := by
  induction s generalizing p n with
  | nil => cases n <;> simp_all [window, strnlen]
  | cons c s ih =>
    cases n with
    | zero => simp [window] at h
    | succ n =>
      simp only [window, List.cons_append, List.cons.injEq] at h
      simp only [List.mem_cons, not_or] at hs
      simp [strnlen, h.1, Ne.symm hs.1, ih h.2 hs.2]

theorem window_strnlen {p n : Nat} (h : strnlen buf p n < n) :
    window buf p n = window buf p (strnlen buf p n) ++
      0 :: window buf (p + strnlen buf p n + 1) (n - strnlen buf p n - 1) := by
  have hn : n = strnlen buf p n + (1 + (n - strnlen buf p n - 1)) := by omega
  conv_lhs => rw [hn, window_add, window_add]
  simp [window, buf_strnlen h, Nat.add_assoc]

end Window

end Libminijail
