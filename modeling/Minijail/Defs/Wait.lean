import Minijail.Defs.Init

/-! `minijail_wait`, with which the caller of `minijail_run_pid_pipes` collects the end of the jail,
and the statuses the kernel reports to `waitpid`. The process `initpid` names is the program
itself without a pid namespace; with one it is `init`, which `_exit`s with the status it derived
from the program's, so the caller sees the program's end only through `init`'s. -/

namespace Libminijail

def SIGSYS : Int := 31

def exitedStatus (code : Int) : BitVec 32 := (BitVec.ofInt 32 code &&& 0xff) <<< 8

def signaledStatus (sig : Nat) (core : Bool) : BitVec 32 :=
  BitVec.ofNat 32 (if core then sig + 0x80 else sig)

/-- `minijail_wait(j)`, where `waited` is what `waitpid(j->initpid, &st, 0)` answers: the status
it stored, or the `errno` of its failure. `errJail` is `MINIJAIL_ERR_JAIL`, from
`libminijail.h`, which is not among the sources. -/
def minijailWait (errJail : Int) : Except Int (BitVec 32) → Int
  | .error errno => -errno
  | .ok st =>
    if !WIFEXITED st then
      if WIFSIGNALED st then
        if WTERMSIG st = SIGSYS then errJail else 128 + WTERMSIG st
      else st.toInt
    else WEXITSTATUS st

/-- `minijail_kill(j)`, where `killed` is what `kill(j->initpid, SIGTERM)` answers and `waited`
what the `waitpid` after it answers: the raw status, undecoded. -/
def minijailKill (killed : Except Int Unit) (waited : Except Int (BitVec 32)) : Int :=
  match killed, waited with
  | .error errno, _ => -errno
  | .ok (), .error errno => -errno
  | .ok (), .ok st => st.toInt

def SIGSEGV : Nat := 11

inductive LoopEnd where
  | drained
  | term

theorem toNat_and_0x7f (s : BitVec 32) : (s &&& 0x7f).toNat = s.toNat % 128 := by
  rw [BitVec.toNat_and]; exact Nat.and_pow_two_sub_one_eq_mod s.toNat 7

theorem toNat_and_0xff (s : BitVec 32) : (s &&& 0xff).toNat = s.toNat % 256 := by
  rw [BitVec.toNat_and]; exact Nat.and_pow_two_sub_one_eq_mod s.toNat 8

theorem WIFEXITED_iff (s : BitVec 32) : WIFEXITED s = true ↔ s.toNat % 128 = 0 := by
  rw [WIFEXITED, decide_eq_true_iff, BitVec.toNat_eq, toNat_and_0x7f]; rfl

theorem WEXITSTATUS_eq (s : BitVec 32) : WEXITSTATUS s = (s.toNat / 256 % 256 : Nat) := by
  rw [WEXITSTATUS, toNat_and_0xff, BitVec.toNat_ushiftRight, Nat.shiftRight_eq_div_pow]

theorem WTERMSIG_eq (s : BitVec 32) : WTERMSIG s = (s.toNat % 128 : Nat) := by
  rw [WTERMSIG, toNat_and_0x7f]

theorem WIFSIGNALED_of_low {s : BitVec 32} (h0 : 0 < s.toNat % 128) (h1 : s.toNat % 128 < 127) :
    WIFSIGNALED s = true := by
  have hy : (((s &&& 0x7f) + 1).setWidth 8).toNat = s.toNat % 128 + 1 := by
    have h1 : (1 : BitVec 32).toNat = 1 := rfl
    rw [BitVec.toNat_setWidth, BitVec.toNat_add, toNat_and_0x7f, h1]
    omega
  have hmsb : (((s &&& 0x7f) + 1).setWidth 8).msb = false :=
    BitVec.msb_eq_false_iff_two_mul_lt.2 (by rw [hy]; omega)
  rw [WIFSIGNALED, decide_eq_true_iff, BitVec.sshiftRight_eq_of_msb_false hmsb,
    BitVec.toInt_eq_toNat_cond, BitVec.toNat_ushiftRight, Nat.shiftRight_eq_div_pow, hy]
  split <;> omega

theorem toNat_exitedStatus (code : Int) : (exitedStatus code).toNat = (code % 256).toNat * 256 := by
  rw [exitedStatus, BitVec.toNat_shiftLeft, toNat_and_0xff, BitVec.toNat_ofInt, Nat.shiftLeft_eq]
  omega

theorem toNat_signaledStatus {sig : Nat} (core : Bool) (h : sig < 128) :
    (signaledStatus sig core).toNat = if core then sig + 128 else sig := by
  rw [signaledStatus, BitVec.toNat_ofNat]
  split <;> omega

section Decode

variable (errJail : Int)

theorem minijailWait_exited (code : Int) :
    minijailWait errJail (.ok (exitedStatus code)) = code % 256 := by
  have hx : WIFEXITED (exitedStatus code) = true :=
    (WIFEXITED_iff _).2 (by rw [toNat_exitedStatus]; omega)
  rw [minijailWait, hx, Bool.not_true, if_neg Bool.false_ne_true, WEXITSTATUS_eq,
    toNat_exitedStatus]
  omega

theorem minijailWait_signaled {sig : Nat} (core : Bool) (h0 : 0 < sig) (h1 : sig < 127) :
    minijailWait errJail (.ok (signaledStatus sig core)) =
      if (sig : Int) = SIGSYS then errJail else 128 + sig := by
  have hlow : (signaledStatus sig core).toNat % 128 = sig := by
    rw [toNat_signaledStatus core (by omega)]; split <;> omega
  have hx : WIFEXITED (signaledStatus sig core) = false := by
    rw [← Bool.not_eq_true, WIFEXITED_iff]; omega
  rw [minijailWait, hx, WIFSIGNALED_of_low (by omega) (by omega), WTERMSIG_eq, hlow]
  rfl

end Decode

section Init

variable (errInit errJail : Int) (j : Minijail) (rootpid : BitVec 32) (stack : Rusage)
  (reaps : List Reap) (fired : Bool) (t0 t1 : Timespec) (core : Bool)

/-- The status `waitpid` reports for the `init` process whose loop made the reaps `reaps` and
ended by `e`: it `_exit`s, or, the meta file being `NULL`, `fprintf` kills it with `SIGSEGV`,
dumping core or not. -/
def initStatus : LoopEnd → BitVec 32
  | .term => exitedStatus (initTerm rootpid stack reaps)
  | .drained =>
    match init errInit j rootpid stack reaps fired t0 t1 with
    | some (_, st) => exitedStatus st
    | none => signaledStatus SIGSEGV core

theorem init_status {lines : List MetaLine} {st : Int}
    (h : init errInit j rootpid stack reaps fired t0 t1 = some (lines, st)) :
    st = (exitOf errInit (j.flags.timeLimit && fired)
      (waitLoop rootpid ⟨0, stack⟩ reaps).exitStatus).2 := by
  unfold init at h
  split_ifs at h <;> cases h <;> rfl

theorem init_eq_none_iff :
    init errInit j rootpid stack reaps fired t0 t1 = none ↔
      j.flags.metaFile = true ∧ j.metaFile.isNull = true := by
  unfold init
  split_ifs <;> simp_all

theorem toInt_emod_256 (s : BitVec 32) : s.toInt % 256 = (s.toNat % 256 : Nat) := by
  rw [BitVec.toInt_eq_toNat_cond]
  split <;> omega

/-- With a pid namespace the process `initpid` names is `init`. When its loop ends with no
process left, `minijail_wait` reports the program's exit code if the program exited and the time
limit did not fire, otherwise the low byte of `MINIJAIL_ERR_INIT`, whatever signal killed the
program, `SIGSYS` included; and `128 + SIGSEGV` when the meta file is set but `NULL`. When
`SIGTERM` ends the loop, `init_term` passes `init_exitstatus` raw to `_exit`, and `minijail_wait`
reports its low byte: `0` for a program that exited, whatever its code. -/
theorem wait_through_init (e : LoopEnd) :
    minijailWait errJail (.ok (initStatus errInit j rootpid stack reaps fired t0 t1 core e)) =
      let s := (waitLoop rootpid ⟨0, stack⟩ reaps).exitStatus
      match e with
      | .term => (s.toNat % 256 : Nat)
      | .drained =>
        if j.flags.metaFile = true ∧ j.metaFile.isNull = true then 128 + SIGSEGV
        else if (j.flags.timeLimit && fired) = false ∧ WIFEXITED s = true then WEXITSTATUS s
        else errInit % 256 := by
  cases e with
  | term => rw [initStatus, minijailWait_exited, initTerm, toInt_emod_256]
  | drained =>
    have hn := init_eq_none_iff errInit j rootpid stack reaps fired t0 t1
    simp only [initStatus]
    split
    · rename_i lines st h
      rw [if_neg (hn.not.1 (by simp [h])), minijailWait_exited,
        init_status errInit j rootpid stack reaps fired t0 t1 h]
      generalize (waitLoop rootpid ⟨0, stack⟩ reaps).exitStatus = s
      cases j.flags.timeLimit && fired <;> cases hx : WIFEXITED s <;> simp [exitOf, hx]
      rw [WEXITSTATUS_eq]; omega
    · rename_i h
      rw [if_pos (hn.1 h), minijailWait_signaled errJail core (by decide) (by decide)]
      rfl

example : minijailWait 253 (.ok (initStatus 254 minijailNew 2 ⟨0, 0, 0⟩
    [⟨2, exitedStatus 3, ⟨0, 0, 0⟩⟩] false ⟨0, 0⟩ ⟨0, 0⟩ false .term)) = 0 := by decide

theorem minijailKill_through_init :
    minijailKill (.ok ()) (.ok (initStatus errInit j rootpid stack reaps fired t0 t1 core .term)) =
      ((waitLoop rootpid ⟨0, stack⟩ reaps).exitStatus.toNat % 256 * 256 : Nat) := by
  have h := toNat_exitedStatus (initTerm rootpid stack reaps)
  rw [initTerm, toInt_emod_256] at h
  simp only [minijailKill, initStatus, initTerm]
  rw [BitVec.toInt_eq_toNat_cond, h]
  split <;> omega

end Init

end Libminijail
