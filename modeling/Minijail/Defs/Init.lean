import Minijail.Defs.Policy
import Mathlib.Data.List.Perm.Basic

/-! `init`, the process that supervises a pid namespace. It reaps with `wait3` until no process
of the namespace is left, keeping the wait status of `rootpid` only, and then writes the usage,
the wall time and the exit reason to the meta file. The kernel decides in which order the
processes of the namespace end, so one run of the loop is one list of reaps. `MINIJAIL_ERR_INIT`
comes from `libminijail.h`, which is not among the sources: it is the parameter `errInit`. -/

namespace Libminijail

structure Rusage where
  utimeSec : BitVec 64
  utimeUsec : BitVec 64
  maxrss : BitVec 64
  deriving DecidableEq

structure Reap where
  pid : BitVec 32
  status : BitVec 32
  usage : Rusage
  deriving DecidableEq

structure Waited where
  exitStatus : BitVec 32
  usage : Rusage

def waitStep (rootpid : BitVec 32) (s : Waited) (r : Reap) : Waited :=
  { exitStatus := if r.pid = rootpid then r.status else s.exitStatus, usage := r.usage }

def waitLoop (rootpid : BitVec 32) (s : Waited) (reaps : List Reap) : Waited :=
  reaps.foldl (waitStep rootpid) s

def WIFEXITED (s : BitVec 32) : Bool := s &&& 0x7f = 0
def WEXITSTATUS (s : BitVec 32) : Int := ((s >>> 8) &&& 0xff).toNat
def WTERMSIG (s : BitVec 32) : Int := (s &&& 0x7f).toNat

def WIFSIGNALED (s : BitVec 32) : Bool :=
  0 < ((((s &&& 0x7f) + 1).setWidth 8).sshiftRight 1).toInt

/-- Modelled from the spec: the number of `SIGXCPU`, which a timed-out run reports as
`signal:24`. -/
def SIGXCPU : Int := 24

structure Timespec where
  sec : BitVec 64
  nsec : BitVec 64

def wallElapsed (t0 t1 : Timespec) : Timespec :=
  if t1.nsec.slt t0.nsec then ⟨t1.sec - t0.sec - 1, 1000000000 + t1.nsec - t0.nsec⟩
  else ⟨t1.sec - t0.sec, t1.nsec - t0.nsec⟩

inductive MetaLine where
  | time (us : Int)
  | timeWall (us : Int)
  | mem (bytes : Int)
  | signal (n : Int)
  | status (n : Int)
  deriving DecidableEq

def usageLines (u : Rusage) (wall : Timespec) : List MetaLine :=
  [.time (1000000 * u.utimeSec + u.utimeUsec).toInt,
   .timeWall ((1000000000 * wall.sec + wall.nsec).sdiv 1000).toInt,
   .mem (u.maxrss * 1024).toInt]

section Init

variable (errInit : Int)

def exitOf (override : Bool) (st : BitVec 32) : Int × Int :=
  if override then (SIGXCPU, errInit)
  else if !WIFEXITED st then (if WIFSIGNALED st then WTERMSIG st else -1, errInit)
  else (0, WEXITSTATUS st)

def exitLine (sig st : Int) : MetaLine :=
  if sig ≠ 0 then .signal sig else .status st

/-- `init(j, rootpid)`: the lines it writes to the meta file and the status it `_exit`s with,
for the reaps of its loop. `stack` is what the uninitialised `usage` holds before the first
`wait3`, and `fired` whether `timeout` ran, which it can only with a time limit armed; `none`
when `fprintf` is handed the `NULL` of a meta file that could not be opened. -/
def init (j : Minijail) (rootpid : BitVec 32) (stack : Rusage) (reaps : List Reap) (fired : Bool)
    (t0 t1 : Timespec) : Option (List MetaLine × Int) :=
  let s := waitLoop rootpid ⟨0, stack⟩ reaps
  let (sig, st) := exitOf errInit (j.flags.timeLimit && fired) s.exitStatus
  if j.flags.metaFile then
    if j.metaFile.isNull then none
    else some (usageLines s.usage (wallElapsed t0 t1) ++ [exitLine sig st], st)
  else some ([], st)

end Init

/-- `init_term`, the `SIGTERM` handler `init` installs before its loop: `_exit(init_exitstatus)`,
the raw wait status of the last reap of `rootpid` so far, `0` before it. -/
def initTerm (rootpid : BitVec 32) (stack : Rusage) (reaps : List Reap) : Int :=
  (waitLoop rootpid ⟨0, stack⟩ reaps).exitStatus.toInt

section Loop

variable (rootpid : BitVec 32)

theorem waitLoop_eq (s : Waited) (reaps : List Reap) :
    waitLoop rootpid s reaps =
      ⟨((reaps.filter (·.pid = rootpid)).getLast?.map (·.status)).getD s.exitStatus,
       (reaps.getLast?.map (·.usage)).getD s.usage⟩ := by
  induction reaps using List.reverseRecOn with
  | nil => rfl
  | append_singleton rs r ih =>
    simp only [waitLoop, List.foldl_append, List.foldl_cons, List.foldl_nil] at ih ⊢
    rw [ih, waitStep, List.filter_append, List.getLast?_append]
    by_cases h : r.pid = rootpid <;> simp [h]

theorem waitLoop_exitStatus_perm {reaps reaps' : List Reap} (hp : reaps.Perm reaps')
    (h1 : (reaps.filter (·.pid = rootpid)).length ≤ 1) (s : Waited) :
    (waitLoop rootpid s reaps).exitStatus = (waitLoop rootpid s reaps').exitStatus := by
  suffices reaps.filter (·.pid = rootpid) = reaps'.filter (·.pid = rootpid) by
    rw [waitLoop_eq, waitLoop_eq, this]
  have hf := hp.filter (fun r : Reap => decide (r.pid = rootpid))
  generalize reaps.filter (·.pid = rootpid) = l at hf h1 ⊢
  match l, h1 with
  | [], _ => exact hf.nil_eq
  | [_], _ => exact (List.perm_singleton.1 hf.symm).symm
  | _ :: _ :: _, h => simp at h

theorem waitLoop_usage {reaps : List Reap} (h : reaps ≠ []) (s : Waited) :
    (waitLoop rootpid s reaps).usage = (reaps.getLast h).usage := by
  rw [waitLoop_eq, List.getLast?_eq_getLast reaps h]
  rfl

end Loop

section Report

variable (errInit : Int) (j : Minijail) (rootpid : BitVec 32) (stack : Rusage) (fired : Bool)
  (t0 t1 : Timespec)

theorem length_usageLines (u : Rusage) (wall : Timespec) : (usageLines u wall).length = 3 := rfl

theorem init_exit_perm {reaps reaps' : List Reap} (hp : reaps.Perm reaps')
    (h1 : (reaps.filter (·.pid = rootpid)).length ≤ 1) :
    (init errInit j rootpid stack reaps fired t0 t1).map (fun r => (r.1.drop 3, r.2)) =
      (init errInit j rootpid stack reaps' fired t0 t1).map (fun r => (r.1.drop 3, r.2)) := by
  simp only [init, waitLoop_exitStatus_perm rootpid hp h1]
  split_ifs <;> simp [List.drop_append_eq_append_drop, length_usageLines]

theorem init_usage_last {reaps : List Reap} (h : reaps ≠ []) (hm : j.flags.metaFile = true)
    (hn : j.metaFile.isNull = false) :
    (init errInit j rootpid stack reaps fired t0 t1).map (·.1.take 3) =
      some (usageLines (reaps.getLast h).usage (wallElapsed t0 t1)) := by
  simp [init, hm, hn, waitLoop_usage rootpid h, List.take_append_eq_append_take, length_usageLines]

end Report

def metaPolicy : Minijail := (minijailMetaFile minijailNew (some ⟨1, by decide, 3⟩)).1

def rootReap : Reap := ⟨2, 0, ⟨0, 1000, 100⟩⟩

def orphanReap : Reap := ⟨3, 0, ⟨0, 5, 50⟩⟩

/-- `init` writes the usage of the last process it reaps, not that of `rootpid`: reaped after
the target, an orphan's usage takes the target's place in the `time:` and `mem:` lines. Only
the last line and the exit status are the same for every order. -/
theorem init_reports_last_reaped (errInit : Int) :
    (∀ j rootpid stack fired t0 t1 (reaps reaps' : List Reap), reaps.Perm reaps' →
      (reaps.filter (·.pid = rootpid)).length ≤ 1 →
      (init errInit j rootpid stack reaps fired t0 t1).map (fun r => (r.1.drop 3, r.2)) =
        (init errInit j rootpid stack reaps' fired t0 t1).map (fun r => (r.1.drop 3, r.2))) ∧
    (∀ j rootpid stack fired t0 t1 (reaps : List Reap) (h : reaps ≠ []), j.flags.metaFile = true →
      j.metaFile.isNull = false →
      (init errInit j rootpid stack reaps fired t0 t1).map (·.1.take 3) =
        some (usageLines (reaps.getLast h).usage (wallElapsed t0 t1))) ∧
    [rootReap, orphanReap].Perm [orphanReap, rootReap] ∧
    (init errInit metaPolicy 2 ⟨0, 0, 0⟩ [rootReap, orphanReap] false ⟨0, 0⟩ ⟨0, 0⟩).map (·.1) =
      some [.time 5, .timeWall 0, .mem 51200, .status 0] ∧
    (init errInit metaPolicy 2 ⟨0, 0, 0⟩ [orphanReap, rootReap] false ⟨0, 0⟩ ⟨0, 0⟩).map (·.1) =
      some [.time 1000, .timeWall 0, .mem 102400, .status 0] :=
  ⟨fun j rootpid stack fired t0 t1 _ _ hp h1 => init_exit_perm errInit j rootpid stack fired t0 t1 hp h1,
   fun j rootpid stack fired t0 t1 _ h hm hn => init_usage_last errInit j rootpid stack fired t0 t1 h hm hn,
   List.Perm.swap _ _ [], rfl, rfl⟩

end Libminijail
