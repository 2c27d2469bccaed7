import Minijail.Defs.BuilderLaws

/-! Process groups on the launch paths, which decide what `init`'s `timeout` reaches with
`kill(-child_pid, SIGKILL)`. The rules of `setsid` and `setpgid` are the kernel's. -/

namespace Libminijail

structure Process where
  pid : Nat
  pgid : Nat
  sid : Nat
  deriving DecidableEq

def fork (parent : Process) (pid : Nat) : Process := { parent with pid }

/-- `setsid()` by `t`, the other processes being `others`: it fails when a process group whose id
is the caller's pid exists, the caller's own included; otherwise the caller leads a new session
and a new group. -/
def setsid (others : List Process) (t : Process) : Option Process :=
  if (t :: others).any (·.pgid == t.pid) then none else some { t with pgid := t.pid, sid := t.pid }

/-- `setpgid(0, pgid)` by `t`: it fails for a session leader, and for a group other than the
caller's own pid that no process of the caller's session belongs to. -/
def setpgid (others : List Process) (t : Process) (pgid : Nat) : Option Process :=
  let g := if pgid = 0 then t.pid else pgid
  if t.sid = t.pid then none
  else if g ≠ t.pid ∧ !(t :: others).any (fun u => u.pgid == g && u.sid == t.sid) then none
  else some { t with pgid := g }

inductive GroupCall where
  | setsid
  | setpgid (pgid : Nat)

def GroupCall.run (others : List Process) (t : Process) : GroupCall → Process
  | .setsid => (Libminijail.setsid others t).getD t
  | .setpgid g => (Libminijail.setpgid others t g).getD t

def targetRun (t : Process) (calls : List (List Process × GroupCall)) : Process :=
  calls.foldl (fun t c => c.2.run c.1 t) t

def killGroup (tasks : List Process) (pgid : Nat) : List Process := tasks.filter (·.pgid == pgid)

def timeoutGroup (j : Minijail) (rootpid : Nat) : Option Nat :=
  if j.flags.timeLimit then some rootpid else none

def runPidPipesTarget (j : Minijail) (others : List Process) (caller : Process) (a b : Nat) :
    Option Process :=
  if j.flags.pids then setsid (caller :: fork caller a :: others) (fork (fork caller a) b)
  else setsid (caller :: others) (fork caller a)

def runStaticTarget (j : Minijail) (caller : Process) (a b : Nat) : Process :=
  if j.flags.pids then fork (fork caller a) b else fork caller a

def Process.Leader (t : Process) : Prop := t.pgid = t.pid ∧ t.sid = t.pid

section Leader

variable {t : Process} (others : List Process)

theorem setsid_of_leader (h : t.Leader) : setsid others t = none := by
  simp [setsid, h.1]

theorem setpgid_of_leader (h : t.Leader) (g : Nat) : setpgid others t g = none := by
  simp [setpgid, h.2]

theorem GroupCall.run_of_leader (h : t.Leader) (c : GroupCall) : c.run others t = t := by
  cases c <;> simp [GroupCall.run, setsid_of_leader _ h, setpgid_of_leader _ h]

theorem targetRun_of_leader (h : t.Leader) (calls : List (List Process × GroupCall)) :
    targetRun t calls = t := by
  induction calls with
  | nil => rfl
  | cons c cs ih => rw [targetRun, List.foldl_cons, GroupCall.run_of_leader _ h]; exact ih

end Leader

section Launch

variable {j : Minijail} {others : List Process} {caller : Process} {a b : Nat}

theorem runPidPipesTarget_eq (hp : j.flags.pids = true) (hb : ∀ u ∈ caller :: others, u.pgid ≠ b) :
    runPidPipesTarget j others caller a b = some ⟨b, b, b⟩ := by
  have hc := hb caller (List.mem_cons_self _ _)
  have ho : ∀ u ∈ others, u.pgid ≠ b := fun u hu => hb u (List.mem_cons_of_mem _ hu)
  simp only [runPidPipesTarget, hp, if_true, setsid, fork]
  rw [if_neg (by simpa [hc] using ho)]

theorem runStaticTarget_eq (hp : j.flags.pids = true) :
    runStaticTarget j caller a b = ⟨b, caller.pgid, caller.sid⟩ := by
  simp [runStaticTarget, hp, fork]

theorem killGroup_runStatic (hp : j.flags.pids = true) (hb : ∀ u ∈ caller :: others, u.pgid ≠ b) :
    killGroup (runStaticTarget j caller a b :: fork caller a :: caller :: others) b = [] := by
  have hc := hb caller (List.mem_cons_self _ _)
  simp only [killGroup, runStaticTarget_eq hp, fork, List.filter_eq_nil_iff, List.mem_cons,
    beq_iff_eq]
  rintro u (rfl | rfl | rfl | hu)
  exacts [hc, hc, hc, hb u (List.mem_cons_of_mem _ hu)]

end Launch

def pidsTimed : Minijail := minijailTimeLimit (minijailNamespacePids minijailNew) 1000

theorem built_pidsTimed : Built emptyMem [(.namespacePids, 0), (.timeLimit 1000, 0)] pidsTimed emptyMem :=
  ((@Built.new emptyMem).call (c := .namespacePids) (r := 0) rfl).call (c := .timeLimit 1000) (r := 0) rfl

def launcher : Process := ⟨100, 100, 100⟩

/-- Under `minijail_run_pid_pipes` with a pid namespace, the process that execs the target is in
the group its pid names from its `setsid` on, whatever it calls after `execve`, so `timeout`
reaches it. Under `minijail_run_static` it stays in its caller's group, and `kill(-child_pid,
SIGKILL)` reaches no process. -/
theorem timeout_reaches_target :
    (∀ j others caller a b calls, j.flags.pids = true → (∀ u ∈ caller :: others, u.pgid ≠ b) →
      ∃ t, runPidPipesTarget j others caller a b = some t ∧ t.pid = b ∧
        (targetRun t calls).pgid = b) ∧
    (∀ j caller a b, j.flags.pids = true →
      runStaticTarget j caller a b = ⟨b, caller.pgid, caller.sid⟩) ∧
    (∀ j others caller a b, j.flags.pids = true → (∀ u ∈ caller :: others, u.pgid ≠ b) →
      killGroup (runStaticTarget j caller a b :: fork caller a :: caller :: others) b = []) ∧
    Built emptyMem [(.namespacePids, 0), (.timeLimit 1000, 0)] pidsTimed emptyMem ∧
    pidsTimed.flags.pids = true ∧ timeoutGroup pidsTimed 201 = some 201 ∧
    runStaticTarget pidsTimed launcher 200 201 = ⟨201, 100, 100⟩ ∧
    killGroup [runStaticTarget pidsTimed launcher 200 201, fork launcher 200, launcher] 201 = [] :=
  ⟨fun _ _ _ _ b calls hp hb => ⟨_, runPidPipesTarget_eq hp hb, rfl,
      congrArg Process.pgid (targetRun_of_leader (t := ⟨b, b, b⟩) ⟨rfl, rfl⟩ calls)⟩,
    fun _ _ _ _ hp => runStaticTarget_eq hp, fun _ _ _ _ _ hp hb => killGroup_runStatic hp hb,
    built_pidsTimed, rfl, rfl, by decide, by decide⟩

end Libminijail
