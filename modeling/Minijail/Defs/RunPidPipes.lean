import Minijail.Defs.Descriptors
import Minijail.Defs.Pipe

/-! The caller's side of `minijail_run_pid_pipes`: the lines before the fork, and the parent path
after it. `kLdPreloadEnvVar`, `kFdEnvVar` and `PRELOADPATH` come from headers outside the sources:
the two variables are the fields of `Env`, and the library's path is a parameter. -/

namespace Libminijail

namespace Fds

def Grows (t t' : Fds) (E : List (Nat × Obj)) : Prop :=
  (∀ n, (∀ o, (n, o) ∉ E) → t'.get n = t.get n) ∧ ∀ n o, (n, o) ∈ E → t.get n = none ∧ t'.get n = some o

section Grows

variable {t t' t'' : Fds} {E E' : List (Nat × Obj)}

theorem Grows.refl (t : Fds) : t.Grows t [] := ⟨fun _ _ => rfl, fun _ _ h => absurd h (List.not_mem_nil _)⟩

theorem Grows.obj_eq (h : t.Grows t' E) {n : Nat} {o o' : Obj} (h₁ : (n, o) ∈ E) (h₂ : (n, o') ∈ E) : o = o' :=
  Option.some_injective _ ((h.2 n o h₁).2.symm.trans (h.2 n o' h₂).2)

theorem Grows.not_mem (h : t.Grows t' E) {n : Nat} {o : Obj} (hn : t.get n = some o) : ∀ o', (n, o') ∉ E :=
  fun o' ho' => by simp [(h.2 n o' ho').1] at hn

theorem Grows.free (h : t.Grows t' E) {n : Nat} (hn : t'.get n = none) : t.get n = none := by
  by_cases hE : ∀ o, (n, o) ∉ E
  · rw [← h.1 n hE, hn]
  · push_neg at hE
    obtain ⟨o, ho⟩ := hE
    simp [(h.2 n o ho).2] at hn

theorem Grows.trans (h : t.Grows t' E) (h' : t'.Grows t'' E') : t.Grows t'' (E ++ E') := by
  refine ⟨fun n hn => ?_, fun n o ho => ?_⟩
  · rw [h'.1 n fun o ho => hn o (List.mem_append_right _ ho), h.1 n fun o ho => hn o (List.mem_append_left _ ho)]
  · rcases List.mem_append.1 ho with ho | ho
    · exact ⟨(h.2 n o ho).1, by rw [h'.1 n (h'.not_mem (h.2 n o ho).2), (h.2 n o ho).2]⟩
    · exact ⟨h.free (h'.2 n o ho).1, (h'.2 n o ho).2⟩

theorem Grows.close (h : t.Grows t' E) (hE : (E.map Prod.snd).Nodup) {n : Nat} {o : Obj} (hn : (n, o) ∈ E) :
    t.Grows (t'.close n) (E.filter (·.2 != o)) := by
  refine ⟨fun m hm => ?_, fun m o' hm => ?_⟩
  · rw [Fds.close, get_set]
    split
    · subst m; exact (h.2 n o hn).1.symm
    · refine h.1 m fun o' ho' => ?_
      by_cases ho : o' = o
      · subst ho; exact ‹¬m = n› (Prod.mk.inj (List.inj_on_of_nodup_map hE ho' hn rfl)).1
      · exact hm o' (List.mem_filter.2 ⟨ho', by simpa using ho⟩)
  · obtain ⟨hm, hne⟩ := List.mem_filter.1 hm
    rw [Fds.close, get_set, if_neg]
    · exact h.2 m o' hm
    · rintro rfl; exact (by simpa using hne : o' ≠ o) (h.obj_eq hm hn)

theorem Grows.closeAll (h : t.Grows t' E) (hE : (E.map Prod.snd).Nodup) {C : List (Nat × Obj)}
    (hC : (C.map Prod.snd).Nodup) (hCE : ∀ x ∈ C, x ∈ E) :
    t.Grows (C.foldl (fun t x => t.close x.1) t') (E.filter fun x => x.2 ∉ C.map Prod.snd) := by
  induction C generalizing t' E with
  | nil => simpa using h
  | cons x C ih =>
    obtain ⟨hx, hC⟩ := List.nodup_cons.1 hC
    have g := h.close hE (hCE x (List.mem_cons_self _ _))
    have hCE' : ∀ y ∈ C, y ∈ E.filter (·.2 != x.2) := fun y hy =>
      List.mem_filter.2 ⟨hCE y (List.mem_cons_of_mem _ hy),
        by simpa using fun he : y.2 = x.2 => hx (he ▸ List.mem_map_of_mem _ hy)⟩
    rw [List.foldl_cons]
    convert ih g (hE.sublist ((List.filter_sublist E).map _)) hC hCE' using 1
    rw [List.filter_filter]
    congr 1
    funext y
    by_cases h₁ : y.2 = x.2 <;> by_cases h₂ : y.2 ∈ C.map Prod.snd <;> simp [h₁, h₂]

end Grows

theorem grows_alloc (t : Fds) (o : Obj) : t.Grows (t.alloc o).2 [((t.alloc o).1, o)] := by
  refine ⟨fun n hn => ?_, fun n o' h => ?_⟩
  · rw [alloc, get_set, if_neg]
    rintro rfl
    exact hn o (List.mem_singleton_self _)
  · obtain ⟨rfl, rfl⟩ := Prod.mk.inj (List.mem_singleton.1 h)
    exact ⟨t.get_lowestFree, t.get_alloc _⟩

theorem grows_pipe (t : Fds) (mk : Bool → Obj) :
    t.Grows (t.pipe mk).2 [((t.pipe mk).1.1, mk true), ((t.pipe mk).1.2, mk false)] :=
  (t.grows_alloc _).trans ((t.alloc _).2.grows_alloc _)

end Fds

structure Env where
  ldPreload : Option (List UInt8)
  fdVar : Option (List UInt8)
  deriving DecidableEq

inductive Site where
  | setenvPreload
  | setenvFd
  | setenvRestore
  | pipePolicy
  | pipeStdin
  | pipeStdout
  | pipeStderr
  deriving DecidableEq

/-- What the system answers the caller: which `setenv`s and `pipe`s succeed, what `malloc` and
`strdup` return, the pid `fork` (or `clone`) returns in the caller, and how many bytes each of
`minijail_to_fd`'s two `write`s takes. -/
structure Libc where
  ok : Site → Bool
  malloc : Malloc
  childPid : Int
  w₁ : Nat
  w₂ : Nat

inductive Out where
  | childPid
  | stdinFd
  | stdoutFd
  | stderrFd
  deriving DecidableEq

structure Caller where
  env : Env
  fds : Fds
  mem : Mem
  jail : Minijail
  out : Out → Option Int := fun _ => none

/-- How the call ends without returning to its caller: the process `die`s or faults, or, in the
child, goes on to jail itself and `execve`. -/
inductive Gone where
  | died
  | fault
  | child

abbrev Launch := EStateM Gone Caller

namespace Launch

variable (c : Libc)

def setenv (site : Site) (f : Env → Env) : Launch Unit :=
  modify fun s => if c.ok site then { s with env := f s.env } else s

def unsetenv (f : Env → Env) : Launch Unit := modify fun s => { s with env := f s.env }

def malloc : Launch (Option Addr) := fun s =>
  .ok ((s.mem.alloc c.malloc).1.map Subtype.val) { s with mem := (s.mem.alloc c.malloc).2 }

def free (a : Addr) : Launch Unit := modify fun s => { s with mem := s.mem.free a }

def pipe (site : Site) (mk : Bool → Obj) : Launch (Option (Nat × Nat)) := fun s =>
  if c.ok site then .ok (some (s.fds.pipe mk).1) { s with fds := (s.fds.pipe mk).2 } else .ok none s

def close (n : Nat) : Launch Unit := modify fun s => { s with fds := s.fds.close n }

def store (p : Out) (v : Int) : Launch Unit := modify fun s => { s with out := Function.update s.out p (some v) }

def toFd : Launch Int := fun s =>
  match minijailToFd s.jail s.mem c.malloc c.w₁ c.w₂ with
  | (some (ret, _), mem) => .ok ret { s with mem }
  | (none, mem) => .error .fault { s with mem }

end Launch

def decimal (n : Nat) : List UInt8 := (Nat.toDigits 10 n).map fun ch => ch.toNat.toUInt8

def preloadValue (oldenv preloadPath : List UInt8) : List UInt8 :=
  oldenv ++ (if oldenv.length ≠ 0 then [32] else []) ++ preloadPath

def pipeEnds (p : Nat × Nat) (mk : Bool → Obj) : List (Nat × Obj) := [(p.1, mk true), (p.2, mk false)]

def setupEnds (p : PipeFds) (pstdin pstdout pstderr : Bool) : List (Nat × Obj) :=
  pipeEnds p.pipeFds .policyPipe ++ (if pstdin then pipeEnds p.stdinFds .stdinPipe else []) ++
    (if pstdout then pipeEnds p.stdoutFds .stdoutPipe else []) ++
    (if pstderr then pipeEnds p.stderrFds .stderrPipe else [])

section Calls

variable (c : Libc) (preloadPath : List UInt8)

def setupPreload : Launch Int := do
  let oldenv := (← get).env.ldPreload.getD []
  let some newenv ← Launch.malloc c | return -ENOMEM
  Launch.setenv c .setenvPreload fun e => { e with ldPreload := some (preloadValue oldenv preloadPath) }
  Launch.free newenv
  return 0

def setupPipe : Launch (Int × (Nat × Nat)) := do
  let some fds ← Launch.pipe c .pipePolicy .policyPipe | return (-1, (0, 0))
  if (decimal fds.1).length = 0 then return (-EINVAL, fds)
  Launch.setenv c .setenvFd fun e => { e with fdVar := some (decimal fds.1) }
  return (0, fds)

def setupPipeEnd (fds : Nat × Nat) (index : Nat) : Launch Int := do
  if index > 1 then return -1
  Launch.close (pipeEnd fds (1 - index))
  return pipeEnd fds index

def pipeIfAsked (want : Bool) (site : Site) (mk : Bool → Obj) : Launch (Option (Nat × Nat)) :=
  if want then Launch.pipe c site mk else pure (some (0, 0))

def saveOldenv : Launch (Option (Option (Addr × List UInt8))) := do
  match (← get).env.ldPreload with
  | none => pure (some none)
  | some text => pure ((← Launch.malloc c).map fun a => some (a, text))

structure Setup where
  oldenvCopy : Option (Addr × List UInt8)
  pipes : PipeFds

/-- The lines of `minijail_run_pid_pipes` before the fork; `.inl r` for a `return r`. -/
def runPidPipesSetup (pstdin pstdout pstderr : Bool) : Launch (Int ⊕ Setup) := do
  let some oldenvCopy ← saveOldenv c | return .inl (-ENOMEM)
  if (← setupPreload c preloadPath) ≠ 0 then return .inl (-EFAULT)
  let (r, pipeFds) ← setupPipe c
  if r ≠ 0 then return .inl (-EFAULT)
  let some stdinFds ← pipeIfAsked c pstdin .pipeStdin .stdinPipe | return .inl (-EFAULT)
  let some stdoutFds ← pipeIfAsked c pstdout .pipeStdout .stdoutPipe | return .inl (-EFAULT)
  let some stderrFds ← pipeIfAsked c pstderr .pipeStderr .stderrPipe | return .inl (-EFAULT)
  return .inr ⟨oldenvCopy, ⟨pipeFds, stdinFds, stdoutFds, stderrFds⟩⟩

def restorePreload (copy : Option (Addr × List UInt8)) : Launch Unit :=
  match copy with
  | some (a, text) => do
    Launch.setenv c .setenvRestore fun e => { e with ldPreload := some text }
    Launch.free a
  | none => Launch.unsetenv fun e => { e with ldPreload := none }

def dieIfFailed (ret : Int) : Launch Unit := if ret ≠ 0 then throw .died else pure ()

def storeIfAsked (want : Bool) (p : Out) (v : Int) : Launch Unit := if want then Launch.store p v else pure ()

def pipeEndIfAsked (want : Bool) (fds : Nat × Nat) (index : Nat) (p : Out) : Launch Unit :=
  if want then do let r ← setupPipeEnd fds index; Launch.store p r else pure ()

def runPidPipesParent (st : Setup) (childPid : Int) (pchild pstdin pstdout pstderr : Bool) :
    Launch Int := do
  restorePreload c st.oldenvCopy
  Launch.unsetenv fun e => { e with fdVar := none }
  modify fun s => { s with jail := { s.jail with initpid := BitVec.ofInt 32 childPid } }
  Launch.close st.pipes.pipeFds.1
  let ret ← Launch.toFd c
  Launch.close st.pipes.pipeFds.2
  dieIfFailed ret
  storeIfAsked pchild .childPid childPid
  pipeEndIfAsked pstdin st.pipes.stdinFds 1 .stdinFd
  pipeEndIfAsked pstdout st.pipes.stdoutFds 0 .stdoutFd
  pipeEndIfAsked pstderr st.pipes.stderrFds 0 .stderrFd
  return 0

def minijailRunPidPipes (pchild pstdin pstdout pstderr : Bool) : Launch Int := do
  match ← runPidPipesSetup c preloadPath pstdin pstdout pstderr with
  | .inl r => pure r
  | .inr st =>
    if c.childPid < 0 then do
      Launch.free ((st.oldenvCopy.map Prod.fst).getD 0)
      throw .died
    else if c.childPid = 0 then throw .child
    else runPidPipesParent c st c.childPid pchild pstdin pstdout pstderr

end Calls

namespace Launch

variable {c : Libc} {α β : Type}

theorem bind_ok {x : Launch α} {f : α → Launch β} {s s₁ : Caller} {a : α} (h : x s = .ok a s₁) :
    (x >>= f) s = f a s₁ := by
  simp only [bind, EStateM.bind, h]

@[simp] theorem setenv_run (site : Site) (f : Env → Env) (s : Caller) :
    setenv c site f s = .ok () (if c.ok site then { s with env := f s.env } else s) := rfl

@[simp] theorem unsetenv_run (f : Env → Env) (s : Caller) :
    unsetenv f s = .ok () { s with env := f s.env } := rfl

@[simp] theorem malloc_run (s : Caller) :
    malloc c s = .ok ((s.mem.alloc c.malloc).1.map Subtype.val) { s with mem := (s.mem.alloc c.malloc).2 } := rfl

@[simp] theorem free_run (a : Addr) (s : Caller) : free a s = .ok () { s with mem := s.mem.free a } := rfl

@[simp] theorem close_run (n : Nat) (s : Caller) : close n s = .ok () { s with fds := s.fds.close n } := rfl

theorem bind_eq_ok {x : Launch α} {f : α → Launch β} {s s' : Caller} {b : β} (h : (x >>= f) s = .ok b s') :
    ∃ a s₁, x s = .ok a s₁ ∧ f a s₁ = .ok b s' := by
  simp only [bind, EStateM.bind] at h
  split at h
  · exact ⟨_, _, ‹_›, h⟩
  · cases h

theorem toFd_frame {s s₁ : Caller} {ret : Int} (h : toFd c s = .ok ret s₁) :
    s₁.env = s.env ∧ s₁.fds = s.fds := by
  unfold toFd at h
  split at h <;> cases h
  exact ⟨rfl, rfl⟩

theorem pipe_run (site : Site) (mk : Bool → Obj) (s : Caller) :
    pipe c site mk s =
      if c.ok site then .ok (some (s.fds.pipe mk).1) { s with fds := (s.fds.pipe mk).2 } else .ok none s := rfl

end Launch

def Env.preloaded (c : Libc) (preloadPath : List UInt8) (e : Env) : Env :=
  if c.ok .setenvPreload then { e with ldPreload := some (preloadValue (e.ldPreload.getD []) preloadPath) } else e

def Env.piped (c : Libc) (n : Nat) (e : Env) : Env :=
  if c.ok .setenvFd then { e with fdVar := some (decimal n) } else e

section Specs

variable (c : Libc) (preloadPath : List UInt8)

theorem setupPreload_spec (s : Caller) :
    ∃ r s₁, setupPreload c preloadPath s = .ok r s₁ ∧ s₁.fds = s.fds ∧
      ((r = -ENOMEM ∧ s₁.env = s.env) ∨ (r = 0 ∧ s₁.env = s.env.preloaded c preloadPath)) := by
  rcases h : (s.mem.alloc c.malloc).1 with _ | a <;>
    simp only [setupPreload, bind, EStateM.bind, get, getThe, MonadStateOf.get, EStateM.get, Launch.malloc_run, h,
      Option.map_none', Option.map_some', Launch.setenv_run, Launch.free_run, pure, EStateM.pure]
  · exact ⟨_, _, rfl, rfl, .inl ⟨rfl, rfl⟩⟩
  · unfold Env.preloaded
    split <;> exact ⟨_, _, rfl, rfl, .inr ⟨rfl, rfl⟩⟩

theorem toDigitsCore_succ_ne_nil (b fuel n : Nat) (ds : List Char) : Nat.toDigitsCore b (fuel + 1) n ds ≠ [] := by
  induction fuel generalizing n ds with
  | zero =>
    show (if n / b = 0 then _ else Nat.toDigitsCore b 0 (n / b) (Nat.digitChar (n % b) :: ds)) ≠ []
    split <;> exact List.cons_ne_nil _ _
  | succ fuel ih =>
    show (if n / b = 0 then _ else Nat.toDigitsCore b (fuel + 1) (n / b) (Nat.digitChar (n % b) :: ds)) ≠ []
    split
    · exact List.cons_ne_nil _ _
    · exact ih _ _

theorem length_decimal_ne_zero (n : Nat) : (decimal n).length ≠ 0 := by
  rw [decimal, List.length_map, Ne, List.length_eq_zero]
  exact toDigitsCore_succ_ne_nil 10 n n []

theorem saveOldenv_spec (s : Caller) :
    ∃ x s₁, saveOldenv c s = .ok x s₁ ∧ s₁.env = s.env ∧ s₁.fds = s.fds ∧
      ∀ copy, x = some copy → copy.map Prod.snd = s.env.ldPreload := by
  rcases hl : s.env.ldPreload with _ | text
  · exact ⟨_, _, by simp only [saveOldenv, bind, EStateM.bind, get, getThe, MonadStateOf.get, EStateM.get, hl]; rfl,
      rfl, rfl, by rintro _ ⟨⟩; rfl⟩
  · rcases h : (s.mem.alloc c.malloc).1 with _ | a <;>
      simp only [saveOldenv, bind, EStateM.bind, get, getThe, MonadStateOf.get, EStateM.get, hl, Launch.malloc_run,
        h, Option.map_none', Option.map_some', pure, EStateM.pure]
    · exact ⟨_, _, rfl, rfl, rfl, by rintro _ ⟨⟩⟩
    · exact ⟨_, _, rfl, rfl, rfl, by rintro _ ⟨⟩; rfl⟩

theorem setupPipe_spec (s : Caller) :
    ∃ r p s₁, setupPipe c s = .ok (r, p) s₁ ∧
      ((r = -1 ∧ s₁ = s ∧ c.ok .pipePolicy = false) ∨
        (r = 0 ∧ s₁.env = s.env.piped c p.1 ∧ s.fds.Grows s₁.fds (pipeEnds p .policyPipe))) := by
  cases h : c.ok .pipePolicy
  · have hr : setupPipe c s = .ok (-1, (0, 0)) s := by
      simp only [setupPipe, bind, EStateM.bind, Launch.pipe_run, h, if_false, Bool.false_eq_true]; rfl
    exact ⟨_, _, _, hr, .inl ⟨rfl, rfl, rfl⟩⟩
  · have hr : setupPipe c s = .ok (0, (s.fds.pipe .policyPipe).1)
        { s with env := s.env.piped c (s.fds.pipe .policyPipe).1.1, fds := (s.fds.pipe .policyPipe).2 } := by
      simp only [setupPipe, bind, EStateM.bind, Launch.pipe_run, h, if_true, length_decimal_ne_zero, if_false,
        Launch.setenv_run, pure, EStateM.pure, Env.piped]
      split <;> rfl
    exact ⟨_, _, _, hr, .inr ⟨rfl, rfl, s.fds.grows_pipe _⟩⟩

theorem pipeIfAsked_spec (want : Bool) (site : Site) (mk : Bool → Obj) (s : Caller) :
    ∃ x s₁, pipeIfAsked c want site mk s = .ok x s₁ ∧ s₁.env = s.env ∧
      ((x = none ∧ s₁ = s) ∨ ∃ p, x = some p ∧ s.fds.Grows s₁.fds (if want then pipeEnds p mk else [])) := by
  cases want
  · exact ⟨_, _, rfl, rfl, .inr ⟨_, rfl, Fds.Grows.refl _⟩⟩
  · cases h : c.ok site
    · exact ⟨none, s, by simp only [pipeIfAsked, if_true, Launch.pipe_run, h, if_false, Bool.false_eq_true],
        rfl, .inl ⟨rfl, rfl⟩⟩
    · exact ⟨_, { s with fds := (s.fds.pipe mk).2 }, by simp only [pipeIfAsked, if_true, Launch.pipe_run, h], rfl,
        .inr ⟨_, rfl, s.fds.grows_pipe _⟩⟩

/-- Where an early `return` before the fork leaves the caller: its environment and table as they
were (`strdup` or `setup_preload`'s `malloc` failed); `LD_PRELOAD` extended (the policy pipe
failed); or `kFdEnvVar` set too, and the policy pipe open with the stdio pipes made before the one
that failed. -/
def EarlyEnd (s s₁ : Caller) : Prop :=
  (s₁.env = s.env ∧ s₁.fds = s.fds) ∨
  (s₁.env = s.env.preloaded c preloadPath ∧ s₁.fds = s.fds ∧ c.ok .pipePolicy = false) ∨
  ∃ p E, s₁.env = (s.env.preloaded c preloadPath).piped c p.1 ∧ s.fds.Grows s₁.fds (pipeEnds p .policyPipe ++ E)

structure SetupDone (pstdin pstdout pstderr : Bool) (s : Caller) (st : Setup) (s₁ : Caller) : Prop where
  env : s₁.env = (s.env.preloaded c preloadPath).piped c st.pipes.pipeFds.1
  copy : st.oldenvCopy.map Prod.snd = s.env.ldPreload
  fds : s.fds.Grows s₁.fds (setupEnds st.pipes pstdin pstdout pstderr)

theorem runPidPipesSetup_spec (pstdin pstdout pstderr : Bool) (s : Caller) :
    (∃ r s₁, runPidPipesSetup c preloadPath pstdin pstdout pstderr s = .ok (.inl r) s₁ ∧
      (r = -ENOMEM ∨ r = -EFAULT) ∧ EarlyEnd c preloadPath s s₁) ∨
    ∃ st s₁, runPidPipesSetup c preloadPath pstdin pstdout pstderr s = .ok (.inr st) s₁ ∧
      SetupDone c preloadPath pstdin pstdout pstderr s st s₁ := by
  obtain ⟨x₀, s₀, h₀, e₀, f₀, c₀⟩ := saveOldenv_spec c s
  rw [runPidPipesSetup, Launch.bind_ok h₀]
  rcases x₀ with _ | copy
  · exact .inl ⟨_, _, rfl, .inl rfl, .inl ⟨e₀, f₀⟩⟩
  obtain ⟨r₁, s₁, h₁, f₁, ⟨rfl, e₁⟩ | ⟨rfl, e₁⟩⟩ := setupPreload_spec c preloadPath s₀
  · dsimp only
    rw [Launch.bind_ok h₁, if_pos (by decide)]
    exact .inl ⟨_, _, rfl, .inr rfl, .inl ⟨e₁.trans e₀, f₁.trans f₀⟩⟩
  dsimp only
  rw [Launch.bind_ok h₁, if_neg (by decide), pure_bind]
  have e₁ : s₁.env = s.env.preloaded c preloadPath := e₀ ▸ e₁
  obtain ⟨r₂, p, s₂, h₂, ⟨rfl, rfl, hp⟩ | ⟨rfl, e₂, g₂⟩⟩ := setupPipe_spec c s₁
  · rw [Launch.bind_ok h₂, if_pos (show (-1 : Int) ≠ 0 by decide)]
    exact .inl ⟨_, _, rfl, .inr rfl, .inr (.inl ⟨e₁, f₁.trans f₀, hp⟩)⟩
  rw [Launch.bind_ok h₂]
  dsimp only
  rw [if_neg (show ¬(0 : Int) ≠ 0 by decide), pure_bind]
  rw [f₁, f₀] at g₂
  obtain ⟨x₃, s₃, h₃, e₃, ⟨rfl, rfl⟩ | ⟨q₃, rfl, g₃⟩⟩ := pipeIfAsked_spec c pstdin .pipeStdin .stdinPipe s₂
  · rw [Launch.bind_ok h₃]
    exact .inl ⟨_, _, rfl, .inr rfl, .inr (.inr ⟨p, [], by rw [e₂, e₁], by rwa [List.append_nil]⟩)⟩
  rw [Launch.bind_ok h₃]
  dsimp only
  obtain ⟨x₄, s₄, h₄, e₄, ⟨rfl, rfl⟩ | ⟨q₄, rfl, g₄⟩⟩ := pipeIfAsked_spec c pstdout .pipeStdout .stdoutPipe s₃
  · rw [Launch.bind_ok h₄]
    exact .inl ⟨_, _, rfl, .inr rfl, .inr (.inr ⟨p, _, by rw [e₃, e₂, e₁], g₂.trans g₃⟩)⟩
  rw [Launch.bind_ok h₄]
  dsimp only
  obtain ⟨x₅, s₅, h₅, e₅, ⟨rfl, rfl⟩ | ⟨q₅, rfl, g₅⟩⟩ := pipeIfAsked_spec c pstderr .pipeStderr .stderrPipe s₄
  · rw [Launch.bind_ok h₅]
    exact .inl ⟨_, _, rfl, .inr rfl, .inr (.inr ⟨p, _, by rw [e₄, e₃, e₂, e₁],
      by rw [← List.append_assoc]; exact (g₂.trans g₃).trans g₄⟩)⟩
  rw [Launch.bind_ok h₅]
  exact .inr ⟨_, _, rfl, ⟨by rw [e₅, e₄, e₃, e₂, e₁], c₀ _ rfl, ((g₂.trans g₃).trans g₄).trans g₅⟩⟩

def restoredPreload (copy : Option (Addr × List UInt8)) (cur : Option (List UInt8)) : Option (List UInt8) :=
  match copy with
  | some (_, text) => if c.ok .setenvRestore then some text else cur
  | none => none

def parentFds (t : Fds) (p : PipeFds) (pstdin pstdout pstderr : Bool) : Fds :=
  let t := (t.close p.pipeFds.1).close p.pipeFds.2
  let t := if pstdin then t.close p.stdinFds.1 else t
  let t := if pstdout then t.close p.stdoutFds.2 else t
  if pstderr then t.close p.stderrFds.2 else t

theorem dieIfFailed_ok {ret : Int} {s s' : Caller} {u : Unit} (h : dieIfFailed ret s = .ok u s') :
    ret = 0 ∧ s' = s := by
  unfold dieIfFailed at h
  split at h
  · cases h
  · cases h
    exact ⟨not_not.1 ‹_›, rfl⟩

theorem storeIfAsked_frame {want : Bool} {p : Out} {v : Int} {s s' : Caller} {u : Unit}
    (h : storeIfAsked want p v s = .ok u s') : s'.env = s.env ∧ s'.fds = s.fds := by
  unfold storeIfAsked at h
  split at h <;> cases h <;> exact ⟨rfl, rfl⟩

theorem pipeEndIfAsked_frame {want : Bool} {fds : Nat × Nat} {index : Nat} {p : Out} {s s' : Caller} {u : Unit}
    (hi : index ≤ 1) (h : pipeEndIfAsked want fds index p s = .ok u s') :
    s'.env = s.env ∧ s'.fds = (if want then s.fds.close (pipeEnd fds (1 - index)) else s.fds) ∧
      (∀ q, q ≠ p → s'.out q = s.out q) ∧ (want = true → s'.out p = some (pipeEnd fds index)) := by
  cases want
  · cases h; exact ⟨rfl, rfl, fun _ _ => rfl, nofun⟩
  · simp only [pipeEndIfAsked, setupPipeEnd, if_true, if_neg (show ¬index > 1 by omega), bind, EStateM.bind,
      Launch.close_run, pure, EStateM.pure, Launch.store, modify, modifyGet, MonadStateOf.modifyGet,
      EStateM.modifyGet] at h
    cases h
    exact ⟨rfl, rfl, fun q hq => Function.update_noteq hq _ _, fun _ => Function.update_same _ _ _⟩

theorem restorePreload_frame {copy : Option (Addr × List UInt8)} {s s₂ : Caller} {u : Unit}
    (h : restorePreload c copy s = .ok u s₂) :
    s₂.env = ⟨restoredPreload c copy s.env.ldPreload, s.env.fdVar⟩ ∧ s₂.fds = s.fds := by
  rcases copy with _ | ⟨a, text⟩
  · cases h; exact ⟨rfl, rfl⟩
  · obtain ⟨_, s', h₁, h₂⟩ := Launch.bind_eq_ok h
    simp only [Launch.setenv_run] at h₁
    cases h₁; cases h₂
    unfold restoredPreload
    split <;> exact ⟨rfl, rfl⟩

def returnedEnds (p : PipeFds) (pstdin pstdout pstderr : Bool) : List (Nat × Obj) :=
  (if pstdin then [(p.stdinFds.2, .stdinPipe false)] else []) ++
    (if pstdout then [(p.stdoutFds.1, .stdoutPipe true)] else []) ++
    (if pstderr then [(p.stderrFds.1, .stderrPipe true)] else [])

def closedEnds (p : PipeFds) (pstdin pstdout pstderr : Bool) : List (Nat × Obj) :=
  pipeEnds p.pipeFds .policyPipe ++ (if pstdin then [(p.stdinFds.1, .stdinPipe true)] else []) ++
    (if pstdout then [(p.stdoutFds.2, .stdoutPipe false)] else []) ++
    (if pstderr then [(p.stderrFds.2, .stderrPipe false)] else [])

theorem closedEnds_sublist (p : PipeFds) (pstdin pstdout pstderr : Bool) :
    List.Sublist (closedEnds p pstdin pstdout pstderr) (setupEnds p pstdin pstdout pstderr) := by
  have first (want : Bool) (a b : Nat × Obj) :
      List.Sublist (if want then [a] else []) (if want then [a, b] else []) := by
    cases want
    · exact .slnil
    · exact .cons₂ a (List.nil_sublist _)
  have second (want : Bool) (a b : Nat × Obj) :
      List.Sublist (if want then [b] else []) (if want then [a, b] else []) := by
    cases want
    · exact .slnil
    · exact (List.Sublist.refl [b]).cons a
  exact (((List.Sublist.refl _).append (first ..)).append (second ..)).append (second ..)

theorem parentFds_eq (t : Fds) (p : PipeFds) (pstdin pstdout pstderr : Bool) :
    parentFds t p pstdin pstdout pstderr = (closedEnds p pstdin pstdout pstderr).foldl (fun t x => t.close x.1) t := by
  cases pstdin <;> cases pstdout <;> cases pstderr <;> rfl

theorem filter_setupEnds (p : PipeFds) (pstdin pstdout pstderr : Bool) :
    (setupEnds p pstdin pstdout pstderr).filter (fun x => x.2 ∉ (closedEnds p pstdin pstdout pstderr).map Prod.snd) =
      returnedEnds p pstdin pstdout pstderr := by
  cases pstdin <;> cases pstdout <;> cases pstderr <;> rfl

theorem grows_parentFds {t t₁ : Fds} {p : PipeFds} {pstdin pstdout pstderr : Bool}
    (h : t.Grows t₁ (setupEnds p pstdin pstdout pstderr)) :
    t.Grows (parentFds t₁ p pstdin pstdout pstderr) (returnedEnds p pstdin pstdout pstderr) := by
  have hE : ((setupEnds p pstdin pstdout pstderr).map Prod.snd).Nodup := by
    cases pstdin <;> cases pstdout <;> cases pstderr <;> simp [setupEnds, pipeEnds]
  have hs := closedEnds_sublist p pstdin pstdout pstderr
  rw [parentFds_eq, ← filter_setupEnds]
  exact h.closeAll hE (hE.sublist (hs.map _)) fun _ hx => hs.subset hx

theorem runPidPipesParent_ok {st : Setup} {childPid : Int} {pchild pstdin pstdout pstderr : Bool} {s₁ s' : Caller}
    {r : Int} (h : runPidPipesParent c st childPid pchild pstdin pstdout pstderr s₁ = .ok r s') :
    r = 0 ∧ s'.env = ⟨restoredPreload c st.oldenvCopy s₁.env.ldPreload, none⟩ ∧
      s'.fds = parentFds s₁.fds st.pipes pstdin pstdout pstderr ∧
      (pstdin = true → s'.out .stdinFd = some st.pipes.stdinFds.2) ∧
      (pstdout = true → s'.out .stdoutFd = some st.pipes.stdoutFds.1) ∧
      (pstderr = true → s'.out .stderrFd = some st.pipes.stderrFds.1) := by
  rw [runPidPipesParent] at h
  obtain ⟨_, s₂, h₁, h⟩ := Launch.bind_eq_ok h
  obtain ⟨_, s₃, h₂, h⟩ := Launch.bind_eq_ok h
  obtain ⟨_, s₄, h₃, h⟩ := Launch.bind_eq_ok h
  obtain ⟨_, s₅, h₄, h⟩ := Launch.bind_eq_ok h
  obtain ⟨ret, s₆, h₅, h⟩ := Launch.bind_eq_ok h
  obtain ⟨_, s₇, h₆, h⟩ := Launch.bind_eq_ok h
  obtain ⟨_, s₈, h₇, h⟩ := Launch.bind_eq_ok h
  obtain ⟨_, s₉, h₈, h⟩ := Launch.bind_eq_ok h
  obtain ⟨_, s₁₀, h₉, h⟩ := Launch.bind_eq_ok h
  obtain ⟨_, s₁₁, h₁₀, h⟩ := Launch.bind_eq_ok h
  obtain ⟨_, s₁₂, h₁₁, h⟩ := Launch.bind_eq_ok h
  cases h
  obtain ⟨e₁, f₁⟩ := restorePreload_frame c h₁
  simp only [Launch.unsetenv_run, Launch.close_run, modify, modifyGet, MonadStateOf.modifyGet,
    EStateM.modifyGet] at h₂ h₃ h₄ h₆
  cases h₂; cases h₃; cases h₄; cases h₆
  obtain ⟨e₅, f₅⟩ := Launch.toFd_frame h₅
  obtain ⟨-, rfl⟩ := dieIfFailed_ok h₇
  obtain ⟨e₈, f₈⟩ := storeIfAsked_frame h₈
  obtain ⟨e₉, f₉, o₉⟩ := pipeEndIfAsked_frame le_rfl h₉
  obtain ⟨e₁₀, f₁₀, o₁₀⟩ := pipeEndIfAsked_frame (Nat.zero_le 1) h₁₀
  obtain ⟨e₁₁, f₁₁, o₁₁⟩ := pipeEndIfAsked_frame (Nat.zero_le 1) h₁₁
  refine ⟨rfl, by rw [e₁₁, e₁₀, e₉, e₈, e₅, e₁], by rw [f₁₁, f₁₀, f₉, f₈, f₅, f₁]; rfl,
    fun hi => ?_, fun ho => ?_, fun he => ?_⟩
  · rw [o₁₁.1 _ (by decide), o₁₀.1 _ (by decide), o₉.2 hi]; rfl
  · rw [o₁₁.1 _ (by decide), o₁₀.2 ho]; rfl
  · rw [o₁₁.2 he]; rfl

theorem restoredPreload_eq {copy : Option (Addr × List UInt8)} {orig cur : Option (List UInt8)}
    (hc : copy.map Prod.snd = orig) (h : orig = none ∨ c.ok .setenvRestore = true) :
    restoredPreload c copy cur = orig := by
  rcases copy with _ | ⟨a, text⟩
  · exact hc
  · subst hc
    rw [restoredPreload, if_pos (h.resolve_left (Option.some_ne_none _))]
    rfl

theorem minijailRunPidPipes_returns {pchild pstdin pstdout pstderr : Bool} {s s' : Caller} {r : Int}
    (h : minijailRunPidPipes c preloadPath pchild pstdin pstdout pstderr s = .ok r s') :
    ((r = -ENOMEM ∨ r = -EFAULT) ∧ EarlyEnd c preloadPath s s') ∨
    (r = 0 ∧ s'.env.fdVar = none ∧
      ((s.env.ldPreload = none ∨ c.ok .setenvRestore = true) → s'.env.ldPreload = s.env.ldPreload) ∧
      ∃ p : PipeFds, s.fds.Grows s'.fds (returnedEnds p pstdin pstdout pstderr) ∧
        (pstdin = true → s'.out .stdinFd = some p.stdinFds.2) ∧
        (pstdout = true → s'.out .stdoutFd = some p.stdoutFds.1) ∧
        (pstderr = true → s'.out .stderrFd = some p.stderrFds.1)) := by
  rw [minijailRunPidPipes] at h
  rcases runPidPipesSetup_spec c preloadPath pstdin pstdout pstderr s with ⟨r₀, s₁, hs, hr, he⟩ | ⟨st, s₁, hs, hd⟩
  · rw [Launch.bind_ok hs] at h
    cases h
    exact .inl ⟨hr, he⟩
  rw [Launch.bind_ok hs] at h
  dsimp only at h
  split_ifs at h
  · obtain ⟨_, _, -, h⟩ := Launch.bind_eq_ok h
    cases h
  · cases h
  obtain ⟨rfl, henv, hfds, hi, ho, he⟩ := runPidPipesParent_ok c h
  refine .inr ⟨rfl, by rw [henv], fun hl => by rw [henv]; exact restoredPreload_eq c hd.copy hl, st.pipes,
    hfds ▸ grows_parentFds hd.fds, hi, ho, he⟩

theorem preloaded_ne (e : Env) (hok : c.ok .setenvPreload = true) (hp : preloadPath ≠ []) :
    (e.preloaded c preloadPath).ldPreload ≠ e.ldPreload := by
  rw [Env.preloaded, if_pos hok]
  intro h
  cases hl : e.ldPreload with
  | none => simp [hl] at h
  | some v =>
    simp only [hl, Option.getD_some, Option.some.injEq] at h
    have := congrArg List.length h
    simp only [preloadValue, List.length_append] at this
    exact hp (List.length_eq_zero.1 (by omega))

end Specs

def preloadLib : List UInt8 := [47, 112, 46, 115, 111]

def allSucceed : Libc := ⟨fun _ => true, bumpMalloc, 100, sizeofSizeT, 1000⟩

def stdinPipeFails : Libc := { allSucceed with ok := fun site => site != .pipeStdin }

def plainCaller (fdVar : Option (List UInt8)) : Caller := ⟨⟨none, fdVar⟩, callerFds, emptyMem, minijailNew, fun _ => none⟩

def returnsWith (r : Int) (P : Caller → Bool) : EStateM.Result Gone Caller Int → Bool
  | .ok r' s => r' == r && P s
  | .error _ _ => false

theorem exists_ok_of_returnsWith {x : EStateM.Result Gone Caller Int} {r : Int} {P : Caller → Bool}
    (h : returnsWith r P x = true) : ∃ s, x = .ok r s ∧ P s = true := by
  rcases x with ⟨r', s⟩ | ⟨e, s⟩
  · simp only [returnsWith, Bool.and_eq_true, beq_iff_eq] at h
    exact ⟨s, by rw [h.1], h.2⟩
  · cases h

theorem allSucceed_returns :
    returnsWith 0 (fun s => s.env == ⟨none, none⟩)
      (minijailRunPidPipes allSucceed preloadLib false true false false (plainCaller (some [55]))) = true := by
  decide

theorem launch_restores_caller :
    (∀ (c : Libc) (preloadPath : List UInt8) (pchild pstdin pstdout pstderr : Bool) (s s' : Caller) (r : Int),
      minijailRunPidPipes c preloadPath pchild pstdin pstdout pstderr s = .ok r s' →
        ((r = -ENOMEM ∨ r = -EFAULT) ∧ EarlyEnd c preloadPath s s') ∨
        (r = 0 ∧ s'.env.fdVar = none ∧
          ((s.env.ldPreload = none ∨ c.ok .setenvRestore = true) → s'.env.ldPreload = s.env.ldPreload) ∧
          ∃ p : PipeFds, s.fds.Grows s'.fds (returnedEnds p pstdin pstdout pstderr) ∧
            (pstdin = true → s'.out .stdinFd = some p.stdinFds.2) ∧
            (pstdout = true → s'.out .stdoutFd = some p.stdoutFds.1) ∧
            (pstderr = true → s'.out .stderrFd = some p.stderrFds.1))) ∧
    (∀ (c : Libc) (preloadPath : List UInt8) (e : Env), c.ok .setenvPreload = true → preloadPath ≠ [] →
      (e.preloaded c preloadPath).ldPreload ≠ e.ldPreload) ∧
    (∃ s', minijailRunPidPipes stdinPipeFails preloadLib false true false false (plainCaller none) = .ok (-EFAULT) s' ∧
      s'.env = ⟨some preloadLib, some (decimal 4)⟩ ∧ callerFds.get 4 = none ∧ callerFds.get 5 = none ∧
      s'.fds.get 4 = some (.policyPipe true) ∧ s'.fds.get 5 = some (.policyPipe false)) ∧
    (∃ s', minijailRunPidPipes allSucceed preloadLib false true false false (plainCaller (some [55])) = .ok 0 s' ∧
      s'.env = ⟨none, none⟩) := by
  refine ⟨fun c preloadPath _ _ _ _ _ _ _ h => minijailRunPidPipes_returns c preloadPath h,
    fun c preloadPath e => preloaded_ne c preloadPath e, ⟨_, rfl, rfl, rfl, rfl, rfl, rfl⟩, ?_⟩
  obtain ⟨s', h, he⟩ := exists_ok_of_returnsWith allSucceed_returns
  exact ⟨s', h, beq_iff_eq.1 he⟩

end Libminijail
