import Minijail.Defs.Policy

/-! `minijail_enter` and the helpers it calls, as the calls they issue. Every call the jail-entry
code makes of the kernel or of libc, and whose result it can see, is recorded in order; the world
decides, call by call, whether it succeeds. The launch paths run `minijail_enter` on a policy
that `minijail_preexec` or `minijail_preenter` has stripped, and the child of
`minijail_run_pid_pipes` enters its chroot itself. -/

namespace Libminijail

inductive CapFlag where
  | effective
  | permitted
  | inheritable
  deriving DecidableEq

inductive Sys where
  | unshareNs
  | unshareNet
  /-- The allocation `asprintf` makes for a path. -/
  | asprintf
  | bindMount (src dest : List UInt8)
  | bindRemountRo (src dest : List UInt8)
  | chroot (dir : List UInt8)
  | chdir (dir : List UInt8)
  | mountTmp
  | umountBinfmt
  | umountProc
  | mountProc (path : List UInt8)
  | keepCaps
  | secureBits
  | initgroups (user : List UInt8) (gid : BitVec 32)
  | setgroups
  | setresgid (gid : BitVec 32)
  | setresuid (uid : BitVec 32)
  | capGetProc
  | capClearFlag (flag : CapFlag)
  | capSetFlag (flag : CapFlag) (cap : Nat) (raise : Bool)
  | capSetProc
  | fopenCapLastCap
  | fscanfCapLastCap
  | fcloseCapLastCap
  | capbsetDrop (cap : Nat)
  | noNewPrivs
  | sigsysHandler
  | seccompFilter
  | seccompStrict
  deriving DecidableEq

/-- What the system answers: whether the call at each position of the process's trace succeeds,
and the number `/proc/sys/kernel/cap_last_cap` holds. -/
structure World where
  ok : Nat → Bool
  capLastCap : Nat

structure Proc where
  calls : List Sys := []
  lastCap : Nat := 0

/-- How jail-entry code stops early: `die` and `pdie` abort the process, and a `NULL` pointer
crashes it. -/
inductive Stop where
  | died
  | fault

abbrev Jail := EStateM Stop Proc

def sys (w : World) (c : Sys) : Jail Bool := fun s =>
  .ok (w.ok s.calls.length) { s with calls := s.calls ++ [c] }

def die {α : Type} : Jail α := EStateM.throw .died
def crash {α : Type} : Jail α := EStateM.throw .fault

def check (w : World) (c : Sys) : Jail Unit := do
  unless ← sys w c do die

/-- What `printf`'s `%s` writes for a string field: `(null)` for `NULL`, as glibc does. -/
def Slot.text : Slot CStr → List UInt8
  | .live p => p.val.bytes
  | _ => [40, 110, 117, 108, 108, 41]

def procText : List UInt8 := [47, 112, 114, 111, 99]
def rootText : List UInt8 := [47]

def bindOne (w : World) (j : Minijail) : List Binding → Jail Bool
  | [] => pure true
  | b :: bs => do
    unless ← sys w .asprintf do return false
    let dest := j.chrootdir.text ++ b.dest.val.bytes
    check w (.bindMount b.src.val.bytes dest)
    if b.writeable = 0 then check w (.bindRemountRo b.src.val.bytes dest)
    bindOne w j bs

def enterChroot (w : World) (j : Minijail) (mem : Mem) : Jail Bool := do
  if j.bindingsHead ≠ 0 then
    match bindingList j mem with
    | none => crash
    | some L => unless ← bindOne w j (L.map (·.2)) do return false
  unless ← sys w (.chroot j.chrootdir.text) do return false
  sys w (.chdir (if j.chdir.isNull then rootText else j.chdir.text))

def remountReadonly (w : World) (j : Minijail) : Jail Bool := do
  unless ← sys w .asprintf do return false
  let procPath := (if j.chrootdir.isNull then [] else j.chrootdir.text) ++ procText
  let _ ← sys w .umountBinfmt
  unless ← sys w .umountProc do return false
  sys w (.mountProc procPath)

def dropUgid (w : World) (j : Minijail) : Jail Unit := do
  if j.flags.usergroups then check w (.initgroups j.user.text j.usergid)
  else if j.uid ≠ 0 ∨ j.gid ≠ 0 then check w .setgroups
  if j.flags.gid then check w (.setresgid j.gid)
  if j.flags.uid then check w (.setresuid j.uid)

/-- `run_cap_valid(cap)`. The `fopen` is not checked, so a `NULL` stream crashes `fscanf`; the
`fclose` is not checked either. -/
def runCapValid (w : World) (cap : Nat) : Jail Bool := do
  if (← EStateM.get).lastCap = 0 then
    unless ← sys w .fopenCapLastCap do crash
    unless ← sys w .fscanfCapLastCap do die
    modify fun s => { s with lastCap := w.capLastCap }
    let _ ← sys w .fcloseCapLastCap
  return decide (cap ≤ (← EStateM.get).lastCap)

def capLoop (w : World) (body : Nat → Jail Unit) : Nat → Nat → Jail Unit
  | 0, _ => pure ()
  | n + 1, i => do
    if ← runCapValid w i then
      body i
      capLoop w body n (i + 1)

def CAP_SETPCAP : Nat := 8

def raiseCap (w : World) (j : Minijail) (i : Nat) : Jail Unit := do
  if i ≠ CAP_SETPCAP ∧ j.caps.getLsbD i = false then return
  check w (.capSetFlag .effective i true)
  check w (.capSetFlag .permitted i true)
  check w (.capSetFlag .inheritable i true)

def dropBounding (w : World) (j : Minijail) (i : Nat) : Jail Unit := do
  if j.caps.getLsbD i then return
  check w (.capbsetDrop i)

def dropCaps (w : World) (j : Minijail) : Jail Unit := do
  check w .capGetProc
  check w (.capClearFlag .inheritable)
  check w (.capClearFlag .effective)
  check w (.capClearFlag .permitted)
  capLoop w (raiseCap w j) 64 0
  check w .capSetProc
  capLoop w (dropBounding w j) 64 0
  if j.caps.getLsbD CAP_SETPCAP = false then
    check w (.capSetFlag .effective CAP_SETPCAP false)
    check w (.capSetFlag .permitted CAP_SETPCAP false)
    check w (.capSetFlag .inheritable CAP_SETPCAP false)
  check w .capSetProc

def setSeccompFilter (w : World) (j : Minijail) : Jail Unit := do
  if j.flags.noNewPrivs then check w .noNewPrivs
  if j.flags.seccompFilter ∧ j.flags.logSeccompFilter then check w .sigsysHandler
  if j.flags.seccompFilter then check w .seccompFilter

def minijailEnter (w : World) (j : Minijail) (mem : Mem) : Jail Unit := do
  if j.flags.pids then die
  if j.flags.usergroups ∧ j.user.isNull then die
  if j.flags.vfs then check w .unshareNs
  if j.flags.net then check w .unshareNet
  if j.flags.chroot then
    unless ← enterChroot w j mem do die
  if j.flags.chroot ∧ j.flags.mountTmp then check w .mountTmp
  if j.flags.readonly then
    unless ← remountReadonly w j do die
  if j.flags.caps then
    check w .keepCaps
    check w .secureBits
  if j.flags.noNewPrivs then
    dropUgid w j
    if j.flags.caps then dropCaps w j
    setSeccompFilter w j
  else
    setSeccompFilter w j
    dropUgid w j
    if j.flags.caps then dropCaps w j
  if j.flags.seccomp then check w .seccompStrict

def runPidPipesChild (w : World) (j : Minijail) (mem : Mem) : Jail Unit := do
  let chroot := j.flags.chroot
  let (j, mem) := minijailPreexec j mem
  minijailEnter w j mem
  if chroot then
    unless ← enterChroot w j mem do die

/-- Modelled from the spec: the preload helper, after `execve`, strips the policy it received
with `minijail_preenter` and enters it. -/
def preloadEnter (w : World) (j : Minijail) (mem : Mem) : Jail Unit :=
  minijailEnter w (minijailPreenter j) mem

def runStaticChild (w : World) (j : Minijail) (mem : Mem) : Jail Unit := do
  let j := { j with flags := { j.flags with pids := false } }
  minijailEnter w j mem
  if j.flags.chroot then
    unless ← enterChroot w j mem do die

end Libminijail
