import Mathlib.Data.List.Basic
import Mathlib.Order.Basic

/-! `minijail_syscall_helper`, which follows `/var/log/syslog` and prints the name of the system
call in the first seccomp audit line. The system's answers are arguments, in the order the calls
are made; a function returns `none` when they run out before it returns. -/

namespace SyscallHelper

inductive ReadAnswer where
  | failed
  | bytes (b : List UInt8) (hb : b.length ≤ 4096)

/-- What one turn of the loop of `wait_for_activity` is told: the return of `read` on the inotify
descriptor, the `st_size` that `fstat` reports (`none` when it fails), and for a truncated file
the returns of `inotify_rm_watch`, `close`, `open` and `inotify_add_watch`. -/
structure Turn where
  notifyLen : Int
  size : Option Int
  rmWatch : Int
  close : Int
  reopen : Int
  addWatch : Int
  deriving DecidableEq

/-- The globals `readline` keeps between calls: `read_buf`, `read_bytes`, `read_pos` and
`read_len`. Only `0`, `sizeof(read_buf)` and increments are stored in `read_pos`. -/
structure Reader where
  buf : Nat → UInt8
  bytes : Int
  pos : Nat
  len : Int
  bytes_le : bytes ≤ 4096

structure Returned (α : Type) where
  val : α
  reader : Reader
  reads : List ReadAnswer
  turns : List Turn

def waitForActivity (s : Reader) : List Turn → Option (Bool × Reader × List Turn)
  | [] => none
  | t :: ts =>
    if t.notifyLen ≤ 0 then some (false, s, ts)
    else match t.size with
      | none => some (false, s, ts)
      | some size =>
        if size > s.len then some (true, s, ts)
        else if size < s.len then
          if t.rmWatch = -1 ∨ t.close = -1 ∨ t.reopen = -1 ∨ t.addWatch = -1 then some (false, s, ts)
          else waitForActivity { s with len := 0 } ts
        else waitForActivity s ts

def Reader.fill (s : Reader) (b : List UInt8) (hb : b.length ≤ 4096) : Reader where
  buf i := b.getD i (s.buf i)
  bytes := b.length
  pos := 0
  len := s.len + b.length
  bytes_le := by omega

/-- The inner loop of `readline`, `while (read_pos >= read_bytes)`: `true` once a byte is ready at
`read_pos`, `false` when `read` or `wait_for_activity` returned `-1`. After a `read` that returned
bytes `read_pos` is `0`, below `read_bytes`, and the loop ends. -/
def refill (s : Reader) (ts : List Turn) (rs : List ReadAnswer) : Option (Returned Bool) :=
  if (s.pos : Int) < s.bytes then some ⟨true, s, rs, ts⟩
  else match rs with
    | [] => none
    | .failed :: rs => some ⟨false, { s with bytes := -1, bytes_le := by decide }, rs, ts⟩
    | .bytes b hb :: rs =>
      if b.length = 0 then
        match waitForActivity { s with bytes := 0, bytes_le := by decide } ts with
        | none => none
        | some (false, s', ts') => some ⟨false, s', rs, ts'⟩
        | some (true, s', ts') => refill { s' with pos := 4096 } ts' rs
      else some ⟨true, s.fill b hb, rs, ts⟩
termination_by structural rs

inductive Got where
  | line (l : List UInt8)
  | failed
  deriving DecidableEq

def readLoop : Nat → Reader → List UInt8 → List ReadAnswer → List Turn → Option (Returned Got)
  | 0, s, line, rs, ts => some ⟨.line line, s, rs, ts⟩
  | room + 1, s, line, rs, ts =>
    match refill s ts rs with
    | none => none
    | some ⟨false, s', rs', ts'⟩ => some ⟨.failed, s', rs', ts'⟩
    | some ⟨true, s', rs', ts'⟩ =>
      let c := s'.buf s'.pos
      let s'' := { s' with pos := s'.pos + 1 }
      if c = 10 then some ⟨.line line, s'', rs', ts'⟩
      else readLoop room s'' (line ++ [c]) rs' ts'

def readline (len : Int) (s : Reader) (rs : List ReadAnswer) (ts : List Turn) :
    Option (Returned Got) :=
  readLoop (len - 1).toNat s [] rs ts

structure Start where
  readFd : Int
  offset : Int
  notifyFd : Int
  watch : Int
  deriving DecidableEq

def init (a : Start) : Option Reader :=
  if a.readFd = -1 ∨ a.offset = -1 ∨ a.notifyFd = -1 ∨ a.watch = -1 then none
  else some ⟨fun _ => 0, 0, 0, a.offset, by decide⟩

def ascii (s : String) : List UInt8 := s.toList.map Char.toUInt8

def kNormalExit : List UInt8 := ascii "libminijail: normal exit"
def kKernel : List UInt8 := ascii "kernel:"
def kAudit : List UInt8 := ascii "audit"
def kSyscall : List UInt8 := ascii "syscall="

def strstr (w s : List UInt8) : Option Nat :=
  if w.isPrefixOf s then some 0
  else match s with
    | [] => none
    | _ :: s => (strstr w s).map (· + 1)
termination_by structural s

def INT_MAX : Int := 2147483647

/-- `while (isdigit(*syscall_text)) syscall_nr = syscall_nr * 10 + (*syscall_text - '0')`, in
`int`: `none` when the number leaves its range, which the C standard leaves undefined. -/
def parseNr (nr : Int) : List UInt8 → Option Int
  | [] => some nr
  | c :: cs =>
    if 48 ≤ c ∧ c ≤ 57 then
      if nr * 10 + (c.toNat - 48 : Nat) ≤ INT_MAX then parseNr (nr * 10 + (c.toNat - 48 : Nat)) cs
      else none
    else some nr

def syscallName (table : List (List UInt8 × Int)) (nr : Int) : List UInt8 :=
  ((table.find? (·.2 = nr)).map (·.1)).getD (ascii "????")

inductive End where
  /-- It returns `status`, after printing the bytes `printed` and a newline if they are given. -/
  | exit (printed : Option (List UInt8)) (status : Int)
  /-- The system call number overflowed `int`. -/
  | overflow
  deriving DecidableEq

section Main

variable (table : List (List UInt8 × Int))

/-- The body of `main`'s loop on the line `readline` stored in `buf`, which `strstr` reads up to
its first NUL: how `main` ends, or `none` to read the next line. -/
def examine (l : List UInt8) : Option End :=
  let s := l.takeWhile (· ≠ 0)
  if (strstr kNormalExit s).isSome then some (.exit none 0)
  else if (strstr kKernel s).isSome ∧ (strstr kAudit s).isSome then
    match strstr kSyscall s with
    | none => none
    | some i =>
      some <| match parseNr 0 (s.drop (i + kSyscall.length)) with
        | some nr => .exit (some (syscallName table nr)) 0
        | none => .overflow
  else none

/-- `while ((line_length = readline(buf, sizeof(buf))) != -1)`, for at most `fuel` lines: how
`main` ends, and the answers it leaves unread. -/
def mainLoop : Nat → Reader → List ReadAnswer → List Turn →
    Option (End × List ReadAnswer × List Turn)
  | 0, _, _, _ => none
  | fuel + 1, s, rs, ts =>
    match readline 1024 s rs ts with
    | none => none
    | some ⟨.failed, _, rs', ts'⟩ => some (.exit none 1, rs', ts')
    | some ⟨.line l, s', rs', ts'⟩ =>
      match examine table l with
      | some e => some (e, rs', ts')
      | none => mainLoop fuel s' rs' ts'

def mainRun (a : Start) (fuel : Nat) (rs : List ReadAnswer) (ts : List Turn) :
    Option (End × List ReadAnswer × List Turn) :=
  match init a with
  | none => some (.exit none 1, rs, ts)
  | some s => mainLoop table fuel s rs ts

def main (a : Start) (fuel : Nat) (rs : List ReadAnswer) (ts : List Turn) : Option End :=
  (mainRun table a fuel rs ts).map (·.1)

end Main

end SyscallHelper
