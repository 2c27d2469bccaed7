import Minijail.Defs.GetPath
import Minijail.Defs.Descriptors

/-! `minijail0`, the command-line front end, run through `sudo`. As for the builder calls, the
system's answers travel with the calls that get them: each option carries what its case is told,
and the host the rest. -/

namespace Minijail0

open Libminijail

def isSpace (c : UInt8) : Bool := c = 32 || (9 ≤ c && c ≤ 13)

def digitsValue (acc : Nat) : List UInt8 → Nat
  | [] => acc
  | c :: cs => if 48 ≤ c ∧ c ≤ 57 then digitsValue (acc * 10 + (c.toNat - 48)) cs else acc

/-- `atoi(s)`, which glibc computes as `(int) strtol(s, NULL, 10)`: blanks skipped, an optional
sign, the digits after it, the value clamped to `long`, then cut to the 32 bits of an `int`. -/
def atoi (s : List UInt8) : BitVec 32 :=
  let s := s.dropWhile isSpace
  let (neg, s) : Bool × List UInt8 := match s with
    | 45 :: s => (true, s)
    | 43 :: s => (false, s)
    | s => (false, s)
  let v : Int := if neg then -(digitsValue 0 s : Int) else digitsValue 0 s
  BitVec.ofInt 32 (max (-2 ^ 63) (min (2 ^ 63 - 1) v))

def fields (cur : List UInt8) : List UInt8 → List (List UInt8)
  | [] => if cur = [] then [] else [cur]
  | c :: cs =>
    if c = 44 then (if cur = [] then fields [] cs else cur :: fields [] cs)
    else fields (cur ++ [c]) cs

theorem subset_of_mem_fields {cur s f : List UInt8} (h : f ∈ fields cur s) : f ⊆ cur ++ s := by
  induction s generalizing cur with
  | nil =>
    unfold fields at h
    split at h <;> simp_all
  | cons c cs ih =>
    have hcs : [] ++ cs ⊆ cur ++ c :: cs := fun x hx => by simp_all
    unfold fields at h
    split at h
    · split at h
      · exact (ih h).trans hcs
      · rcases List.mem_cons.1 h with rfl | h
        · exact List.subset_append_left _ _
        · exact (ih h).trans hcs
    · exact (ih h).trans (by simp)

def tokens (arg : CStr) : List CStr :=
  (fields [] arg.bytes).attach.map fun f =>
    ⟨f.1, fun h => arg.nul_free (by simpa using subset_of_mem_fields f.2 h)⟩

/-- `add_binding(j, arg)`: the `minijail_bind` call it makes, `none` when `arg` has no two fields
(it prints `Bad binding` and `exit(1)`s). -/
def addBinding (arg : CStr) (m : Malloc) : Option Call :=
  match tokens arg with
  | src :: dest :: rest =>
    some (.bind src dest (match rest with | flags :: _ => atoi flags.bytes | [] => 0) m)
  | _ => none

structure Creds where
  euid : BitVec 32
  egid : BitVec 32
  deriving DecidableEq

inductive Act where
  /-- The `fopen` of `-S` and `-M`, the `open` of `-0`, `-1` and `-2`. -/
  | openFile (path : CStr)
  /-- `minijail_get_path` on the program, whose `lstat` and `readlink` follow it. -/
  | getPath (path : CStr)
  | access (path : List UInt8)
  | elfLinkage (path : List UInt8)
  | dlopen
  deriving DecidableEq

structure Front where
  j : Minijail
  mem : Mem
  hist : List (Call × Int)
  fds : Fds
  creds : Creds
  acts : List (Act × Creds)

inductive Stop where
  /-- `die`, `pdie`, or a `die` inside a builder call: `abort`. -/
  | died
  | fault
  /-- `exit(status)`, or `return status` from `main`. -/
  | exit (status : Int)
  deriving DecidableEq

namespace Front

def call (st : Front) (c : Call) : Except Stop (Front × Int) :=
  match c.run st.j st.mem with
  | none => .error .died
  | some (j, mem, r) => .ok ({ st with j, mem, hist := st.hist ++ [(c, r)] }, r)

def callOrExit (st : Front) (c : Call) : Except Stop Front := do
  let (st, r) ← st.call c
  if r ≠ 0 then throw (.exit 1) else pure st

def act (st : Front) (a : Act) : Front := { st with acts := st.acts ++ [(a, st.creds)] }

def redirect (st : Front) (n : Nat) (path : CStr) (opened : Option Obj) : Except Stop Front :=
  let st := { st.act (.openFile path) with fds := st.fds.close n }
  match opened with
  | none => .error (.exit 1)
  | some o =>
    let (k, fds) := st.fds.alloc o
    if k ≠ n then .error (.exit 1) else .ok { st with fds }

end Front

/-- One return of `getopt(argc, argv, "u:g:sS:c:C:d:b:vrGhHinpLet:O:m:M:0:1:2:")`, with what the
system answers the calls of its case: the option character, the `optarg` of the options that take
an argument (the other cases never read it), the allocator, the program `compile_filter` builds
from the file of `-S` (`none` when `fopen` or the compiler fails), the `FILE *` that `fopen`
returns for `-M` (`none` for `NULL`), and the file `open` opens for `-0`, `-1` and `-2` (`none`
when it fails). -/
structure Opt where
  opt : Char
  arg : CStr
  m : Malloc
  prog : Option SockFprog
  stream : Option { a : Addr // a ≠ 0 }
  opened : Option Obj

def metaFileCall (st : Front) (stream : Option { a : Addr // a ≠ 0 }) : Front × Call :=
  match stream with
  | none => (st, .metaFile none)
  | some a =>
    let (fd, fds) := st.fds.alloc .metaFile
    ({ st with fds }, .metaFile (some ⟨a.1, a.2, fd⟩))

def parseOpt (st : Front) (o : Opt) : Except Stop Front :=
  match o.opt with
  | 's' => Prod.fst <$> st.call .useSeccomp
  | 'S' => do
    let (st, _) ← (st.act (.openFile o.arg)).call (.parseSeccompFilters o.prog o.m)
    Prod.fst <$> st.call .useSeccompFilter
  | 'L' => Prod.fst <$> st.call .logSeccompFilterFailures
  | 'b' =>
    match addBinding o.arg o.m with
    | none => throw (.exit 1)
    | some c => st.callOrExit c
  | 'C' => st.callOrExit (.enterChroot o.arg o.m)
  | 'd' => st.callOrExit (.chrootChdir (some o.arg) o.m)
  | 'G' => Prod.fst <$> st.call .inheritUsergroups
  | 'H' => throw (.exit 1)
  | 't' => Prod.fst <$> st.call (.timeLimit (atoi o.arg.bytes))
  | 'O' => Prod.fst <$> st.call (.outputLimit (atoi o.arg.bytes))
  | 'm' => Prod.fst <$> st.call (.memoryLimit (atoi o.arg.bytes))
  | 'M' =>
    let (st, c) := metaFileCall (st.act (.openFile o.arg)) o.stream
    st.callOrExit c
  | '0' => st.redirect 0 o.arg o.opened
  | '1' => st.redirect 1 o.arg o.opened
  | '2' => st.redirect 2 o.arg o.opened
  | _ => throw (.exit 1)

def parseArgs (st : Front) (opts : List Opt) (program : Bool) : Except Stop Front := do
  let st ← opts.foldlM parseOpt st
  if program then pure st else throw (.exit 1)

inductive ElfType where
  | static
  | dynamic
  | error
  deriving DecidableEq

/-- What the host answers minijail0 outside the options: `SUDO_USER`, what `getpwnam` finds
(`pw_uid` and `pw_gid`), the heap and descriptor table it starts with, whether each of the four
`seteuid` and `setegid` calls succeeds, the file system `minijail_get_path` walks, the bytes the
uninitialised `filepath` holds, and the answers of `access`, `get_elf_linkage` and `dlopen`. -/
structure Host where
  sudoUser : Option CStr
  getpwnam : CStr → Option (BitVec 32 × BitVec 32)
  mem : Mem
  fds : Fds
  setegidUser : Bool
  seteuidUser : Bool
  seteuidRoot : Bool
  setegidRoot : Bool
  fs : PathEnv
  filepath : List UInt8
  filepath_length : filepath.length = PATH_MAX + 1
  executable : Bool
  elf : ElfType
  dlopenOk : Bool

def setupCalls (uid gid : BitVec 32) : List Call :=
  [.changeUid uid, .changeGid gid, .useCaps 0, .namespacePids, .remountReadonly, .namespaceVfs,
   .noNewPrivs, .namespaceNet]

structure Runs where
  static : Bool
  st : Front

def setIds (st : Front) (uid gid : BitVec 32) (gidFirst okUid okGid : Bool) : Except Stop Front :=
  let setGid (st : Front) : Except Stop Front :=
    if okGid then .ok { st with creds := { st.creds with egid := gid } } else .error .died
  let setUid (st : Front) : Except Stop Front :=
    if okUid then .ok { st with creds := { st.creds with euid := uid } } else .error .died
  if gidFirst then setGid st >>= setUid else setUid st >>= setGid

def checkAndRun (h : Host) (st : Front) (filepath : List UInt8) : Except Stop Runs := do
  let st := st.act (.access filepath)
  if !h.executable then throw (.exit 1)
  let st := st.act (.elfLinkage filepath)
  match h.elf with
  | .static =>
    let st ← setIds st 0 0 false h.seteuidRoot h.setegidRoot
    pure ⟨true, st⟩
  | .dynamic =>
    let st := st.act .dlopen
    if !h.dlopenOk then throw (.exit 1)
    let st ← setIds st 0 0 false h.seteuidRoot h.setegidRoot
    pure ⟨false, st⟩
  | .error => throw (.exit 1)

/-- `main(argc, argv)` up to `minijail_run_static` or `minijail_run`: `opts` are the options
`getopt` returns, `program` whether a program follows them, `argv0` that program, and `fuel` the
nested calls `minijail_get_path` may make; `none` when they run out. -/
def main (h : Host) (opts : List Opt) (program : Bool) (argv0 : CStr) (fuel : Nat) :
    Option (Except Stop Runs) :=
  match h.sudoUser with
  | none => some (.error .died)
  | some caller =>
    match h.getpwnam caller with
    | none => some (.error .died)
    | some (uid, gid) =>
      let st : Front := ⟨minijailNew, h.mem, [], h.fds, ⟨0, 0⟩, []⟩
      match (setupCalls uid gid).foldlM (fun st c => Prod.fst <$> st.call c) st >>=
          fun st => setIds st uid gid true h.seteuidUser h.setegidUser >>=
          fun st => parseArgs st opts program with
      | .error s => some (.error s)
      | .ok st =>
        let st := st.act (.getPath argv0)
        match minijailGetPath h.fs st.j st.mem (PATH_MAX + 1) fuel h.filepath argv0 with
        | none => none
        | some .fault => some (.error .fault)
        | some (.ret r buf) =>
          if r ≠ 0 then some (.error (.exit 1))
          else match cstring buf with
            | .error _ => some (.error .fault)
            | .ok filepath => some (checkAndRun h st filepath)

end Minijail0
