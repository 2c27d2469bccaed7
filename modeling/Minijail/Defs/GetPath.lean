import Minijail.Defs.BuilderLaws

/-! `minijail_get_path`, the host path of the target that `minijail0` checks. The buffer is the
caller's bytes, and a read or write outside it, or before the start of a string, is the call's
fault. -/

namespace Libminijail

inductive GetPath where
  | ret (code : Int) (buf : List UInt8)
  | fault
  deriving DecidableEq

abbrev PathM := Except GetPath

def sizeT (x : Int) : Nat := (x % 2 ^ 64).toNat

section Buffer

variable (buf : List UInt8)

def store (p : Nat) (bytes : List UInt8) : PathM (List UInt8) :=
  if p + bytes.length ≤ buf.length then .ok (buf.take p ++ bytes ++ buf.drop (p + bytes.length))
  else .error .fault

def strlen (p : Nat) : PathM Nat :=
  match (buf.drop p).findIdx? (· = 0) with
  | some n => .ok n
  | none => .error .fault

def cstring : PathM (List UInt8) := (strlen buf 0).map buf.take

def strncpy (p : Nat) (s : List UInt8) (n : Nat) : PathM (List UInt8) :=
  store buf p ((s ++ List.replicate n 0).take n)

def snprintf (p size : Nat) (s : List UInt8) : PathM (List UInt8) :=
  if size = 0 then .ok buf else store buf p (s.take (size - 1) ++ [0])

def memmove (dst src n : Nat) : PathM (List UInt8) :=
  if src + n ≤ buf.length then store buf dst ((buf.drop src).take n) else .error .fault

end Buffer

def concatPath (buf : List UInt8) (bufferLen : Nat) (path : List UInt8) : PathM (Int × List UInt8) := do
  let len ← strlen buf 0
  let pathlen := path.length
  if len ≠ 0 ∧ buf.getD (len - 1) 0 ≠ 47 ∧ path.head? ≠ some 47 then
    if bufferLen ≤ len + pathlen + 1 then pure (-1, buf)
    else (snprintf buf len (bufferLen - len - 1) (47 :: path)).map ((0 : Int), ·)
  else if len ≠ 0 ∧ buf.getD (len - 1) 0 = 47 ∧ path.head? = some 47 then
    if bufferLen ≤ len + pathlen then pure (-1, buf)
    else (strncpy buf len path.tail (bufferLen - len)).map ((0 : Int), ·)
  else
    if bufferLen ≤ len + pathlen then pure (-1, buf)
    else (strncpy buf len path (bufferLen - len)).map ((0 : Int), ·)

inductive FileKind where
  | absent
  | regular
  | directory
  | other
  | symlink (target : CStr)

/-- The working directory `getcwd` reports (`none` when it fails), and the file at each host
path. -/
structure PathEnv where
  cwd : Option CStr
  kind : List UInt8 → FileKind

def PATH_MAX : Nat := 4096

def CStr.take (s : CStr) (n : Nat) : CStr := ⟨s.bytes.take n, fun h => s.nul_free (List.mem_of_mem_take h)⟩

def retOne {α : Type} (buf : List UInt8) : PathM α := .error (.ret 1 buf)

def concatOrReturn (buf : List UInt8) (size : Nat) (s : List UInt8) : PathM (List UInt8) := do
  let (r, buf) ← concatPath buf size s
  if r ≠ 0 then retOne buf else pure buf

def anchorPath (j : Minijail) (cwd : Option CStr) (buf : List UInt8) (bufferLen : Nat) (path : CStr) :
    PathM (List UInt8) := do
  let buf ← store buf 0 [0]
  if path.bytes.head? = some 47 then pure buf
  else if j.flags.chdir then
    match j.chdir with
    | .live p => concatOrReturn buf bufferLen p.val.bytes
    | .null => retOne buf
    | .stale _ _ => .error .fault
  else if j.flags.chroot then concatOrReturn buf bufferLen [47]
  else
    match cwd with
    | some c => if c.bytes.length + 1 ≤ bufferLen then store buf 0 c.withNul else retOne buf
    | none => retOne buf

def walkedBindings (j : Minijail) (mem : Mem) : PathM (List Binding) :=
  if j.bindingsTail = 0 then pure []
  else match bindingList j mem with
    | some L => pure (L.map (·.2))
    | none => .error .fault

def bestStep (q : List UInt8) (acc : Option Binding × Nat) (cur : Binding) : Option Binding × Nat :=
  if cur.dest.val.bytes <+: q ∧ acc.2 < cur.dest.val.bytes.length then
    (some cur, cur.dest.val.bytes.length)
  else acc

def sourceOf (j : Minijail) : Option Binding × Nat → PathM (List UInt8 × Nat)
  | (some b, bestLen) => pure (b.src.val.bytes, bestLen)
  | (none, _) =>
    if j.flags.chroot then
      match j.chrootdir with
      | .live p => pure (p.val.bytes, 1)
      | _ => .error .fault
    else pure ([47], 1)

/-- `src_len` with one trailing `/` trimmed; reading `src_path[src_len - 1]` of an empty string
reads the byte before it. -/
def trimmedLen (src : List UInt8) : PathM Nat :=
  if src = [] then .error .fault
  else pure (if src.getLast? = some 47 then src.length - 1 else src.length)

def splice (buf src : List UInt8) (srcLen bestLen len : Nat) : PathM (List UInt8) := do
  let buf ← memmove buf (srcLen + 1) bestLen (sizeT (len - bestLen))
  let buf ← strncpy buf 0 src srcLen
  store buf srcLen [47]

def substitute (j : Minijail) (mem : Mem) (buf : List UInt8) (bufferLen : Nat) (path : CStr) :
    PathM (List UInt8) := do
  let len ← strlen buf 0
  let buf ← concatOrReturn buf (sizeT (bufferLen - len)) path.bytes
  let q ← cstring buf
  let bindings ← walkedBindings j mem
  let (src, bestLen) ← sourceOf j (bindings.foldl (bestStep q) (none, 0))
  let srcLen ← trimmedLen src
  if bufferLen ≤ sizeT (q.length - bestLen + srcLen + 2) then retOne buf
  else splice buf src srcLen bestLen q.length

def lstatTarget (cwd : Option CStr) (j : Minijail) (mem : Mem) (bufferLen : Nat) (buf : List UInt8)
    (path : CStr) : PathM (List UInt8 × List UInt8) := do
  let buf ← anchorPath j cwd buf bufferLen path
  let buf ← substitute j mem buf bufferLen path
  return (buf, ← cstring buf)

def getPathStep (fs : PathEnv) (j : Minijail) (mem : Mem) (bufferLen : Nat) (buf : List UInt8)
    (path : CStr) : PathM (List UInt8 × CStr) := do
  let (buf, target) ← lstatTarget fs.cwd j mem bufferLen buf path
  match fs.kind target with
  | .regular => .error (.ret 0 buf)
  | .symlink t => pure (buf, t.take PATH_MAX)
  | _ => retOne buf

/-- `minijail_get_path(j, buffer, buffer_len, path)`, with `fuel` nested calls allowed; `none`
when they run out. -/
def minijailGetPath (fs : PathEnv) (j : Minijail) (mem : Mem) (bufferLen : Nat) :
    Nat → List UInt8 → CStr → Option GetPath
  | 0, _, _ => none
  | fuel + 1, buf, path =>
    match getPathStep fs j mem bufferLen buf path with
    | .error r => some r
    | .ok (buf, target) => minijailGetPath fs j mem bufferLen fuel buf target

end Libminijail
