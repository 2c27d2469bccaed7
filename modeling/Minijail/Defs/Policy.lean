import Minijail.Defs.Bytes
import Mathlib.Logic.Function.Basic

/-! `struct minijail` as a flat record of 64-bit pointers and fixed-width integers, the binding
nodes it reaches through `bindings_head`, the allocator, and the builder surface of
`libminijail.c`. -/

namespace Libminijail

abbrev Addr := BitVec 64

def EINVAL : Int := 22
def ENOMEM : Int := 12
def E2BIG : Int := 7
def EFAULT : Int := 14

structure Ptr (α : Type) where
  addr : Addr
  addr_ne : addr ≠ 0
  val : α
  deriving DecidableEq

/-- A pointer field: `NULL`, an address copied from another process's image (pointing at
nothing this process owns), or a pointer to an object of this process. -/
inductive Slot (α : Type) where
  | null
  | stale (addr : Addr) (h : addr ≠ 0)
  | live (p : Ptr α)
  deriving DecidableEq

namespace Slot

variable {α β : Type}

def addr : Slot α → Addr
  | null => 0
  | stale a _ => a
  | live p => p.addr

def val? : Slot α → Option α
  | live p => some p.val
  | _ => none

def isNull : Slot α → Bool
  | null => true
  | _ => false

def isStale : Slot α → Bool
  | stale _ _ => true
  | _ => false

def ofAddr (a : Addr) : Slot α :=
  if h : a = 0 then null else stale a h

@[simp] theorem addr_null : (null : Slot α).addr = 0 := rfl
@[simp] theorem addr_live (p : Ptr α) : (live p).addr = p.addr := rfl
@[simp] theorem val?_null : (null : Slot α).val? = none := rfl
@[simp] theorem val?_live (p : Ptr α) : (live p).val? = some p.val := rfl
@[simp] theorem isNull_null : (null : Slot α).isNull = true := rfl
@[simp] theorem isNull_live (p : Ptr α) : (live p).isNull = false := rfl
@[simp] theorem isStale_null : (null : Slot α).isStale = false := rfl
@[simp] theorem isStale_live (p : Ptr α) : (live p).isStale = false := rfl

@[simp] theorem addr_ofAddr (a : Addr) : (ofAddr a : Slot α).addr = a := by
  unfold ofAddr; split <;> simp_all [addr]

@[simp] theorem val?_ofAddr (a : Addr) : (ofAddr a : Slot α).val? = none := by
  unfold ofAddr; split <;> rfl

@[simp] theorem isNull_ofAddr (a : Addr) : (ofAddr a : Slot α).isNull = decide (a = 0) := by
  unfold ofAddr; split <;> simp_all [isNull]; assumption

end Slot

structure Flags where
  uid : Bool := false
  gid : Bool := false
  caps : Bool := false
  vfs : Bool := false
  pids : Bool := false
  net : Bool := false
  seccomp : Bool := false
  readonly : Bool := false
  usergroups : Bool := false
  ptrace : Bool := false
  noNewPrivs : Bool := false
  seccompFilter : Bool := false
  logSeccompFilter : Bool := false
  chroot : Bool := false
  mountTmp : Bool := false
  chdir : Bool := false
  stackLimit : Bool := false
  timeLimit : Bool := false
  outputLimit : Bool := false
  memoryLimit : Bool := false
  metaFile : Bool := false
  deriving DecidableEq

structure SockFprog where
  len : BitVec 16
  filter : Ptr (List UInt8)
  filter_length : filter.val.length = 8 * len.toNat
  deriving DecidableEq

structure Binding where
  src : Ptr CStr
  dest : Ptr CStr
  writeable : BitVec 32
  next : Addr
  deriving DecidableEq

structure Minijail where
  flags : Flags := {}
  uid : BitVec 32 := 0
  gid : BitVec 32 := 0
  usergid : BitVec 32 := 0
  user : Slot CStr := .null
  caps : BitVec 64 := 0
  initpid : BitVec 32 := 0
  filterLen : BitVec 32 := 0
  bindingCount : BitVec 32 := 0
  chrootdir : Slot CStr := .null
  chdir : Slot CStr := .null
  filterProg : Slot SockFprog := .null
  bindingsHead : Addr := 0
  bindingsTail : Addr := 0
  stackLimit : BitVec 32 := 0
  timeLimit : BitVec 32 := 0
  memoryLimit : BitVec 32 := 0
  outputLimit : BitVec 32 := 0
  /-- The `FILE *` of the meta file, with the descriptor it writes through. -/
  metaFile : Slot Nat := .null
  deriving DecidableEq

structure Mem where
  live : Addr → Bool
  nodes : Addr → Option Binding
  ticks : Nat := 0
  nulls : Nat := 0

/-- What `malloc` answers to each request. An answer that is `NULL` or a block still in use
is a failed allocation, so every answer of the model is one `malloc` may give. -/
structure Malloc where
  next : Mem → Option Addr

namespace Mem

def alloc (mem : Mem) (m : Malloc) : Option { a : Addr // a ≠ 0 } × Mem :=
  match m.next mem with
  | some a =>
    if h : a ≠ 0 ∧ mem.live a = false then
      (some ⟨a, h.1⟩, { mem with live := Function.update mem.live a true, ticks := mem.ticks + 1 })
    else (none, { mem with ticks := mem.ticks + 1, nulls := mem.nulls + 1 })
  | none => (none, { mem with ticks := mem.ticks + 1, nulls := mem.nulls + 1 })

def new {α : Type} (mem : Mem) (m : Malloc) (v : α) : Option (Ptr α) × Mem :=
  match mem.alloc m with
  | (some a, mem) => (some ⟨a.1, a.2, v⟩, mem)
  | (none, mem) => (none, mem)

def free (mem : Mem) (a : Addr) : Mem :=
  if a = 0 then mem else { mem with live := Function.update mem.live a false }

@[simp] theorem nodes_free (mem : Mem) (a : Addr) : (mem.free a).nodes = mem.nodes := by
  unfold free; split <;> rfl

@[simp] theorem nulls_free (mem : Mem) (a : Addr) : (mem.free a).nulls = mem.nulls := by
  unfold free; split <;> rfl

theorem live_free_of_ne (mem : Mem) {a x : Addr} (h : x ≠ a) : (mem.free a).live x = mem.live x := by
  unfold free; split
  · rfl
  · exact Function.update_noteq h _ _

structure Grows (mem mem' : Mem) : Prop where
  nodes : mem'.nodes = mem.nodes
  live : ∀ a, mem.live a = true → mem'.live a = true
  nulls : mem.nulls ≤ mem'.nulls

theorem Grows.refl (mem : Mem) : mem.Grows mem := ⟨rfl, fun _ => id, le_rfl⟩

theorem Grows.trans {mem₁ mem₂ mem₃ : Mem} (h₁ : mem₁.Grows mem₂) (h₂ : mem₂.Grows mem₃) :
    mem₁.Grows mem₃ :=
  ⟨h₂.1.trans h₁.1, fun a ha => h₂.2 a (h₁.2 a ha), h₁.3.trans h₂.3⟩

theorem Grows.live_eq_false {mem mem' : Mem} {a : Addr} (h : mem.Grows mem')
    (ha : mem'.live a = false) : mem.live a = false := by
  cases hm : mem.live a
  · rfl
  · simp [h.2 a hm] at ha

theorem Grows.free {mem mem' : Mem} {a : Addr} (h : mem.Grows mem') (ha : mem.live a = false) :
    mem.Grows (mem'.free a) := by
  refine ⟨by unfold Mem.free; split <;> exact h.1, fun x hx => ?_, by simpa using h.3⟩
  have hxa : x ≠ a := by rintro rfl; simp [ha] at hx
  unfold Mem.free; split
  · exact h.2 x hx
  · simpa [Function.update_noteq hxa] using h.2 x hx

theorem alloc_spec (mem : Mem) (m : Malloc) :
    (∃ a mem', mem.alloc m = (some a, mem') ∧ mem.live a.1 = false ∧ mem'.live a.1 = true ∧
      mem.Grows mem' ∧ mem'.nulls = mem.nulls) ∨
    (∃ mem', mem.alloc m = (none, mem') ∧ mem.Grows mem' ∧ mem.nulls < mem'.nulls) := by
  unfold alloc
  split
  · split
    · rename_i a _ h
      refine .inl ⟨_, _, rfl, h.2, by simp, ⟨rfl, fun x hx => ?_, le_rfl⟩, rfl⟩
      by_cases hx' : x = a
      · subst hx'; simp
      · simp [Function.update_noteq hx', hx]
    · exact .inr ⟨_, rfl, ⟨rfl, fun _ => id, by simp⟩, by simp⟩
  · exact .inr ⟨_, rfl, ⟨rfl, fun _ => id, by simp⟩, by simp⟩

theorem alloc_grows {mem mem' : Mem} {m : Malloc} {r : Option { a : Addr // a ≠ 0 }}
    (h : mem.alloc m = (r, mem')) : mem.Grows mem' := by
  rcases alloc_spec mem m with ⟨_, _, h', -, -, g, -⟩ | ⟨_, h', g, -⟩ <;>
    obtain ⟨-, rfl⟩ := Prod.mk.inj (h.symm.trans h') <;> exact g

theorem new_spec {α : Type} (mem : Mem) (m : Malloc) (v : α) :
    (∃ p mem', mem.new m v = (some p, mem') ∧ p.val = v ∧ mem.live p.addr = false ∧
      mem'.live p.addr = true ∧ mem.Grows mem' ∧ mem'.nulls = mem.nulls) ∨
    (∃ mem', mem.new m v = (none, mem') ∧ mem.Grows mem' ∧ mem.nulls < mem'.nulls) := by
  unfold new
  rcases alloc_spec mem m with ⟨a, mem', h, h1, h2, h3, h4⟩ | ⟨mem', h, h1, h2⟩ <;> rw [h]
  · exact .inl ⟨_, _, rfl, rfl, h1, h2, h3, h4⟩
  · exact .inr ⟨_, rfl, h1, h2⟩

end Mem

def walk (nodes : Addr → Option Binding) : Addr → Nat → Option (List (Addr × Binding))
  | a, 0 => if a = 0 then some [] else none
  | a, n + 1 =>
    if a = 0 then some []
    else (nodes a).bind fun b => (walk nodes b.next n).map ((a, b) :: ·)

/-- The list `for (b = j->bindings_head; b; b = b->next)` visits. A list of distinct nodes has
fewer than `2 ^ 64` of them, so the bound only cuts off cycles, on which the loop never ends. -/
def bindingList (j : Minijail) (mem : Mem) : Option (List (Addr × Binding)) :=
  walk mem.nodes j.bindingsHead (2 ^ 64)

def minijailPreenter (j : Minijail) : Minijail :=
  { j with flags := { j.flags with vfs := false, readonly := false, pids := false,
                                   chroot := false } }

def minijailPreexec (j : Minijail) (mem : Mem) : Minijail × Mem :=
  ({ j with user := .null,
             flags := { vfs := j.flags.vfs, readonly := j.flags.readonly,
                        stackLimit := j.flags.stackLimit, timeLimit := j.flags.timeLimit,
                        memoryLimit := j.flags.memoryLimit, outputLimit := j.flags.outputLimit,
                        metaFile := j.flags.metaFile } },
   mem.free j.user.addr)

def minijailNew : Minijail := {}

/-- `minijail_change_uid`; `none` when it `die`s. -/
def minijailChangeUid (j : Minijail) (uid : BitVec 32) : Option Minijail :=
  if uid = 0 then none else some { j with uid, flags := { j.flags with uid := true } }

def minijailChangeGid (j : Minijail) (gid : BitVec 32) : Option Minijail :=
  if gid = 0 then none else some { j with gid, flags := { j.flags with gid := true } }

def minijailChangeUser (j : Minijail) (mem : Mem) (m : Malloc) (user : CStr)
    (pw : Option (BitVec 32 × BitVec 32)) : Option (Minijail × Mem × Int) :=
  match mem.alloc m with
  | (none, mem) => some (j, mem, -ENOMEM)
  | (some buf, mem) =>
    let mem := mem.free buf
    match pw with
    | none => some (j, mem, -1)
    | some (uid, gid) =>
      (minijailChangeUid j uid).map fun j =>
        match mem.new m user with
        | (none, mem) => ({ j with user := .null }, mem, -ENOMEM)
        | (some p, mem) => ({ j with user := .live p, usergid := gid }, mem, 0)

def minijailChangeGroup (j : Minijail) (mem : Mem) (m : Malloc) (gr : Option (BitVec 32)) :
    Option (Minijail × Mem × Int) :=
  match mem.alloc m with
  | (none, mem) => some (j, mem, -ENOMEM)
  | (some buf, mem) =>
    let mem := mem.free buf
    match gr with
    | none => some (j, mem, -1)
    | some gid => (minijailChangeGid j gid).map fun j => (j, mem, 0)

def Minijail.setFlags (f : Flags → Flags) (j : Minijail) : Minijail := { j with flags := f j.flags }

def minijailUseSeccomp := Minijail.setFlags fun f => { f with seccomp := true }
def minijailNoNewPrivs := Minijail.setFlags fun f => { f with noNewPrivs := true }
def minijailUseSeccompFilter := Minijail.setFlags fun f => { f with seccompFilter := true }
def minijailLogSeccompFilterFailures :=
  Minijail.setFlags fun f => { f with logSeccompFilter := true }
def minijailNamespaceVfs := Minijail.setFlags fun f => { f with vfs := true }
def minijailNamespacePids :=
  Minijail.setFlags fun f => { f with vfs := true, readonly := true, pids := true }
def minijailNamespaceNet := Minijail.setFlags fun f => { f with net := true }
def minijailRemountReadonly := Minijail.setFlags fun f => { f with vfs := true, readonly := true }
def minijailInheritUsergroups := Minijail.setFlags fun f => { f with usergroups := true }
def minijailDisablePtrace := Minijail.setFlags fun f => { f with ptrace := true }
def minijailMountTmp := Minijail.setFlags fun f => { f with mountTmp := true }

def minijailUseCaps (j : Minijail) (capmask : BitVec 64) : Minijail :=
  { j with caps := capmask, flags := { j.flags with caps := true } }

def minijailEnterChroot (j : Minijail) (mem : Mem) (m : Malloc) (dir : CStr) :
    Minijail × Mem × Int :=
  if j.chrootdir.isNull = false then (j, mem, -EINVAL)
  else match mem.new m dir with
    | (none, mem) => ({ j with chrootdir := .null }, mem, -ENOMEM)
    | (some p, mem) => ({ j with chrootdir := .live p, flags := { j.flags with chroot := true } },
                        mem, 0)

def minijailChrootChdir (j : Minijail) (mem : Mem) (m : Malloc) (dir : Option CStr) :
    Minijail × Mem × Int :=
  if j.chrootdir.isNull then (j, mem, -EINVAL)
  else if j.chdir.isNull = false then (j, mem, -EINVAL)
  else match dir with
    | none => (j, mem, -EINVAL)
    | some d =>
      if d.bytes.head? ≠ some 47 then (j, mem, -EINVAL)
      else match mem.new m d with
        | (none, mem) => ({ j with chdir := .null }, mem, -ENOMEM)
        | (some p, mem) => ({ j with chdir := .live p, flags := { j.flags with chdir := true } },
                            mem, 0)

def Mem.setNext (mem : Mem) (t b : Addr) : Mem :=
  { mem with nodes := Function.update mem.nodes t ((mem.nodes t).map fun n => { n with next := b }) }

def minijailBind (j : Minijail) (mem : Mem) (m : Malloc) (src dest : CStr)
    (writeable : BitVec 32) : Minijail × Mem × Int :=
  if dest.bytes.head? ≠ some 47 then (j, mem, -EINVAL)
  else match mem.alloc m with
    | (none, mem) => (j, mem, -ENOMEM)
    | (some b, mem) =>
      match mem.new m dest with
      | (none, mem) => (j, mem.free b, -ENOMEM)
      | (some d, mem) =>
        match mem.new m src with
        | (none, mem) => (j, (mem.free d.addr).free b, -ENOMEM)
        | (some s, mem) =>
          let mem := { mem with nodes := Function.update mem.nodes b (some ⟨s, d, writeable, 0⟩) }
          let j := minijailNamespaceVfs j
          if j.bindingsTail = 0 then
            ({ j with bindingsHead := b, bindingsTail := b, bindingCount := j.bindingCount + 1 },
             mem, 0)
          else
            ({ j with bindingsTail := b, bindingCount := j.bindingCount + 1 },
             mem.setNext j.bindingsTail b, 0)

/-- `minijail_parse_seccomp_filters`, where `prog` is what `compile_filter` builds from the file
(`none` when the file cannot be opened or compiled: the call `die`s). The `sock_fprog` is
`malloc`ed and its result not checked: a `NULL` there ends the process too. -/
def minijailParseSeccompFilters (j : Minijail) (mem : Mem) (m : Malloc)
    (prog : Option SockFprog) : Option (Minijail × Mem) :=
  prog.bind fun fp =>
    match mem.new m fp with
    | (none, _) => none
    | (some p, mem) => some ({ j with filterLen := fp.len.setWidth 32, filterProg := .live p }, mem)

def minijailStackLimit (j : Minijail) (stackLimit : BitVec 32) : Minijail :=
  { j with flags := { j.flags with stackLimit := true }, stackLimit }

def minijailTimeLimit (j : Minijail) (msecLimit : BitVec 32) : Minijail :=
  { j with flags := { j.flags with timeLimit := true }, timeLimit := msecLimit }

def minijailOutputLimit (j : Minijail) (byteLimit : BitVec 32) : Minijail :=
  { j with flags := { j.flags with outputLimit := true }, outputLimit := byteLimit }

def minijailMemoryLimit (j : Minijail) (byteLimit : BitVec 32) : Minijail :=
  { j with flags := { j.flags with memoryLimit := true }, memoryLimit := byteLimit }

def minijailMetaFile (j : Minijail) (opened : Option (Ptr Nat)) : Minijail × Int :=
  match opened with
  | none => ({ j with flags := { j.flags with metaFile := true }, metaFile := .null }, -1)
  | some f => ({ j with flags := { j.flags with metaFile := true }, metaFile := .live f }, 0)

end Libminijail
