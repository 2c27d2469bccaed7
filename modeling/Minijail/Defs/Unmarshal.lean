import Minijail.Defs.Marshal

/-! `minijail_unmarshal`: the raw struct is copied back and its pointer fields serve only as
signals; each section is then consumed from what is left of the buffer, and an error jumps into
a chain of cleanup labels that fall through to one another. -/

namespace Libminijail

structure Cursor where
  pos : Nat
  len : Nat
  deriving DecidableEq

def Cursor.rest (buf : Nat → UInt8) (c : Cursor) : List UInt8 := window buf c.pos c.len

def consumebytes (length : Nat) (c : Cursor) : Option (Nat × Cursor) :=
  if length > c.len then none else some (c.pos, ⟨c.pos + length, c.len - length⟩)

def cstrAt (buf : Nat → UInt8) (p n : Nat) : CStr :=
  ⟨window buf p (strnlen buf p n), zero_not_mem_window_strnlen p n⟩

def consumestr (buf : Nat → UInt8) (c : Cursor) : Option (CStr × Cursor) :=
  let len := strnlen buf c.pos c.len
  if len = c.len then none
  else (consumebytes (len + 1) c).map fun (p, c') => (cstrAt buf p c.len, c')

structure UState where
  j : Minijail
  mem : Mem
  cur : Cursor

inductive Label where
  | badBindings
  | badFilters
  | badChdir
  | badChrootdir
  | clearPointers
  deriving DecidableEq

/-- How the body ends early: a `goto` with the struct and the heap as they are, or a fault. -/
inductive Exit where
  | goto (l : Label) (j : Minijail) (mem : Mem)
  | fault (mem : Mem)

def unmarshalStr (get : Minijail → Slot CStr) (set : Minijail → Slot CStr → Minijail)
    (bad : Label) (buf : Nat → UInt8) (m : Malloc) (s : UState) : Except Exit UState :=
  if (get s.j).isNull then .ok s
  else match consumestr buf s.cur with
    | none => .error (.goto bad s.j s.mem)
    | some (str, cur) =>
      match s.mem.new m str with
      | (none, mem) => .error (.goto bad (set s.j .null) mem)
      | (some p, mem) => .ok ⟨set s.j (.live p), mem, cur⟩

def unmarshalUser :=
  unmarshalStr Minijail.user (fun j v => { j with user := v }) .clearPointers

def unmarshalChrootdir :=
  unmarshalStr Minijail.chrootdir (fun j v => { j with chrootdir := v }) .badChrootdir

def unmarshalChdir :=
  unmarshalStr Minijail.chdir (fun j v => { j with chdir := v }) .badChdir

def SIZE_MAX : Nat := 2 ^ 64 - 1
def USHRT_MAX : Nat := 65535
def sizeofSockFilter : Nat := 8

/-- The filter section. Neither `malloc` is checked: a `NULL` `filter_prog` faults at the store
of `len`, a `NULL` `filter` at the `memcpy`. -/
def unmarshalFilter (buf : Nat → UInt8) (m : Malloc) (s : UState) : Except Exit UState :=
  if s.j.flags.seccompFilter ∧ 0 < s.j.filterLen.toInt then
    let ninstrs := s.j.filterLen.toNat
    if h : ninstrs > SIZE_MAX / sizeofSockFilter ∨ ninstrs > USHRT_MAX then
      .error (.goto .badFilters s.j s.mem)
    else
      let programLen := ninstrs * sizeofSockFilter
      match consumebytes programLen s.cur with
      | none => .error (.goto .badFilters s.j s.mem)
      | some (program, cur) =>
        match s.mem.alloc m with
        | (none, mem) => .error (.fault mem)
        | (some fp, mem) =>
          match mem.alloc m with
          | (none, mem) => .error (.fault mem)
          | (some f, mem) =>
            let prog : SockFprog :=
              { len := .ofNat 16 ninstrs, filter := ⟨f.1, f.2, window buf program programLen⟩,
                filter_length := by
                  simp only [programLen, ninstrs, length_window, BitVec.toNat_ofNat,
                    sizeofSockFilter, USHRT_MAX] at h ⊢
                  omega }
            .ok ⟨{ s.j with filterProg := .live ⟨fp.1, fp.2, prog⟩ }, mem, cur⟩
  else .ok s

def unmarshalBindings (buf : Nat → UInt8) (m : Malloc) : Nat → UState → Except Exit UState
  | 0, s => .ok s
  | n + 1, s =>
    match consumestr buf s.cur with
    | none => .error (.goto .badBindings s.j s.mem)
    | some (src, cur) =>
      match consumestr buf cur with
      | none => .error (.goto .badBindings s.j s.mem)
      | some (dest, cur) =>
        match consumebytes 4 cur with
        | none => .error (.goto .badBindings s.j s.mem)
        | some (w, cur) =>
          let (j, mem, r) :=
            minijailBind s.j s.mem m src dest (.ofNat 32 (leNat (window buf w 4)))
          if r ≠ 0 then .error (.goto .badBindings j mem)
          else unmarshalBindings buf m n ⟨j, mem, cur⟩

def unmarshalBody (buf : Nat → UInt8) (m : Malloc) (s : UState) : Except Exit UState := do
  let s ← unmarshalUser buf m s
  let s ← unmarshalChrootdir buf m s
  let s ← unmarshalChdir buf m s
  let s ← unmarshalFilter buf m s
  let j := { s.j with metaFile := .null }
  unmarshalBindings buf m j.bindingCount.toInt.toNat { s with j := { j with bindingCount := 0 } }

/-- `if (p) free(p)` on a field that may still hold a stale address: freeing an address this
process never allocated is undefined, and is modelled as a fault. -/
def freeSlot {α : Type} (s : Slot α) (mem : Mem) : Option Mem :=
  match s with
  | .null => some mem
  | .stale _ _ => none
  | .live p => some (mem.free p.addr)

def clearPointers (j : Minijail) (mem : Mem) : Option (Minijail × Mem) :=
  some ({ j with user := .null, chrootdir := .null, chdir := .null }, mem)

def badChrootdir (j : Minijail) (mem : Mem) : Option (Minijail × Mem) :=
  (freeSlot j.user mem).bind (clearPointers j)

def badChdir (j : Minijail) (mem : Mem) : Option (Minijail × Mem) :=
  (freeSlot j.chdir mem).bind (badChrootdir j)

def badFilters (j : Minijail) (mem : Mem) : Option (Minijail × Mem) :=
  (freeSlot j.chrootdir mem).bind (badChdir j)

def badBindings (j : Minijail) (mem : Mem) : Option (Minijail × Mem) :=
  if j.flags.seccompFilter ∧ 0 < j.filterLen.toInt then
    match j.filterProg with
    | .live p => badFilters j ((mem.free p.val.filter.addr).free p.addr)
    | _ => none
  else badFilters j mem

def Label.run : Label → Minijail → Mem → Option (Minijail × Mem)
  | .badBindings => Libminijail.badBindings
  | .badFilters => Libminijail.badFilters
  | .badChdir => Libminijail.badChdir
  | .badChrootdir => Libminijail.badChrootdir
  | .clearPointers => Libminijail.clearPointers

inductive Outcome where
  | ret (j : Minijail) (code : Int)
  | fault

/-- The struct right after `memcpy(j, serialized, sizeof(*j))` and the clearing of the pointers
that are not used as signals. -/
def headerOf (buf : Nat → UInt8) : Minijail :=
  { Minijail.ofRaw (window buf 0 sizeofMinijail) with
    bindingsHead := 0, bindingsTail := 0, filterProg := .null }

def minijailUnmarshal (j : Minijail) (mem : Mem) (m : Malloc) (buf : Nat → UInt8)
    (length : Nat) : Outcome × Mem :=
  if length < sizeofMinijail then (.ret j (-EINVAL), mem)
  else
    match unmarshalBody buf m ⟨headerOf buf, mem, ⟨sizeofMinijail, length - sizeofMinijail⟩⟩ with
    | .ok s => (.ret s.j 0, s.mem)
    | .error (.fault mem) => (.fault, mem)
    | .error (.goto l j mem) =>
      match l.run j mem with
      | some (j, mem) => (.ret j (-EINVAL), mem)
      | none => (.fault, mem)

end Libminijail
