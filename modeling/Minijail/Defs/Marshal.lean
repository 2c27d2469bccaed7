import Minijail.Defs.Policy
import Mathlib.Data.Nat.Bits

/-! `minijail_marshal`: the raw bytes of `struct minijail` (pointer fields and all), then the
strings, the filter program and the bindings, each through `marshal_append`. -/

namespace Libminijail

def Flags.bits (f : Flags) : List Bool :=
  [f.uid, f.gid, f.caps, f.vfs, f.pids, f.net, f.seccomp, f.readonly, f.usergroups, f.ptrace,
   f.noNewPrivs, f.seccompFilter, f.logSeccompFilter, f.chroot, f.mountTmp, f.chdir, f.stackLimit,
   f.timeLimit, f.outputLimit, f.memoryLimit, f.metaFile]

def bitsNat : List Bool → Nat
  | [] => 0
  | b :: bs => Nat.bit b (bitsNat bs)

def Flags.ofNat (n : Nat) : Flags where
  uid := n.testBit 0
  gid := n.testBit 1
  caps := n.testBit 2
  vfs := n.testBit 3
  pids := n.testBit 4
  net := n.testBit 5
  seccomp := n.testBit 6
  readonly := n.testBit 7
  usergroups := n.testBit 8
  ptrace := n.testBit 9
  noNewPrivs := n.testBit 10
  seccompFilter := n.testBit 11
  logSeccompFilter := n.testBit 12
  chroot := n.testBit 13
  mountTmp := n.testBit 14
  chdir := n.testBit 15
  stackLimit := n.testBit 16
  timeLimit := n.testBit 17
  outputLimit := n.testBit 18
  memoryLimit := n.testBit 19
  metaFile := n.testBit 20

theorem testBit_bitsNat (bs : List Bool) (i : Nat) : (bitsNat bs).testBit i = bs.getD i false := by
  induction bs generalizing i with
  | nil => simp [bitsNat]
  | cons b bs ih => cases i <;> simp [bitsNat, Nat.testBit_bit_zero, Nat.testBit_bit_succ, ih]

theorem bitsNat_lt (bs : List Bool) : bitsNat bs < 2 ^ bs.length := by
  induction bs with
  | nil => simp [bitsNat]
  | cons b bs ih => cases b <;> simp [bitsNat, Nat.bit, pow_succ] <;> omega

theorem Flags.ofNat_bitsNat (f : Flags) : Flags.ofNat (bitsNat f.bits) = f := by
  simp only [Flags.ofNat, testBit_bitsNat]; rfl

/-- Widths in bytes of the fields of `struct minijail` on x86-64, with the four bytes of padding
before `chrootdir`. -/
def headerLayout : List Nat := [4, 4, 4, 4, 8, 8, 4, 4, 4, 4, 8, 8, 8, 8, 8, 4, 4, 4, 4, 8]

def sizeofMinijail : Nat := 112

def Minijail.fields (j : Minijail) : List Nat :=
  [bitsNat j.flags.bits, j.uid.toNat, j.gid.toNat, j.usergid.toNat, j.user.addr.toNat, j.caps.toNat,
   j.initpid.toNat, j.filterLen.toNat, j.bindingCount.toNat, 0, j.chrootdir.addr.toNat,
   j.chdir.addr.toNat, j.filterProg.addr.toNat, j.bindingsHead.toNat, j.bindingsTail.toNat,
   j.stackLimit.toNat, j.timeLimit.toNat, j.memoryLimit.toNat, j.outputLimit.toNat,
   j.metaFile.addr.toNat]

def encodeFields : List (Nat × Nat) → List UInt8
  | [] => []
  | (w, v) :: fs => leBytes w v ++ encodeFields fs

def decodeFields : List Nat → List UInt8 → List Nat
  | [], _ => []
  | w :: ws, bs => leNat (bs.take w) :: decodeFields ws (bs.drop w)

def Minijail.raw (j : Minijail) : List UInt8 := encodeFields (headerLayout.zip j.fields)

/-- The struct `memcpy(j, bytes, sizeof(*j))` leaves: every non-`NULL` pointer is an address of
the process the bytes came from. -/
@[irreducible] def Minijail.ofRaw (bs : List UInt8) : Minijail :=
  let v := fun i => (decodeFields headerLayout bs).getD i 0
  { flags := Flags.ofNat (v 0), uid := .ofNat 32 (v 1), gid := .ofNat 32 (v 2),
    usergid := .ofNat 32 (v 3), user := .ofAddr (.ofNat 64 (v 4)), caps := .ofNat 64 (v 5),
    initpid := .ofNat 32 (v 6), filterLen := .ofNat 32 (v 7), bindingCount := .ofNat 32 (v 8),
    chrootdir := .ofAddr (.ofNat 64 (v 10)), chdir := .ofAddr (.ofNat 64 (v 11)),
    filterProg := .ofAddr (.ofNat 64 (v 12)), bindingsHead := .ofNat 64 (v 13),
    bindingsTail := .ofNat 64 (v 14), stackLimit := .ofNat 32 (v 15),
    timeLimit := .ofNat 32 (v 16), memoryLimit := .ofNat 32 (v 17),
    outputLimit := .ofNat 32 (v 18), metaFile := .ofAddr (.ofNat 64 (v 19)) }

theorem decodeFields_encodeFields (fs : List (Nat × Nat)) (rest : List UInt8) :
    decodeFields (fs.map Prod.fst) (encodeFields fs ++ rest) = fs.map fun f => f.2 % 256 ^ f.1 := by
  induction fs with
  | nil => rfl
  | cons f fs ih =>
    simp only [List.map_cons, decodeFields, encodeFields, List.append_assoc,
      List.take_left' (length_leBytes _ _), List.drop_left' (length_leBytes _ _), leNat_leBytes, ih]

@[simp] theorem length_encodeFields (fs : List (Nat × Nat)) :
    (encodeFields fs).length = (fs.map Prod.fst).foldr (· + ·) 0 := by
  induction fs with
  | nil => rfl
  | cons f fs ih => simp only [encodeFields, List.length_append, length_leBytes, List.map_cons, List.foldr_cons, ih]

@[simp] theorem length_raw (j : Minijail) : j.raw.length = sizeofMinijail := by
  simp [Minijail.raw, Minijail.fields, headerLayout, sizeofMinijail]

theorem fields_lt (j : Minijail) : ∀ f ∈ headerLayout.zip j.fields, f.2 < 256 ^ f.1 := by
  have h32 : ∀ x : BitVec 32, x.toNat < 256 ^ 4 := fun x => lt_of_lt_of_le x.isLt (by decide)
  have h64 : ∀ x : BitVec 64, x.toNat < 256 ^ 8 := fun x => lt_of_lt_of_le x.isLt (by decide)
  have hf : bitsNat j.flags.bits < 256 ^ 4 :=
    lt_of_lt_of_le (bitsNat_lt _) (show 2 ^ 21 ≤ 256 ^ 4 by decide)
  simp only [headerLayout, Minijail.fields, List.zip_cons_cons, List.zip_nil_right,
    List.mem_cons, List.not_mem_nil, or_false, forall_eq_or_imp, forall_eq]
  exact ⟨hf, h32 _, h32 _, h32 _, h64 _, h64 _, h32 _, h32 _, h32 _, by decide, h64 _, h64 _,
    h64 _, h64 _, h64 _, h32 _, h32 _, h32 _, h32 _, h64 _⟩

theorem decodeFields_raw (j : Minijail) (rest : List UInt8) :
    decodeFields headerLayout (j.raw ++ rest) = j.fields := by
  have hl : (headerLayout.zip j.fields).map Prod.fst = headerLayout :=
    List.map_fst_zip _ _ (by simp [headerLayout, Minijail.fields])
  have h := decodeFields_encodeFields (headerLayout.zip j.fields) rest
  rw [hl] at h
  rw [Minijail.raw, h, List.map_congr_left fun f hf => Nat.mod_eq_of_lt (fields_lt j f hf)]
  exact List.map_snd_zip _ _ (by simp [headerLayout, Minijail.fields])

theorem ofRaw_raw (j : Minijail) (rest : List UInt8) :
    Minijail.ofRaw (j.raw ++ rest) =
      { j with user := .ofAddr j.user.addr, chrootdir := .ofAddr j.chrootdir.addr,
               chdir := .ofAddr j.chdir.addr, filterProg := .ofAddr j.filterProg.addr,
               metaFile := .ofAddr j.metaFile.addr } := by
  simp only [Minijail.ofRaw, decodeFields_raw, Minijail.fields, List.getD_cons_zero,
    List.getD_cons_succ, Flags.ofNat_bitsNat, BitVec.ofNat_toNat, BitVec.setWidth_eq]

structure MarshalState where
  available : Nat
  total : Nat
  /-- The bytes written so far, from the start of the output buffer. -/
  buf : List UInt8

def marshalAppend (st : MarshalState) (src : List UInt8) : MarshalState :=
  let copyLen := min st.available src.length
  { available := st.available - copyLen, total := st.total + src.length,
    buf := st.buf ++ src.take copyLen }

def Slot.piece : Slot CStr → Option (List (List UInt8))
  | .null => some []
  | .stale _ _ => none
  | .live p => some [p.val.withNul]

def filterPiece (j : Minijail) : Option (List (List UInt8)) :=
  if j.flags.seccompFilter then
    match j.filterProg with
    | .null => some []
    | .stale _ _ => none
    | .live p => some [p.val.filter.val]
  else some []

def Binding.pieces (b : Binding) : List (List UInt8) :=
  [b.src.val.withNul, b.dest.val.withNul, leBytes 4 b.writeable.toNat]

/-- The buffers `minijail_marshal_helper` hands to `marshal_append`, in order; `none` when it
would read through a pointer it does not own or the binding loop does not end. -/
def marshalPieces (j : Minijail) (mem : Mem) : Option (List (List UInt8)) := do
  let user ← j.user.piece
  let chrootdir ← j.chrootdir.piece
  let chdir ← j.chdir.piece
  let filter ← filterPiece j
  let L ← bindingList j mem
  return [j.raw] ++ user ++ chrootdir ++ chdir ++ filter ++ L.flatMap (·.2.pieces)

def minijailMarshalHelper (st : MarshalState) (j : Minijail) (mem : Mem) : Option MarshalState :=
  (marshalPieces j mem).map (·.foldl marshalAppend st)

def minijailSize (j : Minijail) (mem : Mem) : Option Nat :=
  (minijailMarshalHelper ⟨0, 0, []⟩ j mem).map (·.total)

def minijailMarshal (j : Minijail) (mem : Mem) (available : Nat) : Option (List UInt8 × Int) :=
  (minijailMarshalHelper ⟨available, 0, []⟩ j mem).map fun st =>
    (st.buf, if st.total > available then 1 else 0)

def image (j : Minijail) (mem : Mem) : Option (List UInt8) := (marshalPieces j mem).map List.flatten

theorem foldl_marshalAppend (pieces : List (List UInt8)) (st : MarshalState) :
    pieces.foldl marshalAppend st =
      { available := st.available - min st.available pieces.flatten.length,
        total := st.total + pieces.flatten.length,
        buf := st.buf ++ pieces.flatten.take st.available } := by
  induction pieces generalizing st with
  | nil => simp
  | cons p ps ih =>
    simp only [List.foldl_cons, ih, marshalAppend, List.flatten_cons, List.length_append,
      List.take_append_eq_append_take, List.append_assoc]
    simp only [MarshalState.mk.injEq]
    refine ⟨by omega, by omega, ?_⟩
    congr 2
    · rw [← List.take_take, List.take_of_length_le le_rfl]
    · congr 1; omega

theorem minijailSize_eq (j : Minijail) (mem : Mem) :
    minijailSize j mem = (image j mem).map List.length := by
  simp only [minijailSize, minijailMarshalHelper, image, Option.map_map]
  congr 1; funext ps; simp [foldl_marshalAppend]

theorem minijailMarshal_eq (j : Minijail) (mem : Mem) (n : Nat) :
    minijailMarshal j mem n =
      (image j mem).map fun img => (img.take n, if img.length > n then 1 else 0) := by
  simp only [minijailMarshal, minijailMarshalHelper, image, Option.map_map]
  congr 1; funext ps; simp [foldl_marshalAppend]

theorem image_congr {j : Minijail} {mem mem' : Mem} (h : mem'.nodes = mem.nodes) :
    image j mem' = image j mem := by
  simp only [image, marshalPieces, bindingList, h]

theorem minijailMarshal_of_le {j : Minijail} {mem : Mem} {img : List UInt8}
    (h : image j mem = some img) {n : Nat} (hn : img.length ≤ n) :
    minijailMarshal j mem n = some (img, 0) := by
  simp only [image, Option.map_eq_some'] at h
  obtain ⟨ps, hps, rfl⟩ := h
  have hn' : (ps.map List.length).sum ≤ n := by simpa using hn
  simp [minijailMarshal, minijailMarshalHelper, hps, foldl_marshalAppend, List.take_of_length_le hn,
    hn']

end Libminijail
