import Minijail.Defs.RoundTrip

/-! The policy pipe of `minijail_run_pid_pipes`. `minijail_to_fd` writes the size of the image as
a `size_t` and then the image; `minijail_from_fd` on the other end reads the size, bounds it by
`USHRT_MAX`, reads that many bytes and unmarshals them. How many bytes each `write` takes and each
`read` hands back is the kernel's choice, so one run of the two ends is one list of choices. -/

namespace Libminijail

def sizeofSizeT : Nat := 8

def pipeWrite (bytes : List UInt8) (k : Nat) : List UInt8 × Nat :=
  (bytes.take k, min k bytes.length)

/-- `minijail_to_fd(j, fd)`, the kernel taking at most `w₁` and `w₂` bytes of the two `write`s:
the result and the bytes that reach the pipe, or `none` when the process faults (the `malloc` of
the buffer is not checked, and `minijail_marshal` writes through a `NULL` one). -/
def minijailToFd (j : Minijail) (mem : Mem) (m : Malloc) (w₁ w₂ : Nat) :
    Option (Int × List UInt8) × Mem :=
  match minijailSize j mem with
  | none => (none, mem)
  | some sz =>
    if sz = 0 then (some (-EINVAL, []), mem) else
    match mem.alloc m with
    | (none, mem) => (none, mem)
    | (some buf, mem) =>
      match minijailMarshal j mem sz with
      | none => (none, mem)
      | some (bytes, r) =>
        if r ≠ 0 then (some (r, []), mem.free buf.1) else
        let (sent₁, written) := pipeWrite (leBytes sizeofSizeT sz) w₁
        if written ≠ sizeofSizeT then (some (-EFAULT, sent₁), mem.free buf.1) else
        let (sent₂, written) := pipeWrite bytes w₂
        if written ≠ sz then (some (-EFAULT, sent₁ ++ sent₂), mem.free buf.1)
        else (some (0, sent₁ ++ sent₂), mem.free buf.1)

def grant (cs : List Nat) (n : Nat) : Nat :=
  match cs with
  | [] => n
  | c :: _ => min n (c + 1)

/-- The read end: the bytes in the pipe, and the kernel's choices for the coming `read`s. A
reader that runs ahead of the writer sees a short `read`, so every interleaving of the two ends
is one list of choices. -/
structure Pipe where
  data : List UInt8
  chunks : List Nat

def Pipe.read (p : Pipe) (n : Nat) : List UInt8 × Pipe :=
  (p.data.take (grant p.chunks n), ⟨p.data.drop (grant p.chunks n), p.chunks.tail⟩)

def Whole (cs : List Nat) (n : Nat) : Prop := grant cs n = n

instance (cs : List Nat) (n : Nat) : Decidable (Whole cs n) :=
  inferInstanceAs (Decidable (grant cs n = n))

def freeAfter (buf : Addr) : Outcome × Mem → Outcome × Mem
  | (.fault, mem) => (.fault, mem)
  | (r, mem) => (r, mem.free buf)

def minijailFromFd (p : Pipe) (j : Minijail) (mem : Mem) (m : Malloc) : Outcome × Mem :=
  let (hdr, p) := p.read sizeofSizeT
  if hdr.length ≠ sizeofSizeT then (.ret j (-EINVAL), mem) else
  let sz := leNat hdr
  if sz > USHRT_MAX then (.ret j (-E2BIG), mem) else
  match mem.alloc m with
  | (none, mem) => (.ret j (-ENOMEM), mem)
  | (some buf, mem) =>
    let (bytes, _) := p.read sz
    if bytes.length ≠ sz then (.ret j (-EINVAL), mem.free buf.1) else
    freeAfter buf.1 (minijailUnmarshal j mem m (fun i => bytes.getD i 0) sz)

@[simp] theorem freeAfter_fst (buf : Addr) (r : Outcome × Mem) : (freeAfter buf r).1 = r.1 := by
  rcases r with ⟨_ | _, _⟩ <;> rfl

@[simp] theorem freeAfter_nulls (buf : Addr) (r : Outcome × Mem) :
    (freeAfter buf r).2.nulls = r.2.nulls := by
  rcases r with ⟨_ | _, _⟩ <;> simp [freeAfter]

theorem freeAfter_of_ret {buf : Addr} {r : Outcome × Mem} {Q : Minijail} {c : Int}
    (h : r.1 = .ret Q c) : freeAfter buf r = (.ret Q c, r.2.free buf) := by
  rcases r with ⟨_ | _, _⟩ <;> cases h; rfl

theorem grant_le (cs : List Nat) (n : Nat) : grant cs n ≤ n := by
  cases cs <;> simp [grant]

theorem Pipe.read_of_whole {p : Pipe} {n : Nat} (h : Whole p.chunks n) :
    p.read n = (p.data.take n, ⟨p.data.drop n, p.chunks.tail⟩) := by
  rw [Pipe.read, show grant p.chunks n = n from h]

theorem Pipe.length_read {p : Pipe} {n : Nat} (h : n ≤ p.data.length) :
    (p.read n).1.length = grant p.chunks n := by
  have := grant_le p.chunks n
  simp only [Pipe.read, List.length_take]
  omega

section ToFd

variable {j : Minijail} {mem : Mem} {m : Malloc} {w₁ w₂ : Nat}

theorem minijailToFd_of_image {img : List UInt8} (himg : image j mem = some img)
    (h0 : img.length ≠ 0) {buf : { a : Addr // a ≠ 0 }} {mem' : Mem}
    (hb : mem.alloc m = (some buf, mem')) (hw₁ : sizeofSizeT ≤ w₁) (hw₂ : img.length ≤ w₂) :
    minijailToFd j mem m w₁ w₂ =
      (some (0, leBytes sizeofSizeT img.length ++ img), mem'.free buf.1) := by
  have hm : minijailMarshal j mem' img.length = some (img, 0) := by
    rw [minijailMarshal_eq, image_congr (Mem.alloc_grows hb).nodes, himg]
    simp
  simp [minijailToFd, minijailSize_eq, himg, h0, hb, hm, pipeWrite, hw₁, hw₂,
    List.take_of_length_le, Nat.min_eq_right]

theorem sent_of_minijailToFd {sent : List UInt8}
    (h : (minijailToFd j mem m w₁ w₂).1 = some (0, sent)) :
    ∃ img, image j mem = some img ∧ sent = leBytes sizeofSizeT img.length ++ img := by
  rcases himg : image j mem with _ | img
  · simp [minijailToFd, minijailSize_eq, himg] at h
  refine ⟨img, rfl, ?_⟩
  have hm : ∀ mem', mem'.nodes = mem.nodes →
      minijailMarshal j mem' img.length = some (img, 0) := fun mem' e => by
    rw [minijailMarshal_eq, image_congr e, himg]
    simp
  rcases Mem.alloc_spec mem m with ⟨b, mem', hb, -, -, g, -⟩ | ⟨mem', hb, -⟩
  · simp only [minijailToFd, minijailSize_eq, himg, Option.map_some', hb, hm mem' g.nodes,
      pipeWrite] at h
    split_ifs at h with h0 hr h1 h2
    · simp [EINVAL] at h
    · exact absurd rfl hr
    · simp [EFAULT] at h
    · simp [EFAULT] at h
    · simp only [length_leBytes, sizeofSizeT] at h1 h2
      simp only [Option.some.injEq, Prod.mk.injEq, true_and] at h
      rw [← h, List.take_of_length_le (by simp [sizeofSizeT]; omega),
        List.take_of_length_le (by omega)]
  · simp only [minijailToFd, minijailSize_eq, himg, Option.map_some', hb] at h
    split_ifs at h
    simp [EINVAL] at h

end ToFd

section FromFd

variable {j : Minijail} {mem : Mem} {m : Malloc} {cs : List Nat}

theorem whole_of_minijailFromFd {n : Nat} {rest : List UInt8} (hn : n < 2 ^ 64)
    (hr : n ≤ rest.length) {Q : Minijail}
    (h : (minijailFromFd ⟨leBytes sizeofSizeT n ++ rest, cs⟩ j mem m).1 = .ret Q 0) :
    n ≤ USHRT_MAX ∧ Whole cs sizeofSizeT ∧ Whole cs.tail n := by
  have hd : leNat (leBytes sizeofSizeT n) = n := by
    rw [leNat_leBytes]; exact Nat.mod_eq_of_lt (by simpa [sizeofSizeT] using hn)
  by_cases hw₁ : Whole cs sizeofSizeT
  swap
  · have : (Pipe.read ⟨leBytes sizeofSizeT n ++ rest, cs⟩ sizeofSizeT).1.length ≠ sizeofSizeT := by
      rw [Pipe.length_read (by simp)]; exact hw₁
    rcases hp : Pipe.read ⟨leBytes sizeofSizeT n ++ rest, cs⟩ sizeofSizeT with ⟨hdr, p⟩
    rw [hp] at this
    simp [minijailFromFd, hp, this, EINVAL] at h
  have h₁ : Pipe.read ⟨leBytes sizeofSizeT n ++ rest, cs⟩ sizeofSizeT =
      (leBytes sizeofSizeT n, ⟨rest, cs.tail⟩) := by
    rw [Pipe.read_of_whole hw₁]
    simp [List.take_left', List.drop_left']
  simp only [minijailFromFd, h₁, length_leBytes, hd, ne_eq, not_true_eq_false, if_false] at h
  by_cases hb : n > USHRT_MAX
  · simp [hb, E2BIG] at h
  rw [if_neg hb] at h
  refine ⟨not_lt.mp hb, hw₁, ?_⟩
  rcases Mem.alloc_spec mem m with ⟨b, mem', ha, -⟩ | ⟨mem', ha, -⟩ <;> rw [ha] at h
  · by_contra hw₂
    have : (Pipe.read ⟨rest, cs.tail⟩ n).1.length ≠ n := by rw [Pipe.length_read hr]; exact hw₂
    simp [this, EINVAL] at h
  · simp [ENOMEM] at h

theorem minijailFromFd_of_whole {n : Nat} {img : List UInt8} (hn : img.length = n)
    (hs : n ≤ USHRT_MAX) (hw₁ : Whole cs sizeofSizeT) (hw₂ : Whole cs.tail n) :
    minijailFromFd ⟨leBytes sizeofSizeT n ++ img, cs⟩ j mem m =
      match mem.alloc m with
      | (none, mem) => (.ret j (-ENOMEM), mem)
      | (some buf, mem) =>
        freeAfter buf.1 (minijailUnmarshal j mem m (fun i => img.getD i 0) n) := by
  have hd : leNat (leBytes sizeofSizeT n) = n := by
    rw [leNat_leBytes]; exact Nat.mod_eq_of_lt (by simp [sizeofSizeT, USHRT_MAX] at hs ⊢; omega)
  have h₁ : Pipe.read ⟨leBytes sizeofSizeT n ++ img, cs⟩ sizeofSizeT =
      (leBytes sizeofSizeT n, ⟨img, cs.tail⟩) := by
    rw [Pipe.read_of_whole hw₁]
    simp [List.take_left', List.drop_left']
  have h₂ : (Pipe.read ⟨img, cs.tail⟩ n).1 = img := by
    rw [Pipe.read_of_whole hw₂, ← hn, List.take_length]
  simp only [minijailFromFd, h₁, length_leBytes, hd, h₂, hn, ne_eq, not_true_eq_false, if_false,
    gt_iff_lt, not_lt.mpr hs]

end FromFd

/-- The policy pipe, for a builder-reachable policy with fewer than `2 ^ 31` bindings. When
`minijail_to_fd` returns `0` it has sent the size of the image and the image. `minijail_from_fd`
on the other end returns `0` only if that size is at most `USHRT_MAX` and the kernel cut neither
of its `read`s short, and then holds a copy of the policy; under those conditions it returns `0`
unless an allocation fails. -/
theorem from_fd_to_fd {mem0 : Mem} {hist : List (Call × Int)} {P : Minijail} {mem : Mem}
    (hb : Built mem0 hist P mem) (hcount : (successfulBinds hist).length < 2 ^ 31)
    {m : Malloc} {w₁ w₂ : Nat} {sent : List UInt8}
    (hto : (minijailToFd P mem m w₁ w₂).1 = some (0, sent)) :
    ∃ img, image P mem = some img ∧ sent = leBytes sizeofSizeT img.length ++ img ∧
      ∀ (cs : List Nat) (j : Minijail) (memR : Mem) (mR : Malloc),
        (∀ Q, (minijailFromFd ⟨sent, cs⟩ j memR mR).1 = .ret Q 0 → img.length < 2 ^ 64 →
          img.length ≤ USHRT_MAX ∧ Whole cs sizeofSizeT ∧ Whole cs.tail img.length ∧
          Copied P mem memR Q (minijailFromFd ⟨sent, cs⟩ j memR mR).2) ∧
        (img.length ≤ USHRT_MAX → Whole cs sizeofSizeT → Whole cs.tail img.length →
          (minijailFromFd ⟨sent, cs⟩ j memR mR).2.nulls = memR.nulls →
          ∃ Q, (minijailFromFd ⟨sent, cs⟩ j memR mR).1 = .ret Q 0) := by
  obtain ⟨img, himg, rfl⟩ := sent_of_minijailToFd hto
  have hbuf : window (fun i => img.getD i 0) 0 img.length = img :=
    window_of_getD fun i _ => by simp
  refine ⟨img, himg, rfl, fun cs j memR mR => ⟨fun Q hQ h64 => ?_, fun hs hw₁ hw₂ hn => ?_⟩⟩
  · obtain ⟨hs, hw₁, hw₂⟩ := whole_of_minijailFromFd h64 le_rfl hQ
    refine ⟨hs, hw₁, hw₂, ?_⟩
    rw [minijailFromFd_of_whole rfl hs hw₁ hw₂] at hQ ⊢
    rcases Mem.alloc_spec memR mR with ⟨b, mem', ha, -, hlive, g, -⟩ | ⟨mem', ha, -⟩ <;>
      simp only [ha] at hQ ⊢
    · rw [freeAfter_fst] at hQ
      rcases unmarshal_image hb hcount himg hbuf j mem' mR with ⟨Q', hQ', hc⟩ | ⟨-, hne⟩
      · obtain rfl : Q' = Q := by rw [hQ'] at hQ; cases hQ; rfl
        rw [freeAfter_of_ret hQ']
        exact (hc.free hlive).of_keeps g.keeps
      · exact absurd hQ (hne Q)
    · simp [ENOMEM] at hQ
  · rw [minijailFromFd_of_whole rfl hs hw₁ hw₂] at hn ⊢
    rcases Mem.alloc_spec memR mR with ⟨b, mem', ha, -, -, -, hn'⟩ | ⟨mem', ha, -, hlt⟩ <;>
      simp only [ha] at hn ⊢
    · rw [freeAfter_nulls] at hn
      rcases unmarshal_image hb hcount himg hbuf j mem' mR with ⟨Q, hQ, -⟩ | ⟨hlt, -⟩
      · exact ⟨Q, by rw [freeAfter_fst, hQ]⟩
      · omega
    · omega

theorem image_rootBinds {n : Nat} {P : Minijail} {mem : Mem}
    (hb : Built emptyMem (rootBinds n) P mem) :
    ∃ img, image P mem = some img ∧ img.length = sizeofMinijail + 8 * n := by
  obtain ⟨L, hL, hc, hp⟩ := hb.inv
  obtain ⟨hu, hcd, hd, hf⟩ := hb.of_binds fun p hp => by
    obtain ⟨-, rfl⟩ := List.mem_replicate.mp hp
    exact ⟨_, _, _, _, rfl⟩
  have hr : L.map (·.2.record) = List.replicate n ⟨rootStr, rootStr, leBytes 4 0⟩ := by
    have : L.map (·.2.record) =
        (L.map (·.2.content)).map fun c => ⟨c.1, c.2.1, leBytes 4 c.2.2.toNat⟩ := by
      simp [Function.comp_def, Binding.record, Binding.content]
    rw [this, hc, successfulBinds_rootBinds]
    simp
  refine ⟨_, image_eq hp hL.bindingList, ?_⟩
  simp [Stream.bytes, Stream.body, policyStream, hu, hcd, hd, filterBytes, hf, hr, Record.bytes,
    List.length_flatMap, rootStr, Nat.mul_comm]

theorem minijailToFd_rootBinds (n : Nat) (hn : 3 * n + 1 < 2 ^ 64) :
    ∃ P mem img memW, Built emptyMem (rootBinds n) P mem ∧ img.length = sizeofMinijail + 8 * n ∧
      minijailToFd P mem bumpMalloc sizeofSizeT (sizeofMinijail + 8 * n) =
        (some (0, leBytes sizeofSizeT img.length ++ img), memW) := by
  obtain ⟨P, mem, hb, hm⟩ := rootBinds_built n (by omega)
  obtain ⟨img, himg, hlen⟩ := image_rootBinds hb
  obtain ⟨a, mem', ha, -⟩ := hm.alloc hn
  exact ⟨P, mem, img, _, hb, hlen,
    minijailToFd_of_image himg (by simp [hlen, sizeofMinijail]) ha le_rfl hlen.le⟩

theorem from_fd_to_fd_rootBinds :
    ∃ P mem sent, Built emptyMem (rootBinds 1) P mem ∧
      (successfulBinds (rootBinds 1)).length < 2 ^ 31 ∧
      (minijailToFd P mem bumpMalloc sizeofSizeT (sizeofMinijail + 8)).1 = some (0, sent) ∧
      ∃ img, image P mem = some img ∧ sent = leBytes sizeofSizeT img.length ++ img ∧
        ∀ (cs : List Nat) (j : Minijail) (memR : Mem) (mR : Malloc),
          (∀ Q, (minijailFromFd ⟨sent, cs⟩ j memR mR).1 = .ret Q 0 → img.length < 2 ^ 64 →
            img.length ≤ USHRT_MAX ∧ Whole cs sizeofSizeT ∧ Whole cs.tail img.length ∧
            Copied P mem memR Q (minijailFromFd ⟨sent, cs⟩ j memR mR).2) ∧
          (img.length ≤ USHRT_MAX → Whole cs sizeofSizeT → Whole cs.tail img.length →
            (minijailFromFd ⟨sent, cs⟩ j memR mR).2.nulls = memR.nulls →
            ∃ Q, (minijailFromFd ⟨sent, cs⟩ j memR mR).1 = .ret Q 0) := by
  obtain ⟨P, mem, img, memW, hb, -, hto⟩ := minijailToFd_rootBinds 1 (by decide)
  have hto' : (minijailToFd P mem bumpMalloc sizeofSizeT (sizeofMinijail + 8)).1 =
      some (0, leBytes sizeofSizeT img.length ++ img) := by rw [hto]
  exact ⟨P, mem, _, hb, by simp [length_successfulBinds_rootBinds], hto',
    from_fd_to_fd hb (by simp [length_successfulBinds_rootBinds]) hto'⟩

/-- The pipe loses policies that `minijail_to_fd` sent. With `8178` bindings the image is `65536`
bytes, the default capacity of a pipe: `minijail_to_fd` returns `0`, and `minijail_from_fd` fails
however the kernel splits the bytes, its bound being `USHRT_MAX`. With `1000` bindings
`minijail_to_fd` returns `0` too, and a `read` of the `8112`-byte image that the kernel cuts at a
page makes `minijail_from_fd` fail. -/
theorem from_fd_rejects_sent :
    (∃ P mem sent memW, Built emptyMem (rootBinds 8178) P mem ∧
      minijailToFd P mem bumpMalloc sizeofSizeT 65536 = (some (0, sent), memW) ∧
      ∀ cs j memR mR Q, (minijailFromFd ⟨sent, cs⟩ j memR mR).1 ≠ .ret Q 0) ∧
    (∃ P mem sent memW, Built emptyMem (rootBinds 1000) P mem ∧
      minijailToFd P mem bumpMalloc sizeofSizeT 8112 = (some (0, sent), memW) ∧
      ∀ j memR mR Q, (minijailFromFd ⟨sent, [7, 4095]⟩ j memR mR).1 ≠ .ret Q 0) := by
  constructor
  · obtain ⟨P, mem, img, memW, hb, hlen, hto⟩ := minijailToFd_rootBinds 8178 (by decide)
    refine ⟨P, mem, _, memW, hb, hto, fun cs j memR mR Q hQ => ?_⟩
    have := (whole_of_minijailFromFd (by simp [hlen, sizeofMinijail]) le_rfl hQ).1
    simp [hlen, sizeofMinijail, USHRT_MAX] at this
  · obtain ⟨P, mem, img, memW, hb, hlen, hto⟩ := minijailToFd_rootBinds 1000 (by decide)
    refine ⟨P, mem, _, memW, hb, hto, fun j memR mR Q hQ => ?_⟩
    have := (whole_of_minijailFromFd (by simp [hlen, sizeofMinijail]) le_rfl hQ).2.2
    simp [hlen, sizeofMinijail, Whole, grant] at this

end Libminijail
