import Minijail.Defs.Grammar

/-! `minijail_marshal` followed by `minijail_unmarshal`: the image of a builder-reachable policy is
a well-formed stream, and unmarshalling it rebuilds the policy as a value, as long as
`binding_count` still reads as the number of bindings. -/

namespace Libminijail

def Binding.record (b : Binding) : Record := ⟨b.src.val, b.dest.val, leBytes 4 b.writeable.toNat⟩

def filterBytes (j : Minijail) : List UInt8 :=
  if j.flags.seccompFilter then (j.filterProg.val?.map (·.filter.val)).getD [] else []

def policyStream (j : Minijail) (L : List (Addr × Binding)) : Stream :=
  ⟨j.raw, j.user.val?, j.chrootdir.val?, j.chdir.val?, filterBytes j, L.map (·.2.record), []⟩

theorem Slot.piece_eq {s : Slot CStr} (h : s.isStale = false) :
    s.piece = some (s.val?.toList.map CStr.withNul) := by
  cases s with
  | null => rfl
  | stale => cases h
  | live p => rfl

theorem filterPiece_eq {j : Minijail} (h : j.filterProg.isStale = false) :
    filterPiece j = some [filterBytes j] ∨ (filterPiece j = some [] ∧ filterBytes j = []) := by
  unfold filterPiece filterBytes
  cases hs : j.flags.seccompFilter
  · exact .inr ⟨rfl, rfl⟩
  · cases hp : j.filterProg with
    | null => exact .inr ⟨rfl, rfl⟩
    | stale => simp [hp, Slot.isStale] at h
    | live p => exact .inl rfl

theorem Binding.flatten_pieces (b : Binding) : b.pieces.flatten = b.record.bytes := by
  simp [Binding.pieces, Binding.record, Record.bytes]

theorem image_eq {j : Minijail} {mem : Mem} {L : List (Addr × Binding)} (hp : PolicyInv j)
    (hL : bindingList j mem = some L) : image j mem = some (policyStream j L).bytes := by
  simp only [image, marshalPieces, Slot.piece_eq hp.user, Slot.piece_eq hp.chrootdir,
    Slot.piece_eq hp.chdirSlot, hL, Option.bind_eq_bind, Option.some_bind, Option.map_some',
    policyStream, Stream.bytes, Stream.body]
  have hb : (L.map (List.flatten ∘ fun x => x.2.pieces)).flatten =
      (L.map (Record.bytes ∘ fun x => x.2.record)).flatten :=
    congrArg List.flatten (List.map_congr_left fun x _ => Binding.flatten_pieces x.2)
  rcases filterPiece_eq hp.filterProg with hf | ⟨hf, hf'⟩
  · simpa [hf, List.flatMap, List.flatten_flatten] using hb
  · simpa [hf, hf', List.flatMap, List.flatten_flatten] using hb

/-- For a builder-reachable policy, `minijail_size` is the length of the stream it describes,
its bindings in the order they were made, and `minijail_marshal` with room for `n` bytes writes
the first `min(n, size)` of them and returns `0` exactly when all fit. -/
theorem marshal_size_truncation {mem0 : Mem} {hist : List (Call × Int)} {P : Minijail} {mem : Mem}
    (hb : Built mem0 hist P mem) :
    ∃ L, bindingList P mem = some L ∧ L.map (·.2.content) = successfulBinds hist ∧
      minijailSize P mem = some (policyStream P L).bytes.length ∧
      ∀ n, minijailMarshal P mem n = some ((policyStream P L).bytes.take n,
          if n < (policyStream P L).bytes.length then 1 else 0) ∧
        ((policyStream P L).bytes.take n).length = min n (policyStream P L).bytes.length := by
  obtain ⟨L, hL, -, hc, hp⟩ := builder_invariant hb
  have himg := image_eq hp hL
  refine ⟨L, hL, hc, by rw [minijailSize_eq, himg]; rfl, fun n => ⟨?_, List.length_take _ _⟩⟩
  rw [minijailMarshal_eq, himg]
  rfl

theorem marshal_size_truncation_oneBind :
    Built emptyMem [(.bind rootStr rootStr 0 bumpMalloc, 0)] oneBind.1 oneBind.2.1 ∧
    ∃ L, bindingList oneBind.1 oneBind.2.1 = some L ∧
      L.map (·.2.content) = successfulBinds [(.bind rootStr rootStr 0 bumpMalloc, 0)] ∧
      minijailSize oneBind.1 oneBind.2.1 = some (policyStream oneBind.1 L).bytes.length ∧
      ∀ n, minijailMarshal oneBind.1 oneBind.2.1 n = some ((policyStream oneBind.1 L).bytes.take n,
          if n < (policyStream oneBind.1 L).bytes.length then 1 else 0) ∧
        ((policyStream oneBind.1 L).bytes.take n).length =
          min n (policyStream oneBind.1 L).bytes.length :=
  ⟨built_oneBind, marshal_size_truncation built_oneBind⟩

theorem Slot.isSome_val? {α β : Type} {s : Slot α} (h : s.isStale = false) :
    s.val?.isSome = !(Slot.ofAddr s.addr : Slot β).isNull := by
  cases s with
  | null => simp
  | stale => cases h
  | live p => simpa using p.addr_ne

theorem toInt_ofNat_of_lt {n : Nat} (h : n < 2 ^ 31) : (BitVec.ofNat 32 n).toInt = n := by
  rw [BitVec.toInt_eq_toNat_cond]
  simp only [BitVec.toNat_ofNat]
  split <;> omega

theorem ofRaw_raw_nil (j : Minijail) :
    Minijail.ofRaw j.raw =
      { j with user := .ofAddr j.user.addr, chrootdir := .ofAddr j.chrootdir.addr,
               chdir := .ofAddr j.chdir.addr, filterProg := .ofAddr j.filterProg.addr,
               metaFile := .ofAddr j.metaFile.addr } := by
  simpa using ofRaw_raw j []

theorem filterBytes_of_policyInv {j : Minijail} (hp : PolicyInv j) :
    (j.FilterAnnounced → j.filterLen.toInt ≤ USHRT_MAX ∧
      (filterBytes j).length = j.filterLen.toNat * sizeofSockFilter) ∧
    (¬j.FilterAnnounced → filterBytes j = []) := by
  have hfl := hp.filterLen
  unfold Minijail.FilterAnnounced filterBytes
  cases hq : j.filterProg with
  | null =>
    simp only [hq, Slot.val?_null, Option.map_none', Option.getD_none] at hfl ⊢
    simp [hfl]
  | stale => have := hp.filterProg; simp [hq, Slot.isStale] at this
  | live p =>
    simp only [hq, Slot.val?_live, Option.map_some', Option.getD_some] at hfl ⊢
    have hlt := p.val.len.isLt
    have hn : j.filterLen.toNat = p.val.len.toNat := by rw [hfl]; simp; omega
    have hi : j.filterLen.toInt = p.val.len.toNat := by
      rw [BitVec.toInt_eq_toNat_cond, hn]; split <;> omega
    have hl := p.val.filter_length
    refine ⟨fun h => ⟨by simp only [USHRT_MAX]; omega, by simp [h.1, hl, hn, sizeofSockFilter,
      Nat.mul_comm]⟩, fun h => ?_⟩
    cases hs : j.flags.seccompFilter
    · rfl
    · simp only [hs, true_and, not_lt, if_true] at h ⊢
      exact List.eq_nil_of_length_eq_zero (by rw [hl]; omega)

theorem policyStream_wellFormed {j : Minijail} {mem : Mem} {L : List (Addr × Binding)}
    (hL : BindingsInv j mem L) (hp : PolicyInv j) (hn : L.length < 2 ^ 31) :
    (policyStream j L).WellFormed := by
  have hh : (policyStream j L).hdr = _ := ofRaw_raw_nil j
  obtain ⟨hf, hf'⟩ := filterBytes_of_policyInv hp
  refine ⟨length_raw j, ?_⟩
  rw [hh]
  refine ⟨Slot.isSome_val? hp.user, Slot.isSome_val? hp.chrootdir, Slot.isSome_val? hp.chdirSlot,
    hf, hf', ?_, ?_⟩
  · simp [policyStream, hL.count, toInt_ofNat_of_lt hn]
  · simp only [policyStream, List.mem_map]
    rintro _ ⟨p, hpL, rfl⟩
    exact ⟨hL.dest p hpL, length_leBytes _ _⟩

/-- `Q` on `memQ` is `P` rebuilt as a value on the receiving heap `memR`: the fields that hold no
address, fresh copies of the strings (`NULL` exactly where `P`'s are), the program when the filter
is announced, the bindings in order, and no meta file. -/
structure Copied (P : Minijail) (mem memR : Mem) (Q : Minijail) (memQ : Mem) : Prop where
  scalars : Q.scalars = P.scalars
  user : FreshCopy memR memQ P.user.val? Q.user
  chrootdir : FreshCopy memR memQ P.chrootdir.val? Q.chrootdir
  chdir : FreshCopy memR memQ P.chdir.val? Q.chdir
  filter : P.FilterAnnounced → ∃ p q : Ptr SockFprog, P.filterProg = .live p ∧
    Q.filterProg = .live q ∧ q.val.filter.val = p.val.filter.val
  bindings : ∃ LP LQ, bindingList P mem = some LP ∧ bindingList Q memQ = some LQ ∧
    LQ.map (·.2.content) = LP.map (·.2.content)
  metaFile : Q.metaFile = .null

theorem Binding.content_record (b : Binding) : b.record.content = b.content := by
  have : b.writeable.toNat % 4294967296 = b.writeable.toNat := Nat.mod_eq_of_lt b.writeable.isLt
  simp [Binding.record, Record.content, Binding.content, leNat_leBytes, this]

theorem copied_of_decoded {P : Minijail} {mem : Mem} {L : List (Addr × Binding)}
    (hL : BindingsInv P mem L) (hp : PolicyInv P) {memR : Mem} {Q : Minijail} {memQ : Mem}
    (hd : (policyStream P L).Decoded memR Q memQ) : Copied P mem memR Q memQ := by
  have hh : (policyStream P L).hdr = _ := ofRaw_raw_nil P
  have hv : (P.flags.vfs || !(L.map (·.2.record)).isEmpty) = P.flags.vfs := by
    cases L with
    | nil => simp
    | cons b L => simp [hL.vfs (List.cons_ne_nil _ _)]
  refine ⟨?_, hd.user, hd.chrootdir, hd.chdir, fun ha => ?_, ?_, hd.metaFile⟩
  · rw [hd.scalars, hh]
    simp only [policyStream, hv, List.length_map, ← hL.count]
    rfl
  · obtain ⟨q, hq, hqf, -⟩ := hd.filter (by rw [hh]; exact ha)
    have hfl := hp.filterLen
    cases hf : P.filterProg with
    | null => simp [Minijail.FilterAnnounced, hf, hfl] at ha
    | stale => have := hp.filterProg; simp [hf, Slot.isStale] at this
    | live p =>
      refine ⟨p, q, rfl, hq, ?_⟩
      rw [hqf]
      simp [policyStream, filterBytes, ha.1, hf]
  · obtain ⟨LQ, hLQ, hc⟩ := hd.bindings
    refine ⟨L, LQ, hL.bindingList, hLQ.bindingList, ?_⟩
    rw [hc]
    simp [policyStream, Function.comp_def, Binding.content_record]

theorem unmarshal_image {mem0 : Mem} {hist : List (Call × Int)} {P : Minijail} {mem : Mem}
    (hb : Built mem0 hist P mem) (hcount : (successfulBinds hist).length < 2 ^ 31)
    {img : List UInt8} (himg : image P mem = some img) {buf : Nat → UInt8}
    (hbuf : window buf 0 img.length = img) (j : Minijail) (memR : Mem) (m : Malloc) :
    (∃ Q, (minijailUnmarshal j memR m buf img.length).1 = .ret Q 0 ∧
      Copied P mem memR Q (minijailUnmarshal j memR m buf img.length).2) ∨
    (memR.nulls < (minijailUnmarshal j memR m buf img.length).2.nulls ∧
      ∀ Q, (minijailUnmarshal j memR m buf img.length).1 ≠ .ret Q 0) := by
  obtain ⟨L, hL, hc, hp⟩ := hb.inv
  have hn : L.length < 2 ^ 31 := by rw [← List.length_map L (·.2.content), hc]; exact hcount
  obtain rfl := Option.some.inj (himg.symm.trans (image_eq hp hL.bindingList))
  rcases unmarshal_complete j memR m (policyStream_wellFormed hL hp hn) hbuf with
    ⟨Q, hQ, hd⟩ | h
  · exact .inl ⟨Q, hQ, copied_of_decoded hL hp hd⟩
  · exact .inr h

theorem Copied.of_keeps {P Q : Minijail} {mem memR₀ memR memQ : Mem} (k : memR₀.Keeps memR)
    (h : Copied P mem memR Q memQ) : Copied P mem memR₀ Q memQ :=
  { h with user := h.user.of_keeps k, chrootdir := h.chrootdir.of_keeps k,
           chdir := h.chdir.of_keeps k }

theorem Copied.free {P Q : Minijail} {mem memR memQ : Mem} {a : Addr} (ha : memR.live a = true)
    (h : Copied P mem memR Q memQ) : Copied P mem memR Q (memQ.free a) :=
  { h with user := h.user.free ha, chrootdir := h.chrootdir.free ha, chdir := h.chdir.free ha,
           bindings := by simpa [bindingList] using h.bindings }

/-- The marshal/unmarshal round trip, for a builder-reachable policy with fewer than `2 ^ 31`
successful `minijail_bind` calls: `minijail_marshal` fills exactly `minijail_size` bytes and
returns `0`, and `minijail_unmarshal` on those bytes, wherever they are held and on whatever heap,
returns `0` with a copy of the policy whenever its allocations succeed. -/
theorem unmarshal_marshal {mem0 : Mem} {hist : List (Call × Int)} {P : Minijail} {mem : Mem}
    (hb : Built mem0 hist P mem) (hcount : (successfulBinds hist).length < 2 ^ 31) :
    ∃ n bytes, minijailSize P mem = some n ∧ minijailMarshal P mem n = some (bytes, 0) ∧
      bytes.length = n ∧
      ∀ buf : Nat → UInt8, window buf 0 n = bytes → ∀ (j : Minijail) (memR : Mem) (m : Malloc),
        (minijailUnmarshal j memR m buf n).2.nulls = memR.nulls →
        ∃ Q, (minijailUnmarshal j memR m buf n).1 = .ret Q 0 ∧
          Copied P mem memR Q (minijailUnmarshal j memR m buf n).2 := by
  obtain ⟨L, hL, -, hp⟩ := hb.inv
  have himg := image_eq hp hL.bindingList
  refine ⟨_, _, by rw [minijailSize_eq, himg]; rfl, minijailMarshal_of_le himg le_rfl, rfl, ?_⟩
  intro buf hbuf j memR m hnulls
  rcases unmarshal_image hb hcount himg hbuf j memR m with h | ⟨hlt, -⟩
  · exact h
  · omega

theorem Built.of_binds {mem0 : Mem} {hist : List (Call × Int)} {j : Minijail} {mem : Mem}
    (h : Built mem0 hist j mem) (hb : ∀ p ∈ hist, ∃ src dest w m, p.1 = .bind src dest w m) :
    j.user = .null ∧ j.chrootdir = .null ∧ j.chdir = .null ∧ j.flags.seccompFilter = false := by
  induction h with
  | new => exact ⟨rfl, rfl, rfl, rfl⟩
  | @call hist j mem c j' mem' r _ hr ih =>
    have ih := ih fun p hp => hb p (List.mem_append_left _ hp)
    obtain ⟨src, dest, w, m, rfl⟩ := hb (c, r) (by simp)
    have hr' : minijailBind j mem m src dest w = (j', mem', r) := by simpa [Call.run] using hr
    rcases minijailBind_cases hr' with ⟨-, rfl, -⟩ | ⟨-, -, _, _, -, -, -, -, -, -, rfl⟩
    · exact ih
    · exact ih

theorem unmarshal_of_bare {buf : Nat → UInt8} {L : Nat} (j : Minijail) (mem : Mem) (m : Malloc)
    (hL : ¬L < sizeofMinijail) (hu : (headerOf buf).user = .null)
    (hc : (headerOf buf).chrootdir = .null) (hd : (headerOf buf).chdir = .null)
    (hf : ¬(headerOf buf).FilterAnnounced) (hb : (headerOf buf).bindingCount.toInt ≤ 0) :
    ∃ Q, minijailUnmarshal j mem m buf L = (.ret Q 0, mem) ∧ Q.bindingsHead = 0 := by
  have h0 : (headerOf buf).bindingCount.toInt.toNat = 0 := by omega
  simp only [Minijail.FilterAnnounced] at hf
  rw [minijailUnmarshal_eq hL]
  simp only [unmarshalBody, bodyStart, unmarshalUser, unmarshalChrootdir, unmarshalChdir,
    unmarshalStr, unmarshalFilter, hu, hc, hd, hf, Slot.isNull_null, if_true, if_false, bind,
    Except.bind, h0, unmarshalBindings]
  exact ⟨_, rfl, rfl⟩

theorem Slot.ofAddr_zero {α : Type} : (Slot.ofAddr 0 : Slot α) = .null := by simp [Slot.ofAddr]

/-- With `2 ^ 31` bindings, `binding_count` reads as negative: the unmarshaller takes none of the
records the marshaller wrote, without allocating anything, and returns `0` with an empty binding
list. -/
theorem unmarshal_marshal_loses_bindings :
    ∃ P mem LP n bytes, Built emptyMem (rootBinds (2 ^ 31)) P mem ∧ bindingList P mem = some LP ∧
      LP.length = 2 ^ 31 ∧ minijailSize P mem = some n ∧
      minijailMarshal P mem n = some (bytes, 0) ∧
      ∀ buf : Nat → UInt8, window buf 0 n = bytes → ∀ (j : Minijail) (memR : Mem) (m : Malloc),
        ∃ Q, minijailUnmarshal j memR m buf n = (.ret Q 0, memR) ∧ bindingList Q memR = some [] := by
  obtain ⟨P, mem, hb, -⟩ := rootBinds_built (2 ^ 31) (by decide)
  obtain ⟨L, hL, hc, hp⟩ := hb.inv
  have hlen : L.length = 2 ^ 31 := by
    simpa using (congrArg List.length hc).trans (length_successfulBinds_rootBinds _)
  obtain ⟨hu, hcd, hd, hf⟩ := hb.of_binds fun p hp => by
    obtain ⟨-, rfl⟩ := List.mem_replicate.mp hp
    exact ⟨_, _, _, _, rfl⟩
  have himg := image_eq hp hL.bindingList
  refine ⟨P, mem, L, _, _, hb, hL.bindingList, hlen, by rw [minijailSize_eq, himg]; rfl,
    minijailMarshal_of_le himg le_rfl, fun buf hbuf j memR m => ?_⟩
  have hhd : headerOf buf = { Minijail.ofRaw P.raw with
      bindingsHead := 0, bindingsTail := 0, filterProg := .null } := by
    have := (window_eq_append (hbuf.trans rfl : window buf 0 _ = P.raw ++ _)).1
    rw [length_raw] at this
    rw [headerOf, this]
  have hL' : ¬(policyStream P L).bytes.length < sizeofMinijail := by
    simp [Stream.bytes, policyStream]
  obtain ⟨Q, hQ, hQh⟩ := unmarshal_of_bare j memR m hL'
    (by rw [hhd, ofRaw_raw_nil, hu]; exact Slot.ofAddr_zero)
    (by rw [hhd, ofRaw_raw_nil, hcd]; exact Slot.ofAddr_zero)
    (by rw [hhd, ofRaw_raw_nil, hd]; exact Slot.ofAddr_zero)
    (by rw [hhd, ofRaw_raw_nil]; simp [Minijail.FilterAnnounced, hf])
    (by rw [hhd, ofRaw_raw_nil]; simp only [hL.count, hlen]; decide)
  exact ⟨Q, hQ, by simp [bindingList, walk, hQh]⟩

theorem unmarshal_marshal_oneBind :
    Built emptyMem [(.bind rootStr rootStr 0 bumpMalloc, 0)] oneBind.1 oneBind.2.1 ∧
    (successfulBinds [(.bind rootStr rootStr 0 bumpMalloc, 0)]).length < 2 ^ 31 ∧
    ∃ n bytes, minijailSize oneBind.1 oneBind.2.1 = some n ∧
      minijailMarshal oneBind.1 oneBind.2.1 n = some (bytes, 0) ∧ bytes.length = n ∧
      ∀ buf : Nat → UInt8, window buf 0 n = bytes → ∀ (j : Minijail) (memR : Mem) (m : Malloc),
        (minijailUnmarshal j memR m buf n).2.nulls = memR.nulls →
        ∃ Q, (minijailUnmarshal j memR m buf n).1 = .ret Q 0 ∧
          Copied oneBind.1 oneBind.2.1 memR Q (minijailUnmarshal j memR m buf n).2 :=
  ⟨built_oneBind, by decide, unmarshal_marshal built_oneBind (by decide)⟩

end Libminijail

namespace Libminijail

/-- Two policies equal as values: the same fields that hold no address, strings, filter program
and bindings in order, and a meta file on both or on neither. -/
structure SameValue (P₁ : Minijail) (mem₁ : Mem) (P₂ : Minijail) (mem₂ : Mem) : Prop where
  scalars : P₁.scalars = P₂.scalars
  user : P₁.user.val? = P₂.user.val?
  chrootdir : P₁.chrootdir.val? = P₂.chrootdir.val?
  chdir : P₁.chdir.val? = P₂.chdir.val?
  filter : P₁.filterProg.val?.map (·.filter.val) = P₂.filterProg.val?.map (·.filter.val)
  bindings : ∃ L₁ L₂, bindingList P₁ mem₁ = some L₁ ∧ bindingList P₂ mem₂ = some L₂ ∧
    L₁.map (·.2.content) = L₂.map (·.2.content)
  metaFile : P₁.metaFile.isNull = P₂.metaFile.isNull

def Slot.mask {α : Type} (s : Slot α) : Slot α := if s.isNull then .null else .ofAddr 1

def Minijail.maskAddrs (j : Minijail) : Minijail :=
  { j with user := j.user.mask, chrootdir := j.chrootdir.mask, chdir := j.chdir.mask,
           filterProg := j.filterProg.mask, metaFile := j.metaFile.mask,
           bindingsHead := if j.bindingsHead = 0 then 0 else 1,
           bindingsTail := if j.bindingsTail = 0 then 0 else 1 }

theorem Slot.isNull_eq_of_val? {α : Type} {s t : Slot α} (hs : s.isStale = false)
    (ht : t.isStale = false) (h : s.val?.isSome = t.val?.isSome) : s.isNull = t.isNull := by
  cases s <;> cases t <;> simp_all [Slot.isStale, Slot.val?, Slot.isNull]

theorem Chain.ne_zero {nodes : Addr → Option Binding} {a : Addr} {p : Addr × Binding}
    {L : List (Addr × Binding)} (h : Chain nodes a (p :: L)) : a ≠ 0 := by
  cases h with | cons ha _ _ => exact ha

theorem BindingsInv.head_eq_zero_iff {j : Minijail} {mem : Mem} {L : List (Addr × Binding)}
    (h : BindingsInv j mem L) : j.bindingsHead = 0 ↔ L = [] := by
  have hc := h.chain
  cases L with
  | nil => exact ⟨fun _ => rfl, fun _ => hc.head_eq_zero⟩
  | cons p L => exact ⟨fun h0 => absurd h0 hc.ne_zero, fun h => by cases h⟩

theorem BindingsInv.tail_eq_zero_iff {j : Minijail} {mem : Mem} {L : List (Addr × Binding)}
    (h : BindingsInv j mem L) : j.bindingsTail = 0 ↔ L = [] := by
  rcases h.tail with ⟨rfl, ht⟩ | ⟨L₀, b, rfl⟩
  · exact ⟨fun _ => rfl, fun _ => ht⟩
  · have := (h.chain.last).1
    simpa using this

def highMalloc : Malloc := ⟨fun mem => some (BitVec.ofNat 64 (mem.ticks + 4096))⟩

def oneBindHigh : Minijail × Mem × Int :=
  minijailBind minijailNew emptyMem highMalloc rootStr rootStr 0

theorem built_oneBindHigh :
    Built emptyMem [(.bind rootStr rootStr 0 highMalloc, 0)] oneBindHigh.1 oneBindHigh.2.1 :=
  Built.new.call (c := .bind rootStr rootStr 0 highMalloc) (r := 0) rfl

theorem sameValue_oneBind : SameValue oneBind.1 oneBind.2.1 oneBindHigh.1 oneBindHigh.2.1 := by
  obtain ⟨L₁, hL₁, hc₁, -⟩ := built_oneBind.inv
  obtain ⟨L₂, hL₂, hc₂, -⟩ := built_oneBindHigh.inv
  have e : successfulBinds [(.bind rootStr rootStr 0 highMalloc, 0)] =
      successfulBinds [(.bind rootStr rootStr 0 bumpMalloc, 0)] := by simp [successfulBinds]
  exact ⟨by decide, by decide, by decide, by decide, by decide,
    ⟨L₁, L₂, hL₁.bindingList, hL₂.bindingList, hc₁.trans (hc₂.trans e).symm⟩, by decide⟩

end Libminijail
