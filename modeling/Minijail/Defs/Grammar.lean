import Minijail.Defs.UnmarshalLaws

/-! The byte strings `minijail_unmarshal` accepts: the raw struct, a string for each string
field the struct leaves non-`NULL`, the filter program when the struct announces one,
`binding_count` records, and anything after. From such a stream the unmarshaller builds exactly
what the stream describes, unless an allocation fails. -/

namespace Libminijail

structure Stream where
  header : List UInt8
  user : Option CStr
  chrootdir : Option CStr
  chdir : Option CStr
  filter : List UInt8
  records : List Record
  tail : List UInt8

namespace Stream

def hdr (s : Stream) : Minijail := Minijail.ofRaw s.header

def body (s : Stream) : List UInt8 :=
  s.user.toList.flatMap CStr.withNul ++ (s.chrootdir.toList.flatMap CStr.withNul ++
    (s.chdir.toList.flatMap CStr.withNul ++ (s.filter ++ (s.records.flatMap Record.bytes ++ s.tail))))

def bytes (s : Stream) : List UInt8 := s.header ++ s.body

/-- The sections after the header are those the struct `h` announces: a string for each
non-`NULL` string field, a program of `filter_len` instructions (at most `USHRT_MAX`) when the
filter is announced, and `max(binding_count, 0)` valid records. -/
structure Fits (s : Stream) (h : Minijail) : Prop where
  user : s.user.isSome = !h.user.isNull
  chrootdir : s.chrootdir.isSome = !h.chrootdir.isNull
  chdir : s.chdir.isSome = !h.chdir.isNull
  filter : h.FilterAnnounced →
    h.filterLen.toInt ≤ USHRT_MAX ∧ s.filter.length = h.filterLen.toNat * sizeofSockFilter
  noFilter : ¬h.FilterAnnounced → s.filter = []
  records : s.records.length = h.bindingCount.toInt.toNat
  valid : ∀ r ∈ s.records, r.Valid

structure WellFormed (s : Stream) : Prop where
  header : s.header.length = sizeofMinijail
  fits : s.Fits s.hdr

end Stream

def Accepted (B : List UInt8) : Prop := ∃ s : Stream, s.WellFormed ∧ s.bytes = B

def Minijail.scalars (j : Minijail) : Minijail :=
  { flags := j.flags, uid := j.uid, gid := j.gid, usergid := j.usergid, caps := j.caps,
    initpid := j.initpid, filterLen := j.filterLen, bindingCount := j.bindingCount,
    stackLimit := j.stackLimit, timeLimit := j.timeLimit, memoryLimit := j.memoryLimit,
    outputLimit := j.outputLimit }

/-- What unmarshalling the stream `s` on the heap `mem` leaves: the header's fields (with `vfs`
raised by the bindings), fresh copies of the strings, the filter program, one node per record in
order, and a `NULL` meta file. -/
structure Stream.Decoded (s : Stream) (mem : Mem) (Q : Minijail) (memQ : Mem) : Prop where
  scalars : Q.scalars = { s.hdr.scalars with
    flags := { s.hdr.flags with vfs := s.hdr.flags.vfs || !s.records.isEmpty },
    bindingCount := .ofNat 32 s.records.length }
  user : FreshCopy mem memQ s.user Q.user
  chrootdir : FreshCopy mem memQ s.chrootdir Q.chrootdir
  chdir : FreshCopy mem memQ s.chdir Q.chdir
  filter : s.hdr.FilterAnnounced → ∃ q : Ptr SockFprog, Q.filterProg = .live q ∧
    q.val.filter.val = s.filter ∧ q.val.len.toNat = s.hdr.filterLen.toNat
  noFilter : ¬s.hdr.FilterAnnounced → Q.filterProg = .null
  bindings : ∃ L, BindingsInv Q memQ L ∧ L.map (·.2.content) = s.records.map Record.content
  metaFile : Q.metaFile = .null
  keeps : mem.Keeps memQ
  nulls : memQ.nulls = mem.nulls

theorem BindingsInv.empty {j : Minijail} {mem : Mem} (hh : j.bindingsHead = 0)
    (ht : j.bindingsTail = 0) (hc : j.bindingCount = 0) : BindingsInv j mem [] :=
  ⟨hh ▸ .nil, by simp, by simp, .inl ⟨rfl, ht⟩, hc, by simp, by simp⟩

section Body

variable {buf : Nat → UInt8} {m : Malloc}

theorem unmarshalBody_complete {s : Stream} (hw : s.Fits s.hdr) {u : UState}
    (hj : u.j = { s.hdr with bindingsHead := 0, bindingsTail := 0, filterProg := .null })
    (hr : u.cur.rest buf = s.body) :
    (∃ u', unmarshalBody buf m u = .ok u' ∧ s.Decoded u.mem u'.j u'.mem ∧
      u'.cur.rest buf = s.tail ∧ u'.cur.stop = u.cur.stop) ∨
    (∃ e, unmarshalBody buf m u = .error e ∧ u.mem.Keeps e.mem ∧ u.mem.nulls < e.mem.nulls) := by
  obtain ⟨hu, hc, hd, hf, hf', hn, hv⟩ := hw
  obtain ⟨j0, mem0, c0⟩ := u
  subst hj
  rcases unmarshalStr_complete Minijail.user (fun j v => { j with user := v }) .clearPointers
      (m := m) rfl hu hr with
    ⟨q1, ⟨j1, mem1, c1⟩, h1, hj1, f1, r1, t1, g1, n1⟩ | ⟨e, h1, g1, n1⟩
  swap
  · exact .inr ⟨e, by simp only [unmarshalBody, unmarshalUser, h1, bind, Except.bind], g1.keeps, n1⟩
  rcases unmarshalStr_complete Minijail.chrootdir (fun j v => { j with chrootdir := v })
      .badChrootdir (m := m) rfl (by rw [hj1]; simpa using hc) r1 with
    ⟨q2, ⟨j2, mem2, c2⟩, h2, hj2, f2, r2, t2, g2, n2⟩ | ⟨e, h2, g2, n2⟩
  swap
  · exact .inr ⟨e, by simp only [unmarshalBody, unmarshalUser, unmarshalChrootdir, h1, h2, bind,
      Except.bind], (g1.trans g2).keeps, n1 ▸ n2⟩
  rcases unmarshalStr_complete Minijail.chdir (fun j v => { j with chdir := v }) .badChdir
      (m := m) rfl (by rw [hj2, hj1]; simpa using hd) r2 with
    ⟨q3, ⟨j3, mem3, c3⟩, h3, hj3, f3, r3, t3, g3, n3⟩ | ⟨e, h3, g3, n3⟩
  swap
  · exact .inr ⟨e, by simp only [unmarshalBody, unmarshalUser, unmarshalChrootdir, unmarshalChdir,
      h1, h2, h3, bind, Except.bind], (g1.trans (g2.trans g3)).keeps, n1 ▸ n2 ▸ n3⟩
  rcases unmarshalFilter_complete (m := m) (by rw [hj3, hj2, hj1]; simpa using hf)
      (by rw [hj3, hj2, hj1]; simpa using hf') r3 with
    ⟨⟨j4, mem4, c4⟩, h4, r4, t4, fa4, fn4, g4, n4⟩ | ⟨e, h4, g4, n4⟩
  swap
  · exact .inr ⟨e, by simp only [unmarshalBody, unmarshalUser, unmarshalChrootdir, unmarshalChdir,
      h1, h2, h3, h4, bind, Except.bind], (g1.trans (g2.trans (g3.trans g4))).keeps,
      n1 ▸ n2 ▸ n3 ▸ n4⟩
  have e3 : j3 = { s.hdr with
      bindingsHead := 0, bindingsTail := 0, filterProg := .null, user := q1, chrootdir := q2,
      chdir := q3 } := by simp only at hj1 hj2 hj3; rw [hj3, hj2, hj1]
  subst e3
  obtain ⟨fp4, rfl⟩ : ∃ fp, j4 = { s.hdr with
      bindingsHead := 0, bindingsTail := 0, filterProg := fp, user := q1, chrootdir := q2,
      chdir := q3 } := by
    by_cases ha : s.hdr.FilterAnnounced
    · obtain ⟨q, hq, -⟩ := fa4 ha
      exact ⟨_, hq⟩
    · exact ⟨_, fn4 ha⟩
  set j5 : Minijail := { s.hdr with
    bindingsHead := 0, bindingsTail := 0, filterProg := fp4, user := q1, chrootdir := q2,
    chdir := q3, metaFile := .null, bindingCount := 0 }
  rcases unmarshalBindings_complete hv (m := m) (s := ⟨j5, mem4, c4⟩)
      r4 (BindingsInv.empty rfl rfl rfl) with
    ⟨⟨Q, memQ, cQ⟩, L', h5, r5, t5, hL', hc', ⟨hd', tl', cnt', rfl⟩, k5, n5⟩ | ⟨e, h5, k5, n5⟩
  · have hlen : L'.length = s.records.length := by simpa using congrArg List.length hc'
    have hcnt : cnt' = .ofNat 32 s.records.length := hlen ▸ hL'.count
    have k4 : mem4.Keeps memQ := k5
    have k1 : mem1.Keeps memQ := g2.keeps.trans (g3.keeps.trans (g4.keeps.trans k4))
    refine .inl ⟨_, ?_, ?_, r5, t5.trans (t4.trans (t3.trans (t2.trans t1)))⟩
    · simp only [unmarshalBody, unmarshalUser, unmarshalChrootdir, unmarshalChdir, h1, h2, h3, h4,
        bind, Except.bind, ← hn]
      exact h5
    refine ⟨by rw [hcnt]; rfl, f1.keeps k1, (f2.keeps (g3.keeps.trans (g4.keeps.trans k4))).of_keeps
      g1.keeps, (f3.keeps (g4.keeps.trans k4)).of_keeps (g1.trans g2).keeps, fun ha => ?_,
      fun ha => congrArg Minijail.filterProg (fn4 ha), ⟨L', hL', by simpa using hc'⟩, rfl,
      g1.keeps.trans k1, n5.trans (n4.trans (n3.trans (n2.trans n1)))⟩
    obtain ⟨q, hq, hq1, hq2⟩ := fa4 ha
    exact ⟨q, congrArg Minijail.filterProg hq, hq1, hq2⟩
  · refine .inr ⟨e, ?_, (g1.trans (g2.trans (g3.trans g4))).keeps.trans k5, ?_⟩
    · simp only [unmarshalBody, unmarshalUser, unmarshalChrootdir, unmarshalChdir, h1, h2, h3, h4,
        bind, Except.bind, ← hn]
      exact h5
    · rw [n1.symm.trans (n2.symm.trans (n3.symm.trans n4.symm))]
      exact n5

theorem unmarshalBody_sound {u u' : UState} (h : unmarshalBody buf m u = .ok u') :
    ∃ s : Stream, s.Fits u.j ∧ u.cur.rest buf = s.body ∧ s.tail = u'.cur.rest buf ∧
      u'.cur.stop = u.cur.stop := by
  simp only [unmarshalBody, bind, Except.bind] at h
  rcases h1 : unmarshalUser buf m u with e | u1 <;> simp only [h1] at h
  · cases h
  rcases h2 : unmarshalChrootdir buf m u1 with e | u2 <;> simp only [h2] at h
  · cases h
  rcases h3 : unmarshalChdir buf m u2 with e | u3 <;> simp only [h3] at h
  · cases h
  rcases h4 : unmarshalFilter buf m u3 with e | u4 <;> simp only [h4] at h
  · cases h
  obtain ⟨v1, hv1, r1, t1, q1, hj1⟩ := unmarshalStr_sound _ _ _ rfl h1
  obtain ⟨v2, hv2, r2, t2, q2, hj2⟩ := unmarshalStr_sound _ _ _ rfl h2
  obtain ⟨v3, hv3, r3, t3, q3, hj3⟩ := unmarshalStr_sound _ _ _ rfl h3
  obtain ⟨f, hf, hf', r4, t4, fp, hj4⟩ := unmarshalFilter_sound h4
  obtain ⟨recs, hl, hv, r5, t5⟩ := unmarshalBindings_sound h
  rw [hj3, hj2, hj1] at hf hf'
  rw [hj2, hj1] at hv3
  rw [hj1] at hv2
  rw [hj4, hj3, hj2, hj1] at hl
  refine ⟨⟨[], v1, v2, v3, f, recs, u'.cur.rest buf⟩, ⟨hv1, hv2, hv3, hf, hf', hl, hv⟩, ?_, rfl,
    t5.trans (t4.trans (t3.trans (t2.trans t1)))⟩
  simp only [Stream.body, r1, r2, r3, r4, r5]

end Body

theorem unmarshalBody_congr {buf buf' : Nat → UInt8} {n : Nat} {m : Malloc}
    (h : AgreeBelow buf buf' n) {u : UState} (hu : u.cur.stop ≤ n) :
    unmarshalBody buf m u = unmarshalBody buf' m u := by
  simp only [unmarshalBody, bind, Except.bind, unmarshalUser, unmarshalChrootdir, unmarshalChdir]
  rw [unmarshalStr_congr _ _ _ h hu]
  rcases h1 : unmarshalStr Minijail.user _ _ buf' m u with e | u1
  · rfl
  obtain ⟨-, -, -, t1, -⟩ := unmarshalStr_sound _ _ _ rfl h1
  simp only
  rw [unmarshalStr_congr _ _ _ h (t1 ▸ hu)]
  rcases h2 : unmarshalStr Minijail.chrootdir _ _ buf' m u1 with e | u2
  · rfl
  obtain ⟨-, -, -, t2, -⟩ := unmarshalStr_sound _ _ _ rfl h2
  simp only
  rw [unmarshalStr_congr _ _ _ h (t2.trans t1 ▸ hu)]
  rcases h3 : unmarshalStr Minijail.chdir _ _ buf' m u2 with e | u3
  · rfl
  obtain ⟨-, -, -, t3, -⟩ := unmarshalStr_sound _ _ _ rfl h3
  simp only
  rw [unmarshalFilter_congr h (t3.trans (t2.trans t1) ▸ hu)]
  rcases h4 : unmarshalFilter buf' m u3 with e | u4
  · rfl
  obtain ⟨-, -, -, -, t4, -⟩ := unmarshalFilter_sound h4
  exact unmarshalBindings_congr h _ (t4.trans (t3.trans (t2.trans t1)) ▸ hu)

theorem freeSlot_nulls {α : Type} {q : Slot α} {mem mem' : Mem} (h : freeSlot q mem = some mem') :
    mem'.nulls = mem.nulls := by
  cases q with
  | null => cases h; rfl
  | stale => cases h
  | live p => cases h; simp

theorem Label.run_nulls {l : Label} {j j' : Minijail} {mem mem' : Mem}
    (h : l.run j mem = some (j', mem')) : mem'.nulls = mem.nulls := by
  have hcp : ∀ {j j' : Minijail} {mem mem' : Mem}, Libminijail.clearPointers j mem = some (j', mem') →
      mem'.nulls = mem.nulls := by
    intro _ _ _ _ h; cases h; rfl
  have hcr : ∀ {j j' : Minijail} {mem mem' : Mem}, Libminijail.badChrootdir j mem = some (j', mem') →
      mem'.nulls = mem.nulls := by
    intro _ _ _ _ h
    obtain ⟨_, h1, h2⟩ := Option.bind_eq_some.mp h
    exact (hcp h2).trans (freeSlot_nulls h1)
  have hcd : ∀ {j j' : Minijail} {mem mem' : Mem}, Libminijail.badChdir j mem = some (j', mem') →
      mem'.nulls = mem.nulls := by
    intro _ _ _ _ h
    obtain ⟨_, h1, h2⟩ := Option.bind_eq_some.mp h
    exact (hcr h2).trans (freeSlot_nulls h1)
  have hbf : ∀ {j j' : Minijail} {mem mem' : Mem}, Libminijail.badFilters j mem = some (j', mem') →
      mem'.nulls = mem.nulls := by
    intro _ _ _ _ h
    obtain ⟨_, h1, h2⟩ := Option.bind_eq_some.mp h
    exact (hcd h2).trans (freeSlot_nulls h1)
  cases l with
  | badBindings =>
    simp only [Label.run, Libminijail.badBindings] at h
    split at h
    · split at h
      · simpa using hbf h
      · cases h
    · exact hbf h
  | badFilters => exact hbf h
  | badChdir => exact hcd h
  | badChrootdir => exact hcr h
  | clearPointers => exact hcp h

section Unmarshal

variable {buf : Nat → UInt8} {L : Nat} {j : Minijail} {mem : Mem} {m : Malloc}

def bodyStart (buf : Nat → UInt8) (mem : Mem) (L : Nat) : UState :=
  ⟨headerOf buf, mem, ⟨sizeofMinijail, L - sizeofMinijail⟩⟩

theorem minijailUnmarshal_eq (hL : ¬L < sizeofMinijail) :
    minijailUnmarshal j mem m buf L =
      match unmarshalBody buf m (bodyStart buf mem L) with
      | .ok s => (.ret s.j 0, s.mem)
      | .error (.fault mem) => (.fault, mem)
      | .error (.goto l j mem) =>
        match l.run j mem with
        | some (j, mem) => (.ret j (-EINVAL), mem)
        | none => (.fault, mem) := by
  rw [minijailUnmarshal, if_neg hL]; rfl

theorem unmarshal_of_error (hL : ¬L < sizeofMinijail) {e : Exit}
    (he : unmarshalBody buf m (bodyStart buf mem L) = .error e) :
    (minijailUnmarshal j mem m buf L).2.nulls = e.mem.nulls ∧
      ∀ Q, (minijailUnmarshal j mem m buf L).1 ≠ .ret Q 0 := by
  rw [minijailUnmarshal_eq hL, he]
  cases e with
  | fault mem' => simp
  | goto l j' mem' =>
    rcases hl : l.run j' mem' with _ | ⟨j'', mem''⟩
    · simp [hl]
    · simp [hl, Label.run_nulls hl, EINVAL]

variable (j mem m) in
theorem unmarshal_complete {s : Stream} (hw : s.WellFormed) (hB : window buf 0 L = s.bytes) :
    (∃ Q, (minijailUnmarshal j mem m buf L).1 = .ret Q 0 ∧
      s.Decoded mem Q (minijailUnmarshal j mem m buf L).2) ∨
    (mem.nulls < (minijailUnmarshal j mem m buf L).2.nulls ∧
      ∀ Q, (minijailUnmarshal j mem m buf L).1 ≠ .ret Q 0) := by
  obtain ⟨hh, hbody⟩ := window_eq_append (hB.trans rfl : window buf 0 L = s.header ++ s.body)
  rw [hw.header] at hh hbody
  have hL : ¬L < sizeofMinijail := by
    have := congrArg List.length hB
    simp only [length_window, Stream.bytes, List.length_append, hw.header] at this
    omega
  have hr : (bodyStart buf mem L).cur.rest buf = s.body := by
    simpa [Cursor.rest, bodyStart] using hbody
  rcases unmarshalBody_complete hw.fits (m := m) (by rw [bodyStart, headerOf, hh]; rfl) hr with
    ⟨u', hok, hd, -, -⟩ | ⟨e, herr, k, hn⟩
  · rw [minijailUnmarshal_eq hL, hok]
    exact .inl ⟨u'.j, rfl, hd⟩
  · obtain ⟨h1, h2⟩ := unmarshal_of_error (j := j) hL herr
    exact .inr ⟨h1 ▸ hn, h2⟩

theorem accepted_of_unmarshal {Q : Minijail} (h : (minijailUnmarshal j mem m buf L).1 = .ret Q 0) :
    ∃ s : Stream, s.WellFormed ∧ s.bytes = window buf 0 L := by
  by_cases hL : L < sizeofMinijail
  · simp [minijailUnmarshal, hL, EINVAL] at h
  rcases hb : unmarshalBody buf m (bodyStart buf mem L) with e | u'
  · exact absurd h ((unmarshal_of_error hL hb).2 Q)
  obtain ⟨s, hf, hr, -, -⟩ := unmarshalBody_sound hb
  refine ⟨{ s with header := window buf 0 sizeofMinijail },
    ⟨by simp, hf.user, hf.chrootdir, hf.chdir, hf.filter, hf.noFilter, hf.records, hf.valid⟩, ?_⟩
  have e : L = sizeofMinijail + (L - sizeofMinijail) := by omega
  rw [e, window_add]
  simpa [Stream.bytes, Cursor.rest, bodyStart] using hr.symm

theorem unmarshal_congr {buf' : Nat → UInt8} (h : AgreeBelow buf buf' L) :
    minijailUnmarshal j mem m buf L = minijailUnmarshal j mem m buf' L := by
  by_cases hL : L < sizeofMinijail
  · simp [minijailUnmarshal, hL]
  have hs : bodyStart buf mem L = bodyStart buf' mem L := by
    simp only [bodyStart, headerOf]
    rw [window_congr fun i _ hi => h i (by omega)]
  rw [minijailUnmarshal_eq hL, minijailUnmarshal_eq hL,
    unmarshalBody_congr h (by simp [bodyStart, Cursor.stop]; omega), hs]

/-- `minijail_unmarshal` reads only `buf[0..L)`; when its allocations succeed it returns `0`
exactly on the well-formed streams; and what it returns `0` on, it decodes as the stream
describes. -/
theorem unmarshal_accepts_exactly (j : Minijail) (mem : Mem) (m : Malloc) (buf : Nat → UInt8)
    (L : Nat) :
    (∀ buf', AgreeBelow buf buf' L →
      minijailUnmarshal j mem m buf' L = minijailUnmarshal j mem m buf L) ∧
    ((minijailUnmarshal j mem m buf L).2.nulls = mem.nulls →
      ((∃ Q, (minijailUnmarshal j mem m buf L).1 = .ret Q 0) ↔ Accepted (window buf 0 L))) ∧
    (∀ Q, (minijailUnmarshal j mem m buf L).1 = .ret Q 0 →
      ∃ s : Stream, s.WellFormed ∧ s.bytes = window buf 0 L ∧
        s.Decoded mem Q (minijailUnmarshal j mem m buf L).2) := by
  refine ⟨fun _ h => (unmarshal_congr h).symm, fun hn => ⟨fun ⟨Q, hQ⟩ => ?_, ?_⟩, fun Q hQ => ?_⟩
  · exact accepted_of_unmarshal hQ
  · rintro ⟨s, hw, hB⟩
    rcases unmarshal_complete j mem m hw hB.symm with ⟨Q, hQ, -⟩ | ⟨hlt, -⟩
    · exact ⟨Q, hQ⟩
    · omega
  · obtain ⟨s, hw, hB⟩ := accepted_of_unmarshal hQ
    rcases unmarshal_complete j mem m hw hB.symm with
      ⟨Q', hQ', hd⟩ | ⟨-, hne⟩
    · rw [hQ] at hQ'
      cases hQ'
      exact ⟨s, hw, hB, hd⟩
    · exact absurd hQ (hne Q)

end Unmarshal

end Libminijail
