import Minijail.Defs.Unmarshal
import Minijail.Defs.BuilderLaws

/-! What each section of `minijail_unmarshal` does to the bytes the cursor has left: it reads
nothing past them, it consumes exactly the bytes of its part of the stream, and it fails only on
bytes that are not such a part or on an allocation answered with `NULL`. -/

namespace Libminijail

def Cursor.skip (c : Cursor) (k : Nat) : Cursor := ⟨c.pos + k, c.len - k⟩

def Cursor.stop (c : Cursor) : Nat := c.pos + c.len

def AgreeBelow (buf buf' : Nat → UInt8) (n : Nat) : Prop := ∀ i, i < n → buf i = buf' i

section Consume

variable {buf buf' : Nat → UInt8} {c c' : Cursor}

theorem Cursor.stop_skip {k : Nat} (hk : k ≤ c.len) : (c.skip k).stop = c.stop := by
  simp only [Cursor.stop, Cursor.skip]; omega

theorem Cursor.rest_skip {k : Nat} (hk : k ≤ c.len) :
    c.rest buf = window buf c.pos k ++ (c.skip k).rest buf := by
  rw [Cursor.rest, Cursor.rest, Cursor.skip, ← window_add, Nat.add_sub_cancel' hk]

theorem consumebytes_eq_some {n p : Nat} :
    consumebytes n c = some (p, c') ↔ n ≤ c.len ∧ p = c.pos ∧ c' = c.skip n := by
  unfold consumebytes
  split
  · simp only [reduceCtorEq, false_iff]
    exact fun h => absurd h.1 (by omega)
  · simp only [Option.some.injEq, Prod.mk.injEq]
    constructor
    · rintro ⟨rfl, rfl⟩; exact ⟨by omega, rfl, rfl⟩
    · rintro ⟨-, rfl, rfl⟩; exact ⟨rfl, rfl⟩

theorem consumebytes_eq_none {n : Nat} : consumebytes n c = none ↔ c.len < n := by
  unfold consumebytes; split <;> simp_all

theorem window_withNul {s : CStr} {r : List UInt8} (h : c.rest buf = s.withNul ++ r) :
    window buf c.pos c.len = s.bytes ++ 0 :: r := by
  simpa [Cursor.rest, CStr.withNul] using h

theorem consumestr_eq_some {s : CStr} :
    consumestr buf c = some (s, c') ↔
      ∃ r, c.rest buf = s.withNul ++ r ∧ c' = c.skip s.withNul.length := by
  simp only [consumestr]
  split
  · rename_i hn
    simp only [reduceCtorEq, false_iff, not_exists, not_and]
    intro r hr _
    have h1 := strnlen_of_window (window_withNul hr) s.nul_free
    have h2 := congrArg List.length hr
    simp only [Cursor.rest, length_window, List.length_append, CStr.length_withNul] at h2
    omega
  · rename_i hn
    have hlt : strnlen buf c.pos c.len < c.len := lt_of_le_of_ne (strnlen_le _ _) hn
    simp only [Option.map_eq_some', consumebytes_eq_some, Prod.exists, Prod.mk.injEq]
    constructor
    · rintro ⟨_, _, ⟨-, rfl, rfl⟩, rfl, rfl⟩
      refine ⟨window buf (c.pos + strnlen buf c.pos c.len + 1)
        (c.len - strnlen buf c.pos c.len - 1), (window_strnlen hlt).trans ?_, by simp [cstrAt]⟩
      simp [cstrAt, CStr.withNul]
    · rintro ⟨r, hr, rfl⟩
      have hs := strnlen_of_window (window_withNul hr) s.nul_free
      obtain ⟨h1, -⟩ := window_eq_append (window_withNul hr)
      exact ⟨_, _, ⟨by omega, rfl, rfl⟩, CStr.ext (by simp [cstrAt, hs, h1]), by simp [hs]⟩

theorem consumestr_eq_none : consumestr buf c = none ↔ 0 ∉ c.rest buf := by
  simp only [consumestr]
  split
  · rename_i hn
    simp only [true_iff, Cursor.rest]
    have := @zero_not_mem_window_strnlen buf c.pos c.len
    rwa [hn] at this
  · rename_i hn
    have hlt : strnlen buf c.pos c.len < c.len := lt_of_le_of_ne (strnlen_le _ _) hn
    simp only [Option.map_eq_none', consumebytes_eq_none, Cursor.rest, window_strnlen hlt,
      List.mem_append, List.mem_cons, true_or, or_true, not_true_eq_false, iff_false]
    omega

theorem consumestr_of_rest {s : CStr} {r : List UInt8} (h : c.rest buf = s.withNul ++ r) :
    consumestr buf c = some (s, c.skip s.withNul.length) :=
  consumestr_eq_some.mpr ⟨r, h, rfl⟩

theorem Cursor.skip_of_rest {x r : List UInt8} (h : c.rest buf = x ++ r) :
    (c.skip x.length).rest buf = r ∧ (c.skip x.length).stop = c.stop := by
  have hk : x.length ≤ c.len := by
    have := congrArg List.length h
    simp only [Cursor.rest, length_window, List.length_append] at this
    omega
  obtain ⟨-, h2⟩ := List.append_inj ((Cursor.rest_skip hk).symm.trans h) (by simp)
  exact ⟨h2, Cursor.stop_skip hk⟩

theorem rest_of_consumestr {s : CStr} (h : consumestr buf c = some (s, c')) :
    c.rest buf = s.withNul ++ c'.rest buf ∧ c'.stop = c.stop := by
  obtain ⟨r, hr, rfl⟩ := consumestr_eq_some.mp h
  obtain ⟨h1, h2⟩ := Cursor.skip_of_rest hr
  exact ⟨by rw [hr, h1], h2⟩

theorem rest_of_consumebytes (buf : Nat → UInt8) {n p : Nat}
    (h : consumebytes n c = some (p, c')) :
    c.rest buf = window buf p n ++ c'.rest buf ∧ c'.stop = c.stop := by
  obtain ⟨hn, rfl, rfl⟩ := consumebytes_eq_some.mp h
  exact ⟨Cursor.rest_skip hn, Cursor.stop_skip hn⟩

end Consume

def Exit.mem : Exit → Mem
  | .goto _ _ mem => mem
  | .fault mem => mem

@[simp] theorem Exit.mem_goto (l : Label) (j : Minijail) (mem : Mem) : (Exit.goto l j mem).mem = mem :=
  rfl

@[simp] theorem Exit.mem_fault (mem : Mem) : (Exit.fault mem).mem = mem := rfl

/-- `mem'` still has every block of `mem` allocated and has answered no fewer requests with
`NULL`; unlike `Mem.Grows`, nodes may have been linked. -/
structure Mem.Keeps (mem mem' : Mem) : Prop where
  live : ∀ a, mem.live a = true → mem'.live a = true
  nulls : mem.nulls ≤ mem'.nulls

theorem Mem.Keeps.refl (mem : Mem) : mem.Keeps mem := ⟨fun _ => id, le_rfl⟩

theorem Mem.Keeps.trans {mem₁ mem₂ mem₃ : Mem} (h₁ : mem₁.Keeps mem₂) (h₂ : mem₂.Keeps mem₃) :
    mem₁.Keeps mem₃ :=
  ⟨fun a ha => h₂.live a (h₁.live a ha), h₁.nulls.trans h₂.nulls⟩

theorem Mem.Grows.keeps {mem mem' : Mem} (h : mem.Grows mem') : mem.Keeps mem' := ⟨h.live, h.nulls⟩

section Str

variable (get : Minijail → Slot CStr) (set : Minijail → Slot CStr → Minijail) (bad : Label)
  {buf : Nat → UInt8} {m : Malloc}

theorem unmarshalStr_cases (buf : Nat → UInt8) (m : Malloc) (s : UState) :
    ((get s.j).isNull = true ∧ unmarshalStr get set bad buf m s = .ok s) ∨
    ((get s.j).isNull = false ∧ 0 ∉ s.cur.rest buf ∧
      unmarshalStr get set bad buf m s = .error (.goto bad s.j s.mem)) ∨
    ((get s.j).isNull = false ∧ ∃ (str : CStr) (r : List UInt8), s.cur.rest buf = str.withNul ++ r ∧
      ((∃ (p : Ptr CStr) (mem' : Mem), p.val = str ∧ s.mem.live p.addr = false ∧
          mem'.live p.addr = true ∧ s.mem.Grows mem' ∧ mem'.nulls = s.mem.nulls ∧
          unmarshalStr get set bad buf m s =
            .ok ⟨set s.j (.live p), mem', s.cur.skip str.withNul.length⟩) ∨
       (∃ mem' : Mem, s.mem.Grows mem' ∧ s.mem.nulls < mem'.nulls ∧
          unmarshalStr get set bad buf m s = .error (.goto bad (set s.j .null) mem')))) := by
  unfold unmarshalStr
  cases hn : (get s.j).isNull
  · simp only [Bool.false_eq_true, if_false, true_and, false_and, false_or]
    cases hc : consumestr buf s.cur with
    | none => exact .inl ⟨consumestr_eq_none.mp hc, rfl⟩
    | some sc =>
      obtain ⟨str, cur⟩ := sc
      obtain ⟨r, hr, rfl⟩ := consumestr_eq_some.mp hc
      refine .inr ⟨str, r, hr, ?_⟩
      rcases Mem.new_spec s.mem m str with ⟨p, mem', h1, hp, h2, h3, h4, h5⟩ | ⟨mem', h1, h2, h3⟩
      · exact .inl ⟨p, mem', hp, h2, h3, h4, h5, by simp only [h1]⟩
      · exact .inr ⟨mem', h2, h3, by simp only [h1]⟩
  · exact .inl ⟨rfl, by simp⟩

def FreshCopy (mem mem' : Mem) : Option CStr → Slot CStr → Prop
  | none, q => q = .null
  | some v, q => ∃ p : Ptr CStr, q = .live p ∧ p.val = v ∧ mem.live p.addr = false ∧
      mem'.live p.addr = true

theorem FreshCopy.keeps {mem mem' mem'' : Mem} {v : Option CStr} {q : Slot CStr}
    (h : FreshCopy mem mem' v q) (k : mem'.Keeps mem'') : FreshCopy mem mem'' v q := by
  cases v with
  | none => exact h
  | some v => obtain ⟨p, h1, h2, h3, h4⟩ := h; exact ⟨p, h1, h2, h3, k.live _ h4⟩

theorem FreshCopy.of_keeps {mem₀ mem mem' : Mem} {v : Option CStr} {q : Slot CStr}
    (k : mem₀.Keeps mem) (h : FreshCopy mem mem' v q) : FreshCopy mem₀ mem' v q := by
  cases v with
  | none => exact h
  | some v =>
    obtain ⟨p, h1, h2, h3, h4⟩ := h
    refine ⟨p, h1, h2, ?_, h4⟩
    cases h0 : mem₀.live p.addr
    · rfl
    · simp [k.live _ h0] at h3

theorem FreshCopy.free {mem mem' : Mem} {v : Option CStr} {q : Slot CStr} {a : Addr}
    (h : FreshCopy mem mem' v q) (ha : mem.live a = true) : FreshCopy mem (mem'.free a) v q := by
  cases v with
  | none => exact h
  | some v =>
    obtain ⟨p, h1, h2, h3, h4⟩ := h
    have hne : p.addr ≠ a := by rintro rfl; simp [ha] at h3
    exact ⟨p, h1, h2, h3, (Mem.live_free_of_ne _ hne).trans h4⟩

theorem unmarshalStr_complete {s : UState} {v : Option CStr} {rest : List UInt8}
    (hsg : set s.j (get s.j) = s.j) (hv : v.isSome = !(get s.j).isNull)
    (hr : s.cur.rest buf = v.toList.flatMap CStr.withNul ++ rest) :
    (∃ (q : Slot CStr) (s' : UState), unmarshalStr get set bad buf m s = .ok s' ∧
      s'.j = set s.j q ∧ FreshCopy s.mem s'.mem v q ∧ s'.cur.rest buf = rest ∧
      s'.cur.stop = s.cur.stop ∧ s.mem.Grows s'.mem ∧ s'.mem.nulls = s.mem.nulls) ∨
    (∃ e, unmarshalStr get set bad buf m s = .error e ∧ s.mem.Grows e.mem ∧
      s.mem.nulls < e.mem.nulls) := by
  rcases unmarshalStr_cases get set bad buf m s with
    ⟨hn, hok⟩ | ⟨hn, h0, -⟩ | ⟨hn, str, r, hsr, ⟨p, mem', hp, h1, h2, g, hnl, hok⟩ | ⟨mem', g, hnl, herr⟩⟩
  · have : v = none := by simpa [hn] using hv
    subst this
    refine .inl ⟨get s.j, s, hok, hsg.symm, Slot.eq_null_of_isNull hn, by simpa using hr, rfl,
      .refl _, rfl⟩
  · obtain ⟨u, rfl⟩ := Option.isSome_iff_exists.mp (by simpa [hn] using hv)
    exact absurd (by simp [hr, CStr.zero_mem_withNul]) h0
  · obtain ⟨u, rfl⟩ := Option.isSome_iff_exists.mp (by simpa [hn] using hv)
    obtain ⟨rfl, rfl⟩ := CStr.withNul_append_inj (hsr.symm.trans (by simpa using hr))
    obtain ⟨hr', hs'⟩ := Cursor.skip_of_rest hsr
    exact .inl ⟨.live p, _, hok, rfl, ⟨p, rfl, hp, h1, h2⟩, hr', hs', g, hnl⟩
  · exact .inr ⟨_, herr, g, hnl⟩

theorem unmarshalStr_sound {s s' : UState} (hsg : set s.j (get s.j) = s.j)
    (h : unmarshalStr get set bad buf m s = .ok s') :
    ∃ v : Option CStr, v.isSome = !(get s.j).isNull ∧
      s.cur.rest buf = v.toList.flatMap CStr.withNul ++ s'.cur.rest buf ∧
      s'.cur.stop = s.cur.stop ∧ ∃ q, s'.j = set s.j q := by
  rcases unmarshalStr_cases get set bad buf m s with
    ⟨hn, hok⟩ | ⟨-, -, herr⟩ | ⟨hn, str, r, hsr, ⟨p, mem', -, -, -, -, -, hok⟩ | ⟨mem', -, -, herr⟩⟩
  · obtain rfl : s = s' := by simpa [hok] using h
    exact ⟨none, by simp [hn], by simp, rfl, _, hsg.symm⟩
  · simp [herr] at h
  · obtain rfl := Except.ok.inj (hok.symm.trans h)
    obtain ⟨hr', hs'⟩ := Cursor.skip_of_rest hsr
    exact ⟨some str, by simp [hn], hsr.trans (by rw [← hr']; simp), hs', _, rfl⟩
  · simp [herr] at h

end Str

section Filter

variable {buf : Nat → UInt8} {m : Malloc}

def Minijail.FilterAnnounced (j : Minijail) : Prop :=
  j.flags.seccompFilter = true ∧ 0 < j.filterLen.toInt

instance (j : Minijail) : Decidable j.FilterAnnounced := inferInstanceAs (Decidable (_ ∧ _))

theorem unmarshalFilter_cases (buf : Nat → UInt8) (m : Malloc) (s : UState) :
    (¬s.j.FilterAnnounced ∧ unmarshalFilter buf m s = .ok s) ∨
    (s.j.FilterAnnounced ∧ (USHRT_MAX < s.j.filterLen.toNat ∨ s.cur.len < s.j.filterLen.toNat * 8) ∧
      unmarshalFilter buf m s = .error (.goto .badFilters s.j s.mem)) ∨
    (s.j.FilterAnnounced ∧ s.j.filterLen.toNat ≤ USHRT_MAX ∧ s.j.filterLen.toNat * 8 ≤ s.cur.len ∧
      ((∃ (q : Ptr SockFprog) (mem' : Mem),
          unmarshalFilter buf m s =
            .ok ⟨{ s.j with filterProg := .live q }, mem', s.cur.skip (s.j.filterLen.toNat * 8)⟩ ∧
          q.val.filter.val = window buf s.cur.pos (s.j.filterLen.toNat * 8) ∧
          q.val.len.toNat = s.j.filterLen.toNat ∧ s.mem.Grows mem' ∧ mem'.nulls = s.mem.nulls) ∨
       (∃ mem' : Mem, s.mem.Grows mem' ∧ s.mem.nulls < mem'.nulls ∧
          unmarshalFilter buf m s = .error (.fault mem')))) := by
  unfold unmarshalFilter
  by_cases ha : s.j.FilterAnnounced
  · simp only [Minijail.FilterAnnounced] at ha
    simp only [ha, and_self, if_true, Minijail.FilterAnnounced, not_true_eq_false, false_and,
      false_or, true_and]
    by_cases hb : s.j.filterLen.toNat > SIZE_MAX / sizeofSockFilter ∨
        s.j.filterLen.toNat > USHRT_MAX
    · refine .inl ⟨.inl (by simp only [SIZE_MAX, sizeofSockFilter, USHRT_MAX] at hb ⊢; omega),
        by rw [dif_pos hb]⟩
    rw [dif_neg hb]
    simp only [SIZE_MAX, sizeofSockFilter, USHRT_MAX, not_or, not_lt] at hb ⊢
    cases hc : consumebytes (s.j.filterLen.toNat * 8) s.cur with
    | none =>
      exact .inl ⟨.inr (by rw [consumebytes_eq_none] at hc; omega), rfl⟩
    | some pc =>
      obtain ⟨p, cur⟩ := pc
      obtain ⟨hle, rfl, rfl⟩ := consumebytes_eq_some.mp hc
      refine .inr ⟨hb.2, by omega, ?_⟩
      rcases Mem.alloc_spec s.mem m with ⟨fp, mem1, h1, -, -, g1, n1⟩ | ⟨mem1, h1, g1, n1⟩
      · rcases Mem.alloc_spec mem1 m with ⟨f, mem2, h2, -, -, g2, n2⟩ | ⟨mem2, h2, g2, n2⟩
        · simp only [h1, h2]
          refine .inl ⟨_, mem2, rfl, rfl, ?_, g1.trans g2, n2.trans n1⟩
          simp only [BitVec.toNat_ofNat]; omega
        · exact .inr ⟨mem2, g1.trans g2, n1 ▸ n2, by simp only [h1, h2]⟩
      · exact .inr ⟨mem1, g1, n1, by simp only [h1]⟩
  · exact .inl ⟨ha, by simp only [Minijail.FilterAnnounced] at ha; simp [ha]⟩

theorem toInt_eq_toNat_of_pos {x : BitVec 32} (h : 0 < x.toInt) : x.toInt = x.toNat := by
  have := x.isLt
  rw [BitVec.toInt_eq_toNat_cond] at h ⊢
  split <;> omega

theorem unmarshalFilter_complete {s : UState} {f rest : List UInt8}
    (hf : s.j.FilterAnnounced →
      s.j.filterLen.toInt ≤ USHRT_MAX ∧ f.length = s.j.filterLen.toNat * sizeofSockFilter)
    (hf' : ¬s.j.FilterAnnounced → f = []) (hr : s.cur.rest buf = f ++ rest) :
    (∃ s', unmarshalFilter buf m s = .ok s' ∧ s'.cur.rest buf = rest ∧
      s'.cur.stop = s.cur.stop ∧
      (s.j.FilterAnnounced → ∃ q : Ptr SockFprog, s'.j = { s.j with filterProg := .live q } ∧
        q.val.filter.val = f ∧ q.val.len.toNat = s.j.filterLen.toNat) ∧
      (¬s.j.FilterAnnounced → s'.j = s.j) ∧ s.mem.Grows s'.mem ∧ s'.mem.nulls = s.mem.nulls) ∨
    (∃ e, unmarshalFilter buf m s = .error e ∧ s.mem.Grows e.mem ∧ s.mem.nulls < e.mem.nulls) := by
  rcases unmarshalFilter_cases buf m s with
    ⟨ha, hok⟩ | ⟨ha, hbad, -⟩ | ⟨ha, -, hle, ⟨q, mem', hok, hq, hql, g, hnl⟩ | ⟨mem', g, hnl, herr⟩⟩
  · obtain rfl := hf' ha
    exact .inl ⟨s, hok, by simpa using hr, rfl, fun h => absurd h ha, fun _ => rfl, .refl _, rfl⟩
  · replace hf := hf ha
    have := congrArg List.length hr
    have hpos := toInt_eq_toNat_of_pos ha.2
    simp only [Cursor.rest, length_window, List.length_append] at this
    simp only [sizeofSockFilter, USHRT_MAX] at hf hbad
    omega
  · replace hf := hf ha
    have hlen : f.length = s.j.filterLen.toNat * 8 := hf.2
    have hw : window buf s.cur.pos (s.j.filterLen.toNat * 8) = f := hlen ▸ (window_eq_append hr).1
    obtain ⟨hr', hs'⟩ := Cursor.skip_of_rest hr
    rw [hlen] at hr' hs'
    exact .inl ⟨_, hok, hr', hs', fun _ => ⟨q, rfl, hq.trans hw, hql⟩, fun h => absurd ha h, g, hnl⟩
  · exact .inr ⟨_, herr, g, hnl⟩

theorem unmarshalFilter_sound {s s' : UState} (h : unmarshalFilter buf m s = .ok s') :
    ∃ f : List UInt8, (s.j.FilterAnnounced →
      s.j.filterLen.toInt ≤ USHRT_MAX ∧ f.length = s.j.filterLen.toNat * sizeofSockFilter) ∧
      (¬s.j.FilterAnnounced → f = []) ∧ s.cur.rest buf = f ++ s'.cur.rest buf ∧
      s'.cur.stop = s.cur.stop ∧ ∃ fp, s'.j = { s.j with filterProg := fp } := by
  rcases unmarshalFilter_cases buf m s with
    ⟨ha, hok⟩ | ⟨-, -, herr⟩ | ⟨ha, hle, h8, ⟨q, mem', hok, -⟩ | ⟨mem', -, -, herr⟩⟩
  · obtain rfl : s = s' := by simpa [hok] using h
    exact ⟨[], fun h => absurd h ha, fun _ => rfl, by simp, rfl, _, rfl⟩
  · simp [herr] at h
  · obtain rfl := Except.ok.inj (hok.symm.trans h)
    have hpos := toInt_eq_toNat_of_pos ha.2
    refine ⟨window buf s.cur.pos (s.j.filterLen.toNat * 8), fun _ => ⟨?_, by simp [sizeofSockFilter]⟩,
      fun h => absurd ha h, Cursor.rest_skip h8, Cursor.stop_skip h8, _, rfl⟩
    simp only [USHRT_MAX] at hle ⊢
    omega
  · simp [herr] at h

end Filter

structure Record where
  src : CStr
  dest : CStr
  writeable : List UInt8

def Record.bytes (r : Record) : List UInt8 := r.src.withNul ++ r.dest.withNul ++ r.writeable

structure Record.Valid (r : Record) : Prop where
  dest : r.dest.bytes.head? = some 47
  writeable : r.writeable.length = 4

def Record.content (r : Record) : CStr × CStr × BitVec 32 :=
  (r.src, r.dest, .ofNat 32 (leNat r.writeable))

section Bindings

variable {buf : Nat → UInt8} {m : Malloc}

theorem unmarshalBindings_succ (n : Nat) (s : UState) :
    unmarshalBindings buf m (n + 1) s =
      match consumestr buf s.cur with
      | none => .error (.goto .badBindings s.j s.mem)
      | some (src, cur) =>
        match consumestr buf cur with
        | none => .error (.goto .badBindings s.j s.mem)
        | some (dest, cur) =>
          match consumebytes 4 cur with
          | none => .error (.goto .badBindings s.j s.mem)
          | some (w, cur) =>
            match minijailBind s.j s.mem m src dest (.ofNat 32 (leNat (window buf w 4))) with
            | (j, mem, r) =>
              if r ≠ 0 then .error (.goto .badBindings j mem)
              else unmarshalBindings buf m n ⟨j, mem, cur⟩ := rfl

theorem unmarshalBindings_sound {n : Nat} {s s' : UState}
    (h : unmarshalBindings buf m n s = .ok s') :
    ∃ recs : List Record, recs.length = n ∧ (∀ r ∈ recs, r.Valid) ∧
      s.cur.rest buf = recs.flatMap Record.bytes ++ s'.cur.rest buf ∧ s'.cur.stop = s.cur.stop := by
  induction n generalizing s with
  | zero => cases h; exact ⟨[], rfl, by simp, by simp, rfl⟩
  | succ n ih =>
    rw [unmarshalBindings_succ] at h
    rcases h1 : consumestr buf s.cur with _ | ⟨src, c1⟩
    · simp [h1] at h
    rcases h2 : consumestr buf c1 with _ | ⟨dest, c2⟩
    · simp [h1, h2] at h
    rcases h3 : consumebytes 4 c2 with _ | ⟨w, c3⟩
    · simp [h1, h2, h3] at h
    simp only [h1, h2, h3] at h
    rcases hb : minijailBind s.j s.mem m src dest (.ofNat 32 (leNat (window buf w 4))) with
      ⟨j, mem, r⟩
    simp only [hb] at h
    split at h
    · cases h
    rename_i hr
    obtain ⟨recs, hl, hv, hrest, hstop⟩ := ih h
    have hd : dest.bytes.head? = some 47 := by
      rcases minijailBind_cases hb with ⟨hr', -⟩ | ⟨-, hd, -⟩
      · exact absurd (not_not.mp hr) hr'
      · exact hd
    obtain ⟨r1, s1⟩ := rest_of_consumestr h1
    obtain ⟨r2, s2⟩ := rest_of_consumestr h2
    obtain ⟨r3, s3⟩ := rest_of_consumebytes buf h3
    refine ⟨⟨src, dest, window buf w 4⟩ :: recs, by simp [hl], ?_, ?_, by simp_all⟩
    · simp only [List.mem_cons, forall_eq_or_imp]
      exact ⟨⟨hd, by simp⟩, hv⟩
    · simp [r1, r2, r3, hrest, Record.bytes]

theorem unmarshalBindings_complete {recs : List Record} (hv : ∀ r ∈ recs, r.Valid) :
    ∀ {s : UState} {tail : List UInt8} {L : List (Addr × Binding)},
      s.cur.rest buf = recs.flatMap Record.bytes ++ tail → BindingsInv s.j s.mem L →
      (∃ s' L', unmarshalBindings buf m recs.length s = .ok s' ∧ s'.cur.rest buf = tail ∧
         s'.cur.stop = s.cur.stop ∧ BindingsInv s'.j s'.mem L' ∧
         L'.map (·.2.content) = L.map (·.2.content) ++ recs.map Record.content ∧
         (∃ head tl count, s'.j = { s.j with
            flags := { s.j.flags with vfs := s.j.flags.vfs || !recs.isEmpty },
            bindingsHead := head, bindingsTail := tl, bindingCount := count }) ∧
         s.mem.Keeps s'.mem ∧ s'.mem.nulls = s.mem.nulls) ∨
      (∃ e, unmarshalBindings buf m recs.length s = .error e ∧ s.mem.Keeps e.mem ∧
         s.mem.nulls < e.mem.nulls) := by
  induction recs with
  | nil =>
    intro s tail L hrest hL
    refine .inl ⟨s, L, rfl, by simpa using hrest, rfl, hL, by simp,
      ⟨s.j.bindingsHead, s.j.bindingsTail, s.j.bindingCount, by simp⟩, .refl _, rfl⟩
  | cons r recs ih =>
    intro s tail L hrest hL
    simp only [List.mem_cons, forall_eq_or_imp] at hv
    obtain ⟨⟨hd, hw⟩, hv⟩ := hv
    simp only [List.flatMap_cons, Record.bytes, List.append_assoc] at hrest
    have h1 := consumestr_of_rest hrest
    obtain ⟨r1, s1⟩ := Cursor.skip_of_rest hrest
    have h2 := consumestr_of_rest r1
    obtain ⟨r2, s2⟩ := Cursor.skip_of_rest r1
    set c2 := (s.cur.skip r.src.withNul.length).skip r.dest.withNul.length
    obtain ⟨r3, s3⟩ := Cursor.skip_of_rest r2
    have hwin := (window_eq_append r2).1
    rw [hw] at r3 s3 hwin
    have h3 : consumebytes 4 c2 = some (c2.pos, c2.skip 4) := by
      refine consumebytes_eq_some.mpr ⟨?_, rfl, rfl⟩
      have := congrArg List.length r2
      simp only [Cursor.rest, length_window, List.length_append, hw] at this
      omega
    rw [List.length_cons, unmarshalBindings_succ]
    simp only [h1, h2, h3, hwin]
    rcases hb : minijailBind s.j s.mem m r.src r.dest (.ofNat 32 (leNat r.writeable)) with
      ⟨j1, mem1, c⟩
    rcases hL.bind hb with ⟨hc, -⟩ | ⟨rfl, L1, hL1, hc1⟩
    · rcases minijailBind_cases hb with ⟨-, -, g, (⟨hd', -⟩ | hn)⟩ | ⟨hc', -⟩
      · exact absurd hd hd'
      · exact .inr ⟨.goto .badBindings j1 mem1, by simp [hc], g.keeps, hn⟩
      · exact absurd hc' hc
    obtain ⟨-, -, b, node, -, -, -, hf, hn, -, rfl⟩ :=
      (minijailBind_cases hb).resolve_left (by simp)
    simp only [ne_eq, not_true_eq_false, if_false]
    have k1 : s.mem.Keeps mem1 := ⟨hf.mono, hn.ge⟩
    rcases ih hv (s := ⟨_, mem1, _⟩) r3 hL1 with
      ⟨s', L', hok, hrest', hstop', hL', hc', ⟨hd', tl', cnt', hj'⟩, k', hn'⟩ | ⟨e, herr, k', hn'⟩
    · refine .inl ⟨s', L', hok, hrest', hstop'.trans (s3.trans (s2.trans s1)), hL', ?_,
        ⟨hd', tl', cnt', by rw [hj']; simp⟩, k1.trans k', hn'.trans hn⟩
      rw [hc', hc1]
      simp [Record.content]
    · exact .inr ⟨e, herr, k1.trans k', by rw [← hn]; exact hn'⟩

end Bindings

section Congr

variable {buf buf' : Nat → UInt8} {n : Nat} {m : Malloc}

theorem consumestr_eq (buf : Nat → UInt8) (c : Cursor) :
    consumestr buf c = if strnlen buf c.pos c.len = c.len then none
      else some (cstrAt buf c.pos c.len, c.skip (strnlen buf c.pos c.len + 1)) := by
  simp only [consumestr]
  split
  · rfl
  · rename_i hn
    have := @strnlen_le buf c.pos c.len
    rw [consumebytes, if_neg (by omega)]
    rfl

theorem Cursor.agree {c : Cursor} (h : AgreeBelow buf buf' n) (hc : c.stop ≤ n) :
    ∀ i, c.pos ≤ i → i < c.pos + c.len → buf i = buf' i :=
  fun i _ hi => h i (by unfold Cursor.stop at hc; omega)

theorem consumestr_congr {c : Cursor} (h : AgreeBelow buf buf' n) (hc : c.stop ≤ n) :
    consumestr buf c = consumestr buf' c := by
  have ha := Cursor.agree h hc
  have hs := strnlen_congr ha
  have hw : cstrAt buf c.pos c.len = cstrAt buf' c.pos c.len :=
    CStr.ext (by
      simp only [cstrAt, hs]
      exact window_congr fun i h1 h2 => ha i h1 (by have := @strnlen_le buf' c.pos c.len; omega))
  rw [consumestr_eq, consumestr_eq, hs, hw]

theorem unmarshalStr_congr (get : Minijail → Slot CStr) (set : Minijail → Slot CStr → Minijail)
    (bad : Label) (h : AgreeBelow buf buf' n) {s : UState} (hs : s.cur.stop ≤ n) :
    unmarshalStr get set bad buf m s = unmarshalStr get set bad buf' m s := by
  simp only [unmarshalStr, consumestr_congr h hs]

theorem unmarshalFilter_congr (h : AgreeBelow buf buf' n) {s : UState} (hs : s.cur.stop ≤ n) :
    unmarshalFilter buf m s = unmarshalFilter buf' m s := by
  unfold unmarshalFilter
  split
  · dsimp only
    split
    · rfl
    · rcases hc : consumebytes (s.j.filterLen.toNat * sizeofSockFilter) s.cur with _ | ⟨p, c⟩
      · rfl
      · obtain ⟨hle, rfl, rfl⟩ := consumebytes_eq_some.mp hc
        have hw : window buf s.cur.pos (s.j.filterLen.toNat * sizeofSockFilter) =
            window buf' s.cur.pos (s.j.filterLen.toNat * sizeofSockFilter) :=
          window_congr fun i h1 h2 => Cursor.agree h hs i h1 (by omega)
        simp only [hw]
  · rfl

theorem unmarshalBindings_congr (h : AgreeBelow buf buf' n) :
    ∀ (k : Nat) {s : UState}, s.cur.stop ≤ n →
      unmarshalBindings buf m k s = unmarshalBindings buf' m k s
  | 0, _, _ => rfl
  | k + 1, s, hs => by
    rw [unmarshalBindings_succ, unmarshalBindings_succ, consumestr_congr h hs]
    rcases h1 : consumestr buf' s.cur with _ | ⟨src, c1⟩
    · rfl
    have t1 := (rest_of_consumestr h1).2
    simp only
    rw [consumestr_congr h (t1 ▸ hs)]
    rcases h2 : consumestr buf' c1 with _ | ⟨dest, c2⟩
    · rfl
    have t2 := (rest_of_consumestr h2).2
    simp only
    rcases h3 : consumebytes 4 c2 with _ | ⟨w, c3⟩
    · rfl
    obtain ⟨hle, rfl, rfl⟩ := consumebytes_eq_some.mp h3
    have hw : window buf c2.pos 4 = window buf' c2.pos 4 :=
      window_congr fun i h1 h2 => Cursor.agree h (t2.trans t1 ▸ hs) i h1 (by omega)
    simp only [hw]
    split
    · rfl
    · exact unmarshalBindings_congr h k ((Cursor.stop_skip hle).trans (t2.trans t1) ▸ hs)

end Congr

end Libminijail
