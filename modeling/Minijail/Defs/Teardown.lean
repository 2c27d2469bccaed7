import Minijail.Defs.Destroy
import Minijail.Defs.UnmarshalErrors

/-! The policy `minijail_unmarshal` builds, torn down by `minijail_destroy`. Each section of the
unmarshaller that succeeds allocates fresh blocks and points the struct at them, so the teardown
frees each of them once and leaves the allocated blocks of the heap as they were before the
unmarshal. -/

namespace Libminijail

theorem Slot.blocks_eq_nil {α : Type} {s : Slot α} (h : s.val? = none) : s.blocks = [] := by
  cases s <;> simp_all [Slot.blocks, Slot.val?]

theorem headerOf_user_val? (buf : Nat → UInt8) : (headerOf buf).user.val? = none := by
  simp only [headerOf, Minijail.ofRaw, Slot.val?_ofAddr]

theorem headerOf_chrootdir_val? (buf : Nat → UInt8) : (headerOf buf).chrootdir.val? = none := by
  simp only [headerOf, Minijail.ofRaw, Slot.val?_ofAddr]

section Sections

variable {buf : Nat → UInt8} {m : Malloc} {s s' : UState}

theorem unmarshalStr_adds {get : Minijail → Slot CStr} {set : Minijail → Slot CStr → Minijail}
    {bad : Label} (hsg : set s.j (get s.j) = s.j) (h : unmarshalStr get set bad buf m s = .ok s') :
    ∃ q : Slot CStr, q.isStale = false ∧ s'.j = set s.j q ∧ s.mem.Adds s'.mem q.blocks := by
  unfold unmarshalStr at h
  split at h
  · cases h
    have hq := Slot.eq_null_of_isNull ‹_›
    refine ⟨get s.j, by simp [hq], hsg.symm, ?_⟩
    rw [hq]
    exact .of_live_eq rfl
  rcases hc : consumestr buf s.cur with _ | ⟨str, cur⟩ <;> simp only [hc] at h
  · cases h
  rcases hm : s.mem.new m str with ⟨_ | p, mem⟩ <;> simp only [hm] at h <;> cases h
  exact ⟨.live p, rfl, rfl, by simpa using Mem.new_adds_of hm⟩

theorem unmarshalFilter_adds (h : unmarshalFilter buf m s = .ok s') (hs : s.j.filterProg = .null) :
    ∃ fp : Slot SockFprog, s'.j = { s.j with filterProg := fp } ∧ fp.isStale = false ∧
      (∀ p, fp = .live p → s.j.flags.seccompFilter = true ∧ 0 < s.j.filterLen.toInt) ∧
      s.mem.Adds s'.mem (filterBlocks fp) := by
  unfold unmarshalFilter at h
  split at h
  · rename_i ha
    by_cases hb : s.j.filterLen.toNat > SIZE_MAX / sizeofSockFilter ∨
        s.j.filterLen.toNat > USHRT_MAX
    · simp only [dif_pos hb] at h; cases h
    simp only [dif_neg hb] at h
    rcases hc : consumebytes (s.j.filterLen.toNat * sizeofSockFilter) s.cur with _ | ⟨_, cur⟩ <;>
      simp only [hc] at h
    · cases h
    rcases h1 : s.mem.alloc m with ⟨_ | fp, mem1⟩ <;> simp only [h1] at h
    · cases h
    rcases h2 : mem1.alloc m with ⟨_ | f, mem2⟩ <;> simp only [h2] at h
    · cases h
    cases h
    exact ⟨.live _, rfl, rfl, fun _ _ => ha,
      ((Mem.alloc_adds_of h1).trans (Mem.alloc_adds_of h2)).perm (.swap _ _ _)⟩
  · cases h
    exact ⟨.null, by rw [← hs], rfl, nofun, .of_live_eq rfl⟩

theorem unmarshalStr_exit {get : Minijail → Slot CStr} {set : Minijail → Slot CStr → Minijail}
    {bad : Label} {e : Exit} (hs : (get s.j).val? = none) (hsg : set s.j (get s.j) = s.j)
    (h : unmarshalStr get set bad buf m s = .error e) :
    ∃ (q : Slot CStr) (M : Mem), q.val? = none ∧ e = .goto bad (set s.j q) M ∧ s.mem.Adds M [] := by
  unfold unmarshalStr at h
  split at h
  · cases h
  rcases hc : consumestr buf s.cur with _ | ⟨str, cur⟩ <;> simp only [hc] at h
  · cases h
    exact ⟨_, _, hs, by rw [hsg], .of_live_eq rfl⟩
  rcases hm : s.mem.new m str with ⟨_ | p, mem⟩ <;> simp only [hm] at h <;> cases h
  exact ⟨.null, _, rfl, rfl, by simpa using Mem.new_adds_of hm⟩

theorem unmarshalFilter_exit {l : Label} {J : Minijail} {M : Mem}
    (h : unmarshalFilter buf m s = .error (.goto l J M)) : l = .badFilters ∧ J = s.j ∧ M = s.mem := by
  rcases unmarshalFilter_cases buf m s with ⟨-, h'⟩ | ⟨-, -, h'⟩ | ⟨-, -, -, ⟨_, _, h', -⟩ | ⟨_, -, -, h'⟩⟩ <;>
    rw [h'] at h <;> cases h
  exact ⟨rfl, rfl, rfl⟩

theorem minijailBind_adds_of_ne {j j' : Minijail} {mem mem' : Mem} {src dest : CStr}
    {w : BitVec 32} {r : Int} (h : minijailBind j mem m src dest w = (j', mem', r)) (hr : r ≠ 0) :
    j' = j ∧ mem.Adds mem' [] := by
  unfold minijailBind at h
  split at h
  · cases h
    exact ⟨rfl, .of_live_eq rfl⟩
  rcases h1 : mem.alloc m with ⟨_ | b, mem1⟩ <;> simp only [h1] at h
  · cases h
    exact ⟨rfl, Mem.alloc_adds_of h1⟩
  rcases h2 : mem1.new m dest with ⟨_ | d, mem2⟩ <;> simp only [h2] at h
  · cases h
    have a : mem.Adds mem2 ([] ++ [b.1]) := (Mem.alloc_adds_of h1).trans (Mem.new_adds_of h2)
    exact ⟨rfl, (a.free b.2 : mem.Adds _ ([] ++ []))⟩
  rcases h3 : mem2.new m src with ⟨_ | s, mem3⟩ <;> simp only [h3] at h
  · cases h
    have a : mem.Adds mem3 ([b.1] ++ [d.addr]) :=
      (Mem.alloc_adds_of h1).trans ((Mem.new_adds_of h2).trans (Mem.new_adds_of h3))
    exact ⟨rfl, ((a.free d.addr_ne : mem.Adds _ ([] ++ [b.1])).free b.2 : mem.Adds _ ([] ++ []))⟩
  · split at h <;> cases h <;> exact absurd rfl hr

theorem unmarshalBindings_adds {n : Nat} {L : List (Addr × Binding)} {r : Except Exit UState}
    (h : unmarshalBindings buf m n s = r) (hL : BindingsInv s.j s.mem L) :
    ∃ (J : Minijail) (M : Mem) (L' : List (Addr × Binding)) (N : List Addr), BindingsInv J M L' ∧
      bindingBlocks L' = bindingBlocks L ++ N ∧ s.mem.Adds M N ∧
      (∃ (v : Bool) (hd tl : Addr) (c : BitVec 32),
        J = { s.j with flags := { s.j.flags with vfs := v }, bindingsHead := hd,
                        bindingsTail := tl, bindingCount := c }) ∧
      ((∃ cur, r = .ok ⟨J, M, cur⟩) ∨ r = .error (.goto .badBindings J M)) := by
  subst h
  induction n generalizing s L with
  | zero => exact ⟨_, _, L, [], hL, by simp, .of_live_eq rfl, ⟨_, _, _, _, rfl⟩, .inl ⟨s.cur, rfl⟩⟩
  | succ n ih =>
    rw [unmarshalBindings_succ]
    -- a record cut short stops the loop with nothing allocated
    rcases h1 : consumestr buf s.cur with _ | ⟨src, c1⟩ <;> simp only [h1] <;>
      try exact ⟨_, _, L, [], hL, by simp, .of_live_eq rfl, ⟨_, _, _, _, rfl⟩, .inr rfl⟩
    rcases h2 : consumestr buf c1 with _ | ⟨dest, c2⟩ <;> simp only [h2] <;>
      try exact ⟨_, _, L, [], hL, by simp, .of_live_eq rfl, ⟨_, _, _, _, rfl⟩, .inr rfl⟩
    rcases h3 : consumebytes 4 c2 with _ | ⟨w, c3⟩ <;> simp only [h3] <;>
      try exact ⟨_, _, L, [], hL, by simp, .of_live_eq rfl, ⟨_, _, _, _, rfl⟩, .inr rfl⟩
    rcases hb : minijailBind s.j s.mem m src dest (.ofNat 32 (leNat (window buf w 4))) with
      ⟨j1, mem1, r⟩
    by_cases hr : r = 0
    · subst hr
      obtain ⟨b, node, _, hL1, a1, rfl⟩ := hL.bind_ok hb
      obtain ⟨J, M, L', N, hL', hB, a2, ⟨v, hd, tl, c, rfl⟩, hend⟩ := ih (s := ⟨_, _, c3⟩) hL1
      simp only [ne_eq, not_true_eq_false, if_false]
      exact ⟨_, M, L', _, hL', by rw [hB, bindingBlocks_snocLink, List.append_assoc], a1.trans a2,
        ⟨v, hd, tl, c, rfl⟩, hend⟩
    · obtain ⟨-, rfl, g, -⟩ := (minijailBind_cases hb).resolve_right fun h => hr h.1
      simp only [if_pos hr]
      exact ⟨_, mem1, L, [], hL.frame g rfl rfl rfl id, by simp, (minijailBind_adds_of_ne hb hr).2,
        ⟨_, _, _, _, rfl⟩, .inr rfl⟩

end Sections

theorem unmarshalBody_of_ret {j Q : Minijail} {mem : Mem} {m : Malloc} {buf : Nat → UInt8}
    {L : Nat} (h : (minijailUnmarshal j mem m buf L).1 = .ret Q 0) :
    ∃ u, unmarshalBody buf m (bodyStart buf mem L) = .ok u ∧ Q = u.j ∧
      (minijailUnmarshal j mem m buf L).2 = u.mem := by
  by_cases hL : L < sizeofMinijail
  · simp [minijailUnmarshal, hL, EINVAL] at h
  rcases hb : unmarshalBody buf m (bodyStart buf mem L) with e | u
  · exact absurd h ((unmarshal_of_error hL hb).2 Q)
  rw [minijailUnmarshal_eq hL, hb] at h ⊢
  cases h
  exact ⟨u, rfl, rfl, rfl⟩

def headerThen (P : Minijail) (rest : List UInt8) (i : Nat) : UInt8 :=
  if i < sizeofMinijail then rawBuf P i else rest.getD (i - sizeofMinijail) 0

theorem headerOf_headerThen (P : Minijail) (rest : List UInt8) :
    headerOf (headerThen P rest) = headerOf (rawBuf P) := by
  simp only [headerOf]
  rw [@window_congr (headerThen P rest) (rawBuf P) 0 sizeofMinijail fun i _ hi =>
    if_pos (by simpa using hi)]

def chrootHeader : Minijail := { minijailNew with chrootdir := .ofAddr 1 }

def chrootBuf : Nat → UInt8 := headerThen chrootHeader [47, 0]

/-- The blocks the cleanup code from label `l` on frees, read from the struct it finds: each label
frees one field and falls through to the next. -/
def Label.frees (l : Label) (j : Minijail) : List Addr :=
  match l with
  | .badBindings =>
    (if j.flags.seccompFilter ∧ 0 < j.filterLen.toInt then filterBlocks j.filterProg else []) ++
      j.chrootdir.blocks ++ j.chdir.blocks ++ j.user.blocks
  | .badFilters => j.chrootdir.blocks ++ j.chdir.blocks ++ j.user.blocks
  | .badChdir => j.chdir.blocks ++ j.user.blocks
  | .badChrootdir => j.user.blocks
  | .clearPointers => []

section Cleanup

variable {J Q : Minijail} {M M' mem0 : Mem} {R : List Addr}

theorem Mem.Adds.freeSlot {α : Type} {q : Slot α} (h : mem0.Adds M (q.blocks ++ R))
    (hf : freeSlot q M = some M') : mem0.Adds M' R ∧ M'.nodes = M.nodes := by
  cases q with
  | null => cases hf; exact ⟨h, rfl⟩
  | stale => cases hf
  | live p =>
    cases hf
    have h' : mem0.Adds M ([] ++ p.addr :: R) := h
    exact ⟨h'.free p.addr_ne, Mem.nodes_free _ _⟩

theorem Label.run_adds {l : Label} (hr : l.run J M = some (Q, M'))
    (h : mem0.Adds M (l.frees J ++ R)) : mem0.Adds M' R ∧ M'.nodes = M.nodes := by
  have user : ∀ {M}, Libminijail.badChrootdir J M = some (Q, M') → mem0.Adds M (J.user.blocks ++ R) →
      mem0.Adds M' R ∧ M'.nodes = M.nodes := fun hr h => by
    obtain ⟨M1, h1, h2⟩ := Option.bind_eq_some.mp hr
    cases h2
    exact h.freeSlot h1
  have chdir : ∀ {M}, Libminijail.badChdir J M = some (Q, M') →
      mem0.Adds M (J.chdir.blocks ++ (J.user.blocks ++ R)) → mem0.Adds M' R ∧ M'.nodes = M.nodes :=
    fun hr h => by
      obtain ⟨M1, h1, h2⟩ := Option.bind_eq_some.mp hr
      obtain ⟨a1, n1⟩ := h.freeSlot h1
      exact (user h2 a1).imp_right (·.trans n1)
  have filters : ∀ {M}, Libminijail.badFilters J M = some (Q, M') →
      mem0.Adds M (J.chrootdir.blocks ++ (J.chdir.blocks ++ (J.user.blocks ++ R))) →
      mem0.Adds M' R ∧ M'.nodes = M.nodes := fun hr h => by
    obtain ⟨M1, h1, h2⟩ := Option.bind_eq_some.mp hr
    obtain ⟨a1, n1⟩ := h.freeSlot h1
    exact (chdir h2 a1).imp_right (·.trans n1)
  cases l <;> simp only [Label.frees, List.append_assoc] at h
  case clearPointers => cases hr; exact ⟨h, rfl⟩
  case badChrootdir => exact user hr h
  case badChdir => exact chdir hr h
  case badFilters => exact filters hr h
  case badBindings =>
    simp only [Label.run, Libminijail.badBindings] at hr
    split at hr <;> rename_i hc <;> simp only [hc, if_true, if_false, List.nil_append] at h
    · cases hq : J.filterProg with
      | live p =>
        simp only [hq, filterBlocks, List.cons_append, List.nil_append] at hr h
        have h1 : mem0.Adds M ([] ++ p.val.filter.addr :: p.addr :: _) := h
        have h2 : mem0.Adds (M.free p.val.filter.addr) ([] ++ p.addr :: _) := h1.free p.val.filter.addr_ne
        have a := h2.free p.addr_ne
        exact (filters hr a).imp_right fun e => e.trans (by simp)
      | _ => simp [hq] at hr
    · exact filters hr h

theorem BindingsInv.cleared {L : List (Addr × Binding)} (h : BindingsInv J M L)
    (hn : M'.nodes = M.nodes) (hl : ∀ p ∈ L, M'.live p.1 = true) :
    BindingsInv { J with user := .null, chrootdir := .null, chdir := .null } M' L :=
  { h with chain := h.chain.congr fun _ _ => by rw [hn], live := hl }

theorem destroyBindings_zero (mem : Mem) (fuel : Nat) : destroyBindings mem 0 fuel = some mem := by
  cases fuel <;> simp [destroyBindings]

theorem minijailDestroy_bare (hf : J.filterProg = .null) (hh : J.bindingsHead = 0) :
    minijailDestroy { J with user := .null, chrootdir := .null, chdir := .null } M = some M := by
  simp only [minijailDestroy, destroyFilter, hf, hh, destroyBindings_zero, Slot.isNull_null,
    Bool.true_eq_false, and_false, if_false, Option.bind_eq_bind, Option.some_bind, Slot.release]

theorem minijailDestroy_of_freed {p : Ptr SockFprog} (hs : J.flags.seccompFilter = true)
    (hq : J.filterProg = .live p) (hp : M.live p.addr = false) : minijailDestroy J M = none := by
  have hf : (M.free p.val.filter.addr).release p.addr = none := by
    rw [Mem.release, if_neg p.addr_ne, if_neg]
    simp [Mem.live_free_iff p.val.filter.addr_ne, hp]
  simp only [minijailDestroy, destroyFilter, hs, hq, Slot.isNull_live, and_self, if_true, hf,
    Option.bind_eq_bind, Option.none_bind]

end Cleanup

section Failure

variable {buf : Nat → UInt8} {m : Malloc} {mem : Mem} {L : Nat}

theorem mem_bindingBlocks {L : List (Addr × Binding)} {p : Addr × Binding} (hp : p ∈ L) :
    p.1 ∈ bindingBlocks L :=
  List.mem_flatMap.2 ⟨p, hp, by simp⟩

theorem destroy_after_cleanup {l : Label} {J Q : Minijail} {M M' : Mem}
    (hb : unmarshalBody buf m (bodyStart buf mem L) = .error (.goto l J M))
    (hr : l.run J M = some (Q, M')) :
    if l = .badBindings ∧ J.filterProg.isNull = false then minijailDestroy Q M' = none
    else ∃ mem', minijailDestroy Q M' = some mem' ∧
      mem.Adds mem' (if l = .badChdir then J.chrootdir.blocks else []) := by
  obtain rfl := Label.run_struct hr
  -- before the binding loop the struct has no filter program and no node
  have bare : ∀ {R}, J.filterProg = .null → J.bindingsHead = 0 → mem.Adds M (l.frees J ++ R) →
      ∃ mem', minijailDestroy { J with user := .null, chrootdir := .null, chdir := .null } M' =
        some mem' ∧ mem.Adds mem' R :=
    fun hf hh h => ⟨M', minijailDestroy_bare hf hh, (Label.run_adds hr h).1⟩
  simp only [unmarshalBody, bind, Except.bind] at hb
  rcases h1 : unmarshalUser buf m (bodyStart buf mem L) with e | u1 <;> simp only [h1] at hb
  · cases hb
    obtain ⟨q, M0, -, he, a⟩ := unmarshalStr_exit (headerOf_user_val? buf) rfl h1
    cases he
    rw [if_neg (by simp), if_neg (by simp)]
    exact bare rfl rfl a
  obtain ⟨q1, -, hj1, a1⟩ := unmarshalStr_adds rfl h1
  rcases h2 : unmarshalChrootdir buf m u1 with e | u2 <;> simp only [h2] at hb
  · cases hb
    obtain ⟨q, M0, -, he, a⟩ :=
      unmarshalStr_exit (by rw [hj1]; exact headerOf_chrootdir_val? buf) rfl h2
    cases he
    rw [if_neg (by simp), if_neg (by simp)]
    exact bare (by rw [hj1]; rfl) (by rw [hj1]; rfl) (by simpa [Label.frees, hj1] using a1.trans a)
  obtain ⟨q2, -, hj2, a2⟩ := unmarshalStr_adds rfl h2
  rcases h3 : unmarshalChdir buf m u2 with e | u3 <;> simp only [h3] at hb
  · cases hb
    obtain ⟨q, M0, hq, he, a⟩ :=
      unmarshalStr_exit (by rw [hj2, hj1]; exact headerOf_chdir_val? buf) rfl h3
    cases he
    rw [if_neg (by simp), if_pos rfl]
    exact bare (by rw [hj2, hj1]; rfl) (by rw [hj2, hj1]; rfl)
      (by simpa [Label.frees, hj2, hj1, Slot.blocks_eq_nil hq] using a1.trans (a2.trans a))
  obtain ⟨q3, -, hj3, a3⟩ := unmarshalStr_adds rfl h3
  rcases h4 : unmarshalFilter buf m u3 with e | u4 <;> simp only [h4] at hb
  · cases hb
    obtain ⟨rfl, rfl, rfl⟩ := unmarshalFilter_exit h4
    rw [if_neg (by simp), if_neg (by simp)]
    refine bare (by rw [hj3, hj2, hj1]; rfl) (by rw [hj3, hj2, hj1]; rfl)
      ((a1.trans (a2.trans a3)).perm ?_)
    simp only [Label.frees, hj3, hj2, hj1, List.append_nil]
    exact List.perm_iff_count.2 fun a => by simp only [List.count_append]; omega
  obtain ⟨fp, hj4, hfs, hsf, a4⟩ := unmarshalFilter_adds h4 (by rw [hj3, hj2, hj1]; rfl)
  obtain ⟨J', M'', L', N, hL', hB, a5, ⟨v, hd, tl, c, hj⟩, ⟨cur, hok⟩ | herr⟩ :=
    unmarshalBindings_adds hb
      (BindingsInv.empty (by rw [hj4, hj3, hj2, hj1]; rfl) (by rw [hj4, hj3, hj2, hj1]; rfl) rfl)
  · cases hok
  cases herr
  simp only [hj4, hj3, hj2, hj1] at hj
  rw [hj3, hj2, hj1] at hsf
  have hfb : (if J.flags.seccompFilter ∧ 0 < J.filterLen.toInt then filterBlocks J.filterProg
      else []) = filterBlocks fp := by
    rw [hj]
    rcases fp with _ | _ | p
    · simp [filterBlocks]
    · cases hfs
    · exact if_pos (hsf _ rfl)
  -- the blocks allocated since `mem`, in the order `bad_bindings` frees them, then the nodes'
  have hA : mem.Adds M (Label.frees .badBindings J ++ N) := by
    refine (a1.trans (a2.trans (a3.trans (a4.trans a5)))).perm ?_
    simp only [Label.frees, hfb]
    rw [hj]
    exact List.perm_iff_count.2 fun a => by simp only [List.count_append]; omega
  obtain ⟨a6, n6⟩ := Label.run_adds hr hA
  have hN : bindingBlocks L' = N := hB
  rcases fp with _ | _ | p
  · -- no filter program: the label frees the strings and the teardown the nodes
    rw [if_neg (by simp [hj]), if_neg (by simp)]
    exact minijailDestroy_of_adds (R := [])
      (hL'.cleared n6 fun p hp => a6.live _ (hN ▸ mem_bindingBlocks hp))
      ⟨rfl, rfl, rfl, by rw [hj]; rfl⟩
      (a6.perm (by simp [destroyedBlocks, heldBlocks, hN, hj, filterBlocks]))
      (by rw [hj]; nofun)
  · cases hfs
  · -- a filter program: the label frees it and leaves `filter_prog` pointing at it
    rw [if_pos ⟨rfl, by rw [hj]; rfl⟩]
    have hm : p.addr ∈ Label.frees .badBindings J := by
      rw [Label.frees, hfb]
      simp [filterBlocks]
    refine minijailDestroy_of_freed (by rw [hj]; exact (hsf p rfl).1) (by rw [hj]) ?_
    refine Bool.eq_false_iff.2 fun h => ((a6.live_iff _).1 h).elim (fun h' => ?_)
      (List.disjoint_of_nodup_append hA.nodup hm)
    simp [hA.fresh _ (List.mem_append_left _ hm)] at h'

end Failure

def filterCutHeader : Minijail :=
  { minijailNew with flags := { minijailNew.flags with seccompFilter := true }, filterLen := 1,
                     bindingCount := 1 }

def filterCutBuf : Nat → UInt8 := headerThen filterCutHeader (List.replicate 8 0)

end Libminijail
