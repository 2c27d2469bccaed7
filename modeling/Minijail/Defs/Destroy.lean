import Minijail.Defs.BuilderLaws

/-! `minijail_destroy` and the heap blocks a policy owns. The model's `free` stops on a pointer
that is neither `NULL` nor an allocated block, so a teardown that runs to the end frees no block
twice and none that the process did not allocate. On every policy the builder surface produces,
the teardown runs to the end and frees each block the policy points to once, except the
`sock_fprog` of `minijail_parse_seccomp_filters` when `seccomp_filter` is off. -/

namespace Libminijail

/-- `free(p)` where `p` must be `NULL` or an allocated block: anything else is a double or an
invalid free, which is undefined and stops the model. -/
def Mem.release (mem : Mem) (a : Addr) : Option Mem :=
  if a = 0 then some mem else if mem.live a then some (mem.free a) else none

def Slot.release {α : Type} (s : Slot α) (mem : Mem) : Option Mem :=
  match s with
  | .null => some mem
  | .stale _ _ => none
  | .live p => mem.release p.addr

def destroyBindings (mem : Mem) (a : Addr) : Nat → Option Mem
  | 0 => if a = 0 then some mem else none
  | fuel + 1 =>
    if a = 0 then some mem
    else match mem.nodes a with
      | some b =>
        if mem.live a then do
          let mem ← mem.release b.dest.addr
          let mem ← mem.release b.src.addr
          let mem ← mem.release a
          destroyBindings mem b.next fuel
        else none
      | none => none

def destroyFilter (j : Minijail) (mem : Mem) : Option Mem :=
  if j.flags.seccompFilter ∧ j.filterProg.isNull = false then
    match j.filterProg with
    | .live p => (mem.free p.val.filter.addr).release p.addr
    | _ => none
  else some mem

/-- `minijail_destroy(j)`. The struct itself is not on the model's heap, so the store of `NULL`
in `bindings_tail` and the final `free(j)` are left out. As for `bindingList`, the bound `2 ^ 64`
on the loop only cuts off cycles. -/
def minijailDestroy (j : Minijail) (mem : Mem) : Option Mem := do
  let mem ← destroyFilter j mem
  let mem ← destroyBindings mem j.bindingsHead (2 ^ 64)
  let mem ← j.user.release mem
  let mem ← j.chrootdir.release mem
  j.chdir.release mem

structure Mem.Holds (mem : Mem) (l : List Addr) : Prop where
  nodup : l.Nodup
  live : ∀ a ∈ l, mem.live a = true

namespace Mem

variable {mem mem' : Mem} {a x : Addr} {l l₁ l₂ : List Addr}

theorem release_of_live (h : mem.live a = true) : mem.release a = some (mem.free a) := by
  unfold release; split
  · subst a; simp [free]
  · simp [h]

@[simp] theorem nodes_foldl_free : (l.foldl Mem.free mem).nodes = mem.nodes := by
  induction l generalizing mem <;> simp [*]

theorem live_foldl_free_of_not_mem (hx : x ∉ l) : (l.foldl Mem.free mem).live x = mem.live x := by
  induction l generalizing mem with
  | nil => rfl
  | cons a l ih =>
    simp only [List.mem_cons, not_or] at hx
    rw [List.foldl_cons, ih hx.2, live_free_of_ne _ hx.1]

theorem live_foldl_free (hl : ∀ a ∈ l, a ≠ 0) :
    (l.foldl Mem.free mem).live x = true ↔ mem.live x = true ∧ x ∉ l := by
  induction l generalizing mem with
  | nil => simp
  | cons a l ih =>
    simp only [List.forall_mem_cons] at hl
    simp [ih hl.2, live_free_iff hl.1, and_assoc]

theorem Holds.left (h : mem.Holds (l₁ ++ l₂)) : mem.Holds l₁ :=
  ⟨h.nodup.sublist (List.sublist_append_left _ _), fun a ha => h.live a (List.mem_append_left _ ha)⟩

theorem Holds.after (h : mem.Holds (l₁ ++ l₂)) : (l₁.foldl Mem.free mem).Holds l₂ :=
  ⟨h.nodup.sublist (List.sublist_append_right _ _), fun a ha => by
    rw [live_foldl_free_of_not_mem fun h' => List.disjoint_of_nodup_append h.nodup h' ha]
    exact h.live a (List.mem_append_right _ ha)⟩

theorem Holds.step {l' N : List Addr} (h : mem.Holds l) (hN : mem.Adds mem' N)
    (hs : List.Subperm l' (l ++ N)) : mem'.Holds l' := by
  obtain ⟨k, hp, hsub⟩ := hs
  have hnd : (l ++ N).Nodup := List.nodup_append.2 ⟨h.nodup, hN.nodup, fun a ha hb => by
    simpa [h.live a ha] using hN.fresh a hb⟩
  refine ⟨hp.nodup_iff.1 (hnd.sublist hsub), fun a ha => ?_⟩
  rcases List.mem_append.1 (hsub.subset (hp.mem_iff.2 ha)) with ha | ha
  · exact hN.mono a (h.live a ha)
  · exact hN.live a ha

theorem Holds.frame {l' : List Addr} (h : mem.Holds l)
    (hl : ∀ a, mem.live a = true → mem'.live a = true) (e : l' = l) : mem'.Holds l' :=
  ⟨e ▸ h.nodup, fun a ha => hl a (h.live a (e ▸ ha))⟩

theorem Adds.drop {mem'' : Mem} {D R : List Addr} (h : mem.Adds mem' (D ++ R))
    (hl : ∀ a, mem''.live a = true ↔ mem'.live a = true ∧ a ∉ D) : mem.Adds mem'' R where
  nodup := (List.nodup_append.1 h.nodup).2.1
  fresh a ha := h.fresh a (List.mem_append_right _ ha)
  live_iff a := by
    have hf := h.fresh a
    rw [hl, h.live_iff, List.mem_append]
    constructor
    · rintro ⟨h1 | h1 | h1, h2⟩
      exacts [.inl h1, absurd h1 h2, .inr h1]
    · rintro (h1 | h1)
      · exact ⟨.inl h1, fun hD => by simp [hf (List.mem_append_left _ hD)] at h1⟩
      · exact ⟨.inr (.inr h1), fun hD => List.disjoint_of_nodup_append h.nodup hD h1⟩

theorem Adds.live_eq (h : mem.Adds mem' []) : mem'.live = mem.live :=
  funext fun a => Bool.eq_iff_iff.2 (by simpa using h.live_iff a)

end Mem

theorem Slot.release_of_holds {α : Type} {s : Slot α} {mem : Mem} (hs : s.isStale = false)
    (h : mem.Holds s.blocks) : s.release mem = some (s.blocks.foldl Mem.free mem) := by
  cases s with
  | null => rfl
  | stale => cases hs
  | live p => exact Mem.release_of_live (h.live _ (List.mem_singleton_self _))

theorem Slot.blocks_ne_zero {α : Type} (s : Slot α) : ∀ a ∈ s.blocks, a ≠ 0 := by
  cases s with
  | live p => simpa using p.addr_ne
  | _ => simp [Slot.blocks]

def bindingBlocks (L : List (Addr × Binding)) : List Addr :=
  L.flatMap fun p => [p.2.dest.addr, p.2.src.addr, p.1]

def heldBlocks (j : Minijail) (L : List (Addr × Binding)) : List Addr :=
  bindingBlocks L ++ j.user.blocks ++ j.chrootdir.blocks ++ j.chdir.blocks

def ownedBlocks (j : Minijail) (L : List (Addr × Binding)) : List Addr :=
  j.filterProg.blocks ++ heldBlocks j L

def filterBlocks : Slot SockFprog → List Addr
  | .live p => [p.val.filter.addr, p.addr]
  | _ => []

def destroyedBlocks (j : Minijail) (L : List (Addr × Binding)) : List Addr :=
  (if j.flags.seccompFilter then filterBlocks j.filterProg else []) ++ heldBlocks j L

structure Minijail.NoStale (j : Minijail) : Prop where
  user : j.user.isStale = false
  chrootdir : j.chrootdir.isStale = false
  chdir : j.chdir.isStale = false
  filterProg : j.filterProg.isStale = false

theorem PolicyInv.noStale {j : Minijail} (h : PolicyInv j) : j.NoStale :=
  ⟨h.user, h.chrootdir, h.chdirSlot, h.filterProg⟩

theorem bindingBlocks_cons (a : Addr) (b : Binding) (L : List (Addr × Binding)) :
    bindingBlocks ((a, b) :: L) = [b.dest.addr, b.src.addr, a] ++ bindingBlocks L :=
  List.flatMap_cons _ _ _

theorem bindingBlocks_ne_zero {nodes : Addr → Option Binding} {a : Addr}
    {L : List (Addr × Binding)} (h : Chain nodes a L) : ∀ x ∈ bindingBlocks L, x ≠ 0 := by
  induction h with
  | nil => simp [bindingBlocks]
  | cons ha _ _ ih =>
    simp only [bindingBlocks_cons, List.forall_mem_append, List.forall_mem_cons]
    exact ⟨⟨Ptr.addr_ne _, Ptr.addr_ne _, ha, nofun⟩, ih⟩

theorem bindingBlocks_snocLink (L : List (Addr × Binding)) (b : Addr) (node : Binding) :
    bindingBlocks (snocLink L b node) = bindingBlocks L ++ [node.dest.addr, node.src.addr, b] := by
  rcases L.eq_nil_or_concat with rfl | ⟨L₀, ⟨t, bt⟩, rfl⟩
  · rfl
  · simp [snocLink_concat, bindingBlocks]

theorem subperm_replace {α : Type} (A S B N : List α) :
    List.Subperm (A ++ N ++ B) (A ++ S ++ B ++ N) := by
  simp only [List.append_assoc]
  exact ((@List.perm_append_comm _ N B).append_left A).subperm.trans
    ((List.sublist_append_right S (B ++ N)).append_left A).subperm

section Owns

variable {j j' : Minijail} {mem mem' : Mem} {L : List (Addr × Binding)}

theorem Call.run_holds {c : Call} {r : Int} (hc : ∀ src dest w m, c ≠ .bind src dest w m)
    (h : mem.Holds (ownedBlocks j L)) (hr : c.run j mem = some (j', mem', r)) :
    mem'.Holds (ownedBlocks j' L) := by
  cases c <;> simp only [Call.run, Option.map_eq_some', Option.some.injEq, Prod.mk.injEq] at hr
  case changeUid =>
    obtain ⟨j1, hj1, rfl, rfl, -⟩ := hr
    unfold minijailChangeUid at hj1; split at hj1 <;> cases hj1; exact h.frame (fun _ => id) rfl
  case changeGid =>
    obtain ⟨j1, hj1, rfl, rfl, -⟩ := hr
    unfold minijailChangeGid at hj1; split at hj1 <;> cases hj1; exact h.frame (fun _ => id) rfl
  case changeUser =>
    obtain ⟨g, rfl | ⟨_, _, u, -, hf, rfl⟩⟩ := minijailChangeUser_cases hr
    · exact h.frame g.2 rfl
    · refine h.step hf ?_
      simpa only [ownedBlocks, heldBlocks, List.append_assoc] using
        subperm_replace (j.filterProg.blocks ++ bindingBlocks L) j.user.blocks
          (j.chrootdir.blocks ++ j.chdir.blocks) u.blocks
  case changeGroup =>
    obtain ⟨g, rfl | ⟨_, rfl⟩⟩ := minijailChangeGroup_cases hr <;> exact h.frame g.2 rfl
  case enterChroot =>
    obtain ⟨g, rfl | ⟨p, -, hf, rfl⟩⟩ := minijailEnterChroot_cases hr
    · exact h.frame g.2 rfl
    · refine h.step hf ?_
      simpa only [ownedBlocks, heldBlocks, List.append_assoc] using
        subperm_replace (j.filterProg.blocks ++ bindingBlocks L ++ j.user.blocks)
          j.chrootdir.blocks j.chdir.blocks [p.addr]
  case chrootChdir =>
    obtain ⟨g, rfl | ⟨p, -, -, -, hf, rfl⟩⟩ := minijailChrootChdir_cases hr
    · exact h.frame g.2 rfl
    · refine h.step hf ?_
      simpa only [ownedBlocks, heldBlocks, List.append_assoc] using
        subperm_replace (j.filterProg.blocks ++ bindingBlocks L ++ j.user.blocks ++
          j.chrootdir.blocks) j.chdir.blocks [] [p.addr]
  case bind src dest w m => exact absurd rfl (hc src dest w m)
  case parseSeccompFilters =>
    obtain ⟨⟨j1, mem1⟩, hj1, rfl, rfl, -⟩ := hr
    obtain ⟨g, p, hf, rfl⟩ := minijailParseSeccompFilters_cases hj1
    refine h.step hf ?_
    simpa only [ownedBlocks, List.append_assoc] using
      subperm_replace [] j.filterProg.blocks (heldBlocks j L) [p.addr]
  case metaFile opened =>
    obtain ⟨rfl, rfl, -⟩ := hr
    unfold minijailMetaFile; split <;> exact h.frame (fun _ => id) rfl
  all_goals obtain ⟨rfl, rfl, -⟩ := hr; exact h.frame (fun _ => id) rfl

theorem BindingsInv.bind_ok {m : Malloc} {src dest : CStr} {w : BitVec 32}
    (hL : BindingsInv j mem L) (hr : minijailBind j mem m src dest w = (j', mem', 0)) :
    ∃ b node hd, BindingsInv j' mem' (snocLink L b node) ∧
      mem.Adds mem' [node.dest.addr, node.src.addr, b] ∧
      j' = { j with flags := { j.flags with vfs := true }, bindingsHead := hd, bindingsTail := b,
                    bindingCount := j.bindingCount + 1 } := by
  rcases minijailBind_cases hr with ⟨hr0, -⟩ | ⟨-, hd, b, node, hb0, hc, hn, hf, -, hnodes, rfl⟩
  · exact absurd rfl hr0
  have hdn : node.dest.val.bytes.head? = some 47 := by
    rw [show node.dest.val = dest from congrArg (fun t => t.2.1) hc]; exact hd
  exact ⟨b, node, _, hL.link hb0 (hf.fresh b (by simp)) hn hdn hf.mono (hf.live b (by simp))
    hnodes, hf, rfl⟩

theorem BindingsInv.run_holds {c : Call} {r : Int} (hL : BindingsInv j mem L)
    (h : mem.Holds (ownedBlocks j L)) (hr : c.run j mem = some (j', mem', r)) :
    ∃ L', BindingsInv j' mem' L' ∧ mem'.Holds (ownedBlocks j' L') := by
  by_cases hcb : ∃ src dest w m, c = .bind src dest w m
  · obtain ⟨src, dest, w, m, rfl⟩ := hcb
    have hr' : minijailBind j mem m src dest w = (j', mem', r) := by simpa [Call.run] using hr
    by_cases hr0 : r = 0
    · subst hr0
      obtain ⟨b, node, _, hL', hf, rfl⟩ := hL.bind_ok hr'
      refine ⟨_, hL', h.step hf ?_⟩
      simpa only [ownedBlocks, heldBlocks, bindingBlocks_snocLink, List.append_assoc] using
        subperm_replace (j.filterProg.blocks ++ bindingBlocks L) []
          (j.user.blocks ++ j.chrootdir.blocks ++ j.chdir.blocks)
          [node.dest.addr, node.src.addr, b]
    · obtain ⟨-, rfl, g, -⟩ := (minijailBind_cases hr').resolve_right fun h' => hr0 h'.1
      exact ⟨L, hL.frame g rfl rfl rfl id, h.frame g.2 rfl⟩
  · push_neg at hcb
    obtain ⟨hh, ht, hcn, hv, g⟩ := Call.run_frame hcb hr
    exact ⟨L, hL.frame g hh ht hcn hv, Call.run_holds hcb h hr⟩

end Owns

theorem Built.holds {mem0 : Mem} {hist : List (Call × Int)} {j : Minijail} {mem : Mem}
    (h : Built mem0 hist j mem) :
    ∃ L, BindingsInv j mem L ∧ mem.Holds (ownedBlocks j L) ∧ PolicyInv j := by
  induction h with
  | new =>
    exact ⟨[], ⟨.nil, by simp, by simp, .inl ⟨rfl, rfl⟩, rfl, by simp, by simp⟩,
      ⟨by simp [ownedBlocks, heldBlocks, bindingBlocks, minijailNew], by
        simp [ownedBlocks, heldBlocks, bindingBlocks, minijailNew]⟩, .new⟩
  | call _ hr ih =>
    obtain ⟨L, hL, ho, hp⟩ := ih
    obtain ⟨L', hL', ho'⟩ := hL.run_holds ho hr
    exact ⟨L', hL', ho', hp.run hr⟩

section Destroy

variable {j : Minijail} {mem : Mem} {L : List (Addr × Binding)}

theorem destroyBindings_of_chain {a : Addr} {fuel : Nat} (hc : Chain mem.nodes a L)
    (hn : L.length ≤ fuel) (h : mem.Holds (bindingBlocks L)) :
    destroyBindings mem a fuel = some ((bindingBlocks L).foldl Mem.free mem) := by
  induction L generalizing a mem fuel with
  | nil => cases hc; cases fuel <;> simp [destroyBindings, bindingBlocks]
  | cons p L ih =>
    obtain ⟨f, rfl⟩ : ∃ f, fuel = f + 1 := ⟨fuel - 1, by simp at hn; omega⟩
    cases hc with
    | cons ha hb hc =>
    rename_i b
    rw [bindingBlocks_cons] at h ⊢
    obtain ⟨hnd, hl⟩ := h.left
    simp only [List.nodup_cons, List.mem_cons, List.mem_singleton, List.not_mem_nil, or_false,
      not_or] at hnd
    obtain ⟨⟨hds, hda⟩, hsa, -⟩ := hnd
    have hdl := hl b.dest.addr (by simp)
    have hsl := hl b.src.addr (by simp)
    have hal := hl a (by simp)
    simp only [destroyBindings, if_neg ha, hb, hal, if_true, Mem.release_of_live hdl,
      Option.bind_eq_bind, Option.some_bind]
    rw [Mem.release_of_live (by rw [Mem.live_free_of_ne _ (Ne.symm hds)]; exact hsl),
      Option.some_bind, Mem.release_of_live (by
        rw [Mem.live_free_of_ne _ (Ne.symm hsa), Mem.live_free_of_ne _ (Ne.symm hda)]; exact hal),
      Option.some_bind, List.foldl_append]
    exact ih (by simpa using hc) (by simpa using hn) h.after

theorem destroyFilter_spec (ho : mem.Holds (ownedBlocks j L)) (hs : j.filterProg.isStale = false)
    (hf : ∀ p, j.filterProg = .live p → p.val.filter.addr ∉ ownedBlocks j L) :
    ∃ mem', destroyFilter j mem = some mem' ∧ mem'.nodes = mem.nodes ∧
      ∀ a, mem'.live a = true ↔
        mem.live a = true ∧ a ∉ (if j.flags.seccompFilter then filterBlocks j.filterProg else []) := by
  unfold destroyFilter
  by_cases hsf : j.flags.seccompFilter = true
  · cases hq : j.filterProg with
    | null => exact ⟨mem, by simp [hq], rfl, by simp [hsf, filterBlocks]⟩
    | stale => simp [hq, Slot.isStale] at hs
    | live p =>
      have hp : p.addr ∈ ownedBlocks j L := by simp [ownedBlocks, hq]
      have hne : p.addr ≠ p.val.filter.addr := fun e => hf p hq (e ▸ hp)
      refine ⟨_, by simp only [hsf, Slot.isNull_live, and_self, if_true]; exact
        Mem.release_of_live (by rw [Mem.live_free_of_ne _ hne]; exact ho.live _ hp), by simp,
        fun a => ?_⟩
      rw [Mem.live_free_iff p.addr_ne, Mem.live_free_iff p.val.filter.addr_ne]
      simp only [hsf, if_true, filterBlocks, List.mem_cons, List.mem_singleton, List.not_mem_nil,
        or_false, not_or]
      tauto
  · exact ⟨mem, by simp [hsf], rfl, by simp [hsf]⟩

theorem minijailDestroy_spec (hL : BindingsInv j mem L) (ho : mem.Holds (ownedBlocks j L))
    (hp : j.NoStale) (hf : ∀ p, j.filterProg = .live p → p.val.filter.addr ∉ ownedBlocks j L) :
    ∃ mem', minijailDestroy j mem = some mem' ∧
      ∀ a, mem'.live a = true ↔ mem.live a = true ∧ a ∉ destroyedBlocks j L := by
  obtain ⟨mem1, h1, hn1, hl1⟩ := destroyFilter_spec ho hp.filterProg hf
  have hH : mem1.Holds (heldBlocks j L) :=
    ⟨ho.nodup.sublist (List.sublist_append_right _ _), fun a ha => (hl1 a).2
      ⟨ho.live a (List.mem_append_right _ ha), fun h' => by
        have ha' : a ∈ ownedBlocks j L := List.mem_append_right _ ha
        split at h'
        · cases hq : j.filterProg with
          | live p =>
            rw [hq, filterBlocks, List.mem_cons, List.mem_singleton] at h'
            rcases h' with rfl | rfl
            · exact hf p hq ha'
            · exact List.disjoint_of_nodup_append ho.nodup (by simp [hq]) ha
          | _ => simp [hq, filterBlocks] at h'
        · simp at h'⟩⟩
  simp only [heldBlocks, List.append_assoc] at hH
  have hB := destroyBindings_of_chain (hn1 ▸ hL.chain)
    (show L.length ≤ 2 ^ 64 by simpa using length_le_of_nodup hL.nodup) hH.left
  have hU := Slot.release_of_holds hp.user hH.after.left
  have hC := Slot.release_of_holds hp.chrootdir hH.after.after.left
  have hD := Slot.release_of_holds hp.chdir hH.after.after.after
  refine ⟨_, by simp only [minijailDestroy, h1, hB, hU, hC, hD, Option.bind_eq_bind,
    Option.some_bind]; rfl, fun a => ?_⟩
  have hz : ∀ x ∈ heldBlocks j L, x ≠ 0 := by
    simp only [heldBlocks, List.forall_mem_append]
    exact ⟨⟨⟨bindingBlocks_ne_zero hL.chain, Slot.blocks_ne_zero _⟩, Slot.blocks_ne_zero _⟩,
      Slot.blocks_ne_zero _⟩
  rw [← List.foldl_append, ← List.foldl_append, ← List.foldl_append, ← List.append_assoc,
    ← List.append_assoc]
  show (List.foldl Mem.free mem1 (heldBlocks j L)).live a = true ↔ _
  rw [Mem.live_foldl_free hz, hl1, destroyedBlocks, List.mem_append, not_or, and_assoc]

theorem minijailDestroy_of_adds {mem0 : Mem} {R : List Addr} (hL : BindingsInv j mem L)
    (hs : j.NoStale) (ha : mem0.Adds mem (destroyedBlocks j L ++ R))
    (hsf : ∀ p, j.filterProg = .live p → j.flags.seccompFilter = true) :
    ∃ mem', minijailDestroy j mem = some mem' ∧ mem0.Adds mem' R := by
  obtain ⟨F, hF, hFp⟩ : ∃ F, destroyedBlocks j L = F ++ ownedBlocks j L ∧
      ∀ p, j.filterProg = .live p → F = [p.val.filter.addr] := by
    cases hq : j.filterProg with
    | live p => exact ⟨[p.val.filter.addr], by
        simp [destroyedBlocks, ownedBlocks, hq, hsf p hq, filterBlocks], fun _ h => by cases h; rfl⟩
    | null => exact ⟨[], by simp [destroyedBlocks, ownedBlocks, hq, filterBlocks], nofun⟩
    | stale => simpa [hq, Slot.isStale] using hs.filterProg
  have hnd := ha.nodup
  rw [hF, List.append_assoc] at hnd
  obtain ⟨mem', hd, hl⟩ := minijailDestroy_spec hL
    ⟨(hnd.sublist (List.sublist_append_right _ _)).sublist (List.sublist_append_left _ _),
      fun a h => ha.live a (by rw [hF]; simp [h])⟩ hs
    fun p hp h => List.disjoint_of_nodup_append hnd (by simp [hFp p hp]) (List.mem_append_left _ h)
  exact ⟨mem', hd, ha.drop hl⟩

end Destroy

def emptyFprog : SockFprog := ⟨0, ⟨0x10000, by decide, []⟩, rfl⟩

def filterBindCalls : List (Call × Int) :=
  [(.parseSeccompFilters (some emptyFprog) bumpMalloc, 0), (.useSeccompFilter, 0),
   (.bind rootStr rootStr 0 bumpMalloc, 0)]

def filtered : Minijail × Mem :=
  (minijailParseSeccompFilters minijailNew emptyMem bumpMalloc (some emptyFprog)).get (by decide)

def filterBind : Minijail × Mem × Int :=
  minijailBind (minijailUseSeccompFilter filtered.1) filtered.2 bumpMalloc rootStr rootStr 0

theorem built_filterBind : Built emptyMem filterBindCalls filterBind.1 filterBind.2.1 :=
  (((@Built.new emptyMem).call (c := .parseSeccompFilters (some emptyFprog) bumpMalloc) (r := 0)
    rfl).call (c := .useSeccompFilter) (r := 0) rfl).call
      (c := .bind rootStr rootStr 0 bumpMalloc) (r := 0) rfl

theorem filterBind_filter_outside (p : Ptr SockFprog) (hp : filterBind.1.filterProg = .live p) :
    filterBind.2.1.live p.val.filter.addr = false := by
  cases hp; decide

end Libminijail
