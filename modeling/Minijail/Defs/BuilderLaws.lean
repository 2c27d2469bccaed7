import Minijail.Defs.Builder
import Mathlib.Data.Fintype.Card
import Mathlib.Data.List.Nodup

/-! The builder invariant: on every policy the builder surface can produce, the binding list is a
chain of distinct allocated nodes from `bindings_head` to `bindings_tail`, counted by
`binding_count` and holding the successful `minijail_bind` calls in order, and the flags agree
with the fields they announce. -/

namespace Libminijail

inductive Chain (nodes : Addr → Option Binding) : Addr → List (Addr × Binding) → Prop
  | nil : Chain nodes 0 []
  | cons {a : Addr} {b : Binding} {L : List (Addr × Binding)} :
      a ≠ 0 → nodes a = some b → Chain nodes b.next L → Chain nodes a ((a, b) :: L)

section Chain

variable {nodes nodes' : Addr → Option Binding}

theorem walk_of_chain {a : Addr} {L : List (Addr × Binding)} (h : Chain nodes a L) {n : Nat}
    (hn : L.length ≤ n) : walk nodes a n = some L := by
  induction h generalizing n with
  | nil => cases n <;> simp [walk]
  | cons ha hb _ ih =>
    cases n with
    | zero => simp at hn
    | succ n => simpa [walk, hb, ih (Nat.le_of_succ_le_succ hn)] using ha

theorem Chain.congr {a : Addr} {L : List (Addr × Binding)} (h : Chain nodes a L)
    (hf : ∀ p ∈ L, nodes' p.1 = nodes p.1) : Chain nodes' a L := by
  induction h with
  | nil => exact .nil
  | cons ha hb _ ih =>
    exact .cons ha ((hf _ (List.mem_cons_self _ _)).trans hb)
      (ih fun p hp => hf p (List.mem_cons_of_mem _ hp))

theorem Chain.head_eq_zero {a : Addr} (h : Chain nodes a []) : a = 0 := by
  cases h; rfl

theorem Chain.last {a t : Addr} {bt : Binding} {L : List (Addr × Binding)}
    (h : Chain nodes a (L ++ [(t, bt)])) : t ≠ 0 ∧ nodes t = some bt ∧ bt.next = 0 := by
  induction L generalizing a with
  | nil => cases h with | cons ht hb hn => exact ⟨ht, hb, hn.head_eq_zero⟩
  | cons p L ih => cases h with | cons _ _ hn => exact ih hn

theorem Chain.snoc {a t x : Addr} {bt nx : Binding} {L : List (Addr × Binding)}
    (h : Chain nodes a (L ++ [(t, bt)])) (hnd : ((L ++ [(t, bt)]).map Prod.fst).Nodup)
    (hx : x ≠ 0) (hxL : x ∉ (L ++ [(t, bt)]).map Prod.fst) (hnx : nx.next = 0) :
    Chain (Function.update (Function.update nodes x (some nx)) t (some { bt with next := x })) a
      (L ++ [(t, { bt with next := x }), (x, nx)]) := by
  induction L generalizing a with
  | nil =>
    have htx : t ≠ x := by simpa [eq_comm] using hxL
    cases h with
    | cons ht _ _ =>
      refine .cons ht (by simp) (.cons hx ?_ (by rw [hnx]; exact .nil))
      simp [Function.update_noteq htx.symm]
  | cons p L ih =>
    simp only [List.cons_append, List.map_cons, List.nodup_cons, List.mem_cons, not_or] at hnd hxL
    cases h with
    | cons hc hb hn =>
      have hct : a ≠ t := fun e => hnd.1 (by rw [e]; simp)
      refine .cons hc ?_ (ih hn hnd.2 hxL.2)
      simp [Function.update_noteq hct, Function.update_noteq (Ne.symm hxL.1), hb]

end Chain

theorem length_le_of_nodup {A : List Addr} (h : A.Nodup) : A.length ≤ 2 ^ 64 := by
  have := (h.map fun x y e => BitVec.toFin_inj.mp e).length_le_card
  rwa [List.length_map, Fintype.card_fin] at this

def Slot.blocks {α : Type} : Slot α → List Addr
  | .live p => [p.addr]
  | _ => []

@[simp] theorem Slot.blocks_null {α : Type} : (Slot.null : Slot α).blocks = [] := rfl
@[simp] theorem Slot.blocks_live {α : Type} (p : Ptr α) : (Slot.live p).blocks = [p.addr] := rfl

/-- `mem'` has allocated the distinct blocks `l` on top of `mem`, none of which `mem` held, and
no other block. -/
structure Mem.Adds (mem mem' : Mem) (l : List Addr) : Prop where
  nodup : l.Nodup
  fresh : ∀ a ∈ l, mem.live a = false
  live_iff : ∀ a, mem'.live a = true ↔ mem.live a = true ∨ a ∈ l

namespace Mem

variable {mem mem' : Mem} {a x : Addr} {l : List Addr}

theorem live_free_iff (ha : a ≠ 0) : (mem.free a).live x = true ↔ mem.live x = true ∧ x ≠ a := by
  by_cases hx : x = a
  · subst hx; simp only [free, if_neg ha, Function.update_same]; simp
  · simp [live_free_of_ne _ hx, hx]

theorem Adds.mono (h : mem.Adds mem' l) (a : Addr) (ha : mem.live a = true) : mem'.live a = true :=
  (h.live_iff a).2 (.inl ha)

theorem Adds.live (h : mem.Adds mem' l) (a : Addr) (ha : a ∈ l) : mem'.live a = true :=
  (h.live_iff a).2 (.inr ha)

theorem Adds.of_live_eq (e : mem'.live = mem.live) : mem.Adds mem' [] :=
  ⟨List.nodup_nil, nofun, fun a => by simp [e]⟩

theorem Adds.trans {mem'' : Mem} {l' : List Addr} (h : mem.Adds mem' l) (h' : mem'.Adds mem'' l') :
    mem.Adds mem'' (l ++ l') where
  nodup := List.nodup_append.2
    ⟨h.nodup, h'.nodup, fun a ha hb => by simpa [h.live a ha] using h'.fresh a hb⟩
  fresh a ha := by
    rcases List.mem_append.1 ha with ha | hb
    · exact h.fresh a ha
    · cases h0 : mem.live a
      · rfl
      · simpa [h.mono a h0] using h'.fresh a hb
  live_iff a := by rw [h'.live_iff, h.live_iff, List.mem_append, or_assoc]

theorem Adds.perm {l' : List Addr} (h : mem.Adds mem' l) (p : l.Perm l') : mem.Adds mem' l' :=
  ⟨p.nodup_iff.1 h.nodup, fun a ha => h.fresh a (p.mem_iff.2 ha),
    fun a => by rw [h.live_iff, p.mem_iff]⟩

theorem Adds.free {l₁ l₂ : List Addr} (h : mem.Adds mem' (l₁ ++ a :: l₂)) (ha : a ≠ 0) :
    mem.Adds (mem'.free a) (l₁ ++ l₂) := by
  have hnd := List.nodup_middle.1 h.nodup
  refine ⟨(List.nodup_cons.1 hnd).2, fun x hx => h.fresh x (by simp at hx ⊢; tauto),
    fun x => ?_⟩
  rw [live_free_iff ha, h.live_iff]
  by_cases hx : x = a
  · subst hx
    simp [h.fresh x (by simp), (List.nodup_cons.1 hnd).1]
  · simp [hx]

theorem alloc_adds (mem : Mem) (m : Malloc) :
    mem.Adds (mem.alloc m).2 ((mem.alloc m).1.map Subtype.val).toList := by
  unfold alloc
  split
  · split
    · rename_i a _ h
      refine ⟨List.nodup_singleton a, by simpa using h.2, fun x => ?_⟩
      by_cases hx : x = a <;> simp [Function.update_apply, hx]
    · exact .of_live_eq rfl
  · exact .of_live_eq rfl

theorem alloc_adds_of {r : Option { a : Addr // a ≠ 0 }} {m : Malloc} (h : mem.alloc m = (r, mem')) :
    mem.Adds mem' (r.map Subtype.val).toList := by
  have := alloc_adds mem m
  rwa [h] at this

theorem new_adds_of {α : Type} {v : α} {r : Option (Ptr α)} {m : Malloc}
    (h : mem.new m v = (r, mem')) : mem.Adds mem' (r.map Ptr.addr).toList := by
  unfold new at h
  rcases hm : mem.alloc m with ⟨_ | a, mem₁⟩ <;> rw [hm] at h <;> cases h <;>
    simpa using alloc_adds_of hm

end Mem

section Bind

variable {j j' : Minijail} {mem mem' : Mem} {m : Malloc} {src dest : CStr} {w : BitVec 32}
  {r : Int}

def linkNodes (nodes : Addr → Option Binding) (t b : Addr) (node : Binding) :
    Addr → Option Binding :=
  let nodes := Function.update nodes b (some node)
  if t = 0 then nodes
  else Function.update nodes t ((nodes t).map fun n => { n with next := b })

theorem minijailBind_cases (h : minijailBind j mem m src dest w = (j', mem', r)) :
    (r ≠ 0 ∧ j' = j ∧ mem.Grows mem' ∧
      (dest.bytes.head? ≠ some 47 ∧ mem' = mem ∨ mem.nulls < mem'.nulls)) ∨
    (r = 0 ∧ dest.bytes.head? = some 47 ∧ ∃ (b : Addr) (node : Binding), b ≠ 0 ∧
      node.content = (src, dest, w) ∧ node.next = 0 ∧
      mem.Adds mem' [node.dest.addr, node.src.addr, b] ∧
      mem'.nulls = mem.nulls ∧ mem'.nodes = linkNodes mem.nodes j.bindingsTail b node ∧
      j' = { j with flags := { j.flags with vfs := true },
                    bindingsHead := if j.bindingsTail = 0 then b else j.bindingsHead,
                    bindingsTail := b, bindingCount := j.bindingCount + 1 }) := by
  unfold minijailBind at h
  split at h
  · cases h; exact .inl ⟨by decide, rfl, .refl _, .inl ⟨by assumption, rfl⟩⟩
  rename_i hd
  rcases Mem.alloc_spec mem m with ⟨b, mem1, h1, hb, -, g1, n1⟩ | ⟨mem1, h1, g1, n1⟩ <;>
    rw [h1] at h
  · rcases Mem.new_spec mem1 m dest with ⟨d, mem2, h2, hd', hd1, -, g2, n2⟩ |
      ⟨mem2, h2, g2, n2⟩ <;> simp only [h2] at h
    · rcases Mem.new_spec mem2 m src with ⟨s, mem3, h3, hs, -, -, g3, n3⟩ |
        ⟨mem3, h3, g3, n3⟩ <;> simp only [h3] at h
      · have g := g1.trans (g2.trans g3)
        have hf : mem.Adds mem3 [d.addr, s.addr, b.1] :=
          ((Mem.alloc_adds_of h1).trans ((Mem.new_adds_of h2).trans (Mem.new_adds_of h3)) :
            mem.Adds mem3 ([b.1] ++ [d.addr, s.addr])).perm List.perm_append_comm
        have hn : mem3.nulls = mem.nulls := by rw [n3, n2, n1]
        have hc : (⟨s, d, w, 0⟩ : Binding).content = (src, dest, w) := by
          simp [Binding.content, hs, hd']
        have hd2 : dest.bytes.head? = some 47 := by simpa using hd
        right
        split at h <;> rename_i ht <;> cases h
        · change j.bindingsTail = 0 at ht
          refine ⟨rfl, hd2, b.1, _, b.2, hc, rfl, ⟨hf.1, hf.2, hf.3⟩, hn, ?_,
            by rw [if_pos ht]; rfl⟩
          simp only [linkNodes, if_pos ht, g.1]
        · change ¬j.bindingsTail = 0 at ht
          refine ⟨rfl, hd2, b.1, _, b.2, hc, rfl, ⟨hf.1, hf.2, hf.3⟩, hn, ?_,
            by rw [if_neg ht]; rfl⟩
          simp only [linkNodes, if_neg ht, Mem.setNext, g.1]
          rfl
      · cases h
        exact .inl ⟨by decide, rfl,
          ((g1.trans (g2.trans g3)).free (g1.live_eq_false hd1)).free hb,
          .inr (by simp; omega)⟩
    · cases h; exact .inl ⟨by decide, rfl, g1.trans g2 |>.free hb, .inr (by simp; omega)⟩
  · cases h; exact .inl ⟨by decide, rfl, g1, .inr n1⟩

end Bind

structure BindingsInv (j : Minijail) (mem : Mem) (L : List (Addr × Binding)) : Prop where
  chain : Chain mem.nodes j.bindingsHead L
  nodup : (L.map Prod.fst).Nodup
  live : ∀ p ∈ L, mem.live p.1 = true
  tail : (L = [] ∧ j.bindingsTail = 0) ∨ ∃ L₀ b, L = L₀ ++ [(j.bindingsTail, b)]
  count : j.bindingCount = BitVec.ofNat 32 L.length
  dest : ∀ p ∈ L, p.2.dest.val.bytes.head? = some 47
  vfs : L ≠ [] → j.flags.vfs = true

section BindingsInv

variable {j j' : Minijail} {mem mem' : Mem} {L : List (Addr × Binding)}

theorem BindingsInv.bindingList (h : BindingsInv j mem L) : bindingList j mem = some L :=
  walk_of_chain h.chain (by simpa using length_le_of_nodup h.nodup)

theorem BindingsInv.frame (h : BindingsInv j mem L) (g : mem.Grows mem')
    (hh : j'.bindingsHead = j.bindingsHead) (ht : j'.bindingsTail = j.bindingsTail)
    (hc : j'.bindingCount = j.bindingCount) (hv : j.flags.vfs = true → j'.flags.vfs = true) :
    BindingsInv j' mem' L where
  chain := hh ▸ h.chain.congr fun _ _ => by rw [g.1]
  nodup := h.nodup
  live := fun p hp => g.2 _ (h.live p hp)
  tail := ht ▸ h.tail
  count := hc ▸ h.count
  dest := h.dest
  vfs := fun hL => hv (h.vfs hL)

def snocLink (L : List (Addr × Binding)) (b : Addr) (node : Binding) : List (Addr × Binding) :=
  L.dropLast ++ (L.getLast?.map fun p => (p.1, { p.2 with next := b })).toList ++ [(b, node)]

theorem snocLink_nil (b : Addr) (node : Binding) : snocLink [] b node = [(b, node)] := rfl

theorem snocLink_concat (L₀ : List (Addr × Binding)) (t : Addr) (bt : Binding) (b : Addr)
    (node : Binding) :
    snocLink (L₀ ++ [(t, bt)]) b node = L₀ ++ [(t, { bt with next := b }), (b, node)] := by
  simp [snocLink]

theorem BindingsInv.link {b : Addr} {node : Binding} (h : BindingsInv j mem L) (hb0 : b ≠ 0)
    (hbl : mem.live b = false) (hn : node.next = 0) (hdn : node.dest.val.bytes.head? = some 47)
    (hl : ∀ a, mem.live a = true → mem'.live a = true) (hbl' : mem'.live b = true)
    (hnodes : mem'.nodes = linkNodes mem.nodes j.bindingsTail b node) :
    BindingsInv
      { j with flags := { j.flags with vfs := true },
               bindingsHead := if j.bindingsTail = 0 then b else j.bindingsHead,
               bindingsTail := b, bindingCount := j.bindingCount + 1 }
      mem' (snocLink L b node) := by
  have hbL : b ∉ L.map Prod.fst := fun hm => by
    obtain ⟨p, hp, rfl⟩ := List.mem_map.mp hm
    simp [h.live p hp] at hbl
  rcases h.tail with ⟨rfl, ht⟩ | ⟨L₀, bt, rfl⟩
  · refine ⟨?_, by simp [snocLink_nil], by simp [snocLink_nil, hbl'],
      .inr ⟨[], node, by simp [snocLink_nil]⟩, ?_, by simp [snocLink_nil, hdn], by simp⟩
    · simp only [ht, ite_true, snocLink_nil]
      exact .cons hb0 (by simp [hnodes, linkNodes, ht]) (hn ▸ .nil)
    · simp [h.count, snocLink_nil]
  · rw [snocLink_concat]
    obtain ⟨ht0, hnt, -⟩ := h.chain.last
    have htb : j.bindingsTail ≠ b := fun e => by
      simp [← e, h.live (j.bindingsTail, bt) (by simp)] at hbl
    have hnodes' : mem'.nodes = Function.update (Function.update mem.nodes b (some node))
        j.bindingsTail (some { bt with next := b }) := by
      rw [hnodes, linkNodes, if_neg ht0]
      simp [Function.update_noteq htb, hnt]
    have hlive : ∀ p ∈ L₀ ++ [(j.bindingsTail, bt)], mem'.live p.1 = true :=
      fun p hp => hl _ (h.live p hp)
    refine ⟨?_, ?_, ?_, .inr ⟨L₀ ++ [(j.bindingsTail, { bt with next := b })], node, by simp⟩, ?_, ?_,
      by simp⟩
    · simp only [ht0, ite_false, hnodes']
      exact h.chain.snoc h.nodup hb0 hbL hn
    · have e : (L₀ ++ [(j.bindingsTail, { bt with next := b }), (b, node)]).map Prod.fst =
          (L₀ ++ [(j.bindingsTail, bt)]).map Prod.fst ++ [b] := by simp
      rw [e]
      exact h.nodup.append (List.nodup_singleton b) (List.disjoint_singleton.mpr hbL)
    · intro p hp
      simp only [List.mem_append, List.mem_cons, List.mem_singleton, List.not_mem_nil,
        or_false] at hp
      rcases hp with hp | rfl | rfl
      · exact hlive p (by simp [hp])
      · exact hlive (j.bindingsTail, bt) (by simp)
      · exact hbl'
    · simp [h.count, BitVec.ofNat_add_ofNat]
    · intro p hp
      simp only [List.mem_append, List.mem_cons, List.mem_singleton, List.not_mem_nil,
        or_false] at hp
      rcases hp with hp | rfl | rfl
      · exact h.dest p (by simp [hp])
      · exact h.dest (j.bindingsTail, bt) (by simp)
      · exact hdn

theorem BindingsInv.bind {m : Malloc} {src dest : CStr} {w : BitVec 32} {r : Int}
    (h : BindingsInv j mem L) (hr : minijailBind j mem m src dest w = (j', mem', r)) :
    (r ≠ 0 ∧ BindingsInv j' mem' L) ∨
    (r = 0 ∧ ∃ L', BindingsInv j' mem' L' ∧
      L'.map (·.2.content) = L.map (·.2.content) ++ [(src, dest, w)]) := by
  rcases minijailBind_cases hr with ⟨hr0, rfl, g, -⟩ |
    ⟨hr0, hd, b, node, hb0, hc, hn, hf, -, hnodes, rfl⟩
  · exact .inl ⟨hr0, h.frame g rfl rfl rfl id⟩
  have hdn : node.dest.val.bytes.head? = some 47 := by
    rw [show node.dest.val = dest from congrArg (fun t => t.2.1) hc]; exact hd
  refine .inr ⟨hr0, _, h.link hb0 (hf.fresh b (by simp)) hn hdn hf.mono (hf.live b (by simp))
    hnodes, ?_⟩
  rcases h.tail with ⟨rfl, -⟩ | ⟨L₀, bt, rfl⟩
  · simp [snocLink_nil, hc]
  · rw [snocLink_concat]
    simp only [Binding.content] at hc ⊢
    simpa using hc

end BindingsInv

section Calls

variable {j j' : Minijail} {mem mem' : Mem} {m : Malloc} {r : Int}

theorem Slot.eq_null_of_isNull {α : Type} {s : Slot α} (h : s.isNull = true) : s = .null := by
  cases s <;> simp_all [Slot.isNull]

theorem minijailChangeUser_cases {user : CStr} {pw : Option (BitVec 32 × BitVec 32)}
    (h : minijailChangeUser j mem m user pw = some (j', mem', r)) :
    mem.Grows mem' ∧ (j' = j ∨ ∃ (uid gid : BitVec 32) (u : Slot CStr), u.isStale = false ∧
      mem.Adds mem' u.blocks ∧
      j' = { j with uid, flags := { j.flags with uid := true }, user := u, usergid := gid }) := by
  unfold minijailChangeUser at h
  rcases Mem.alloc_spec mem m with ⟨b, mem1, h1, hb, -, g1, -⟩ | ⟨mem1, h1, g1, -⟩ <;>
    simp only [h1] at h
  · have g := g1.free hb
    have a1 : mem.Adds (mem1.free b) ([] ++ []) :=
      (Mem.alloc_adds_of h1 : mem.Adds mem1 ([] ++ b.1 :: [])).free b.2
    rcases pw with _ | ⟨uid, gid⟩
    · cases h; exact ⟨g, .inl rfl⟩
    simp only [minijailChangeUid, Option.map_eq_some'] at h
    obtain ⟨j1, hj1, h⟩ := h
    split at hj1
    · cases hj1
    cases hj1
    rcases Mem.new_spec (mem1.free b) m user with ⟨p, mem2, h2, -, -, -, g2, -⟩ |
      ⟨mem2, h2, g2, -⟩ <;> simp only [h2] at h <;> cases h
    · exact ⟨g.trans g2, .inr ⟨uid, gid, .live p, rfl, a1.trans (Mem.new_adds_of h2), rfl⟩⟩
    · exact ⟨g.trans g2, .inr ⟨uid, j.usergid, .null, rfl, a1.trans (Mem.new_adds_of h2), rfl⟩⟩
  · cases h; exact ⟨g1, .inl rfl⟩

theorem minijailChangeGroup_cases {gr : Option (BitVec 32)}
    (h : minijailChangeGroup j mem m gr = some (j', mem', r)) :
    mem.Grows mem' ∧ (j' = j ∨ ∃ gid : BitVec 32,
      j' = { j with gid, flags := { j.flags with gid := true } }) := by
  unfold minijailChangeGroup at h
  rcases Mem.alloc_spec mem m with ⟨b, mem1, h1, hb, -, g1, -⟩ | ⟨mem1, h1, g1, -⟩ <;>
    simp only [h1] at h
  · rcases gr with _ | gid
    · cases h; exact ⟨g1.free hb, .inl rfl⟩
    simp only [minijailChangeGid, Option.map_eq_some'] at h
    obtain ⟨j1, hj1, h⟩ := h
    split at hj1
    · cases hj1
    cases hj1; cases h
    exact ⟨g1.free hb, .inr ⟨gid, rfl⟩⟩
  · cases h; exact ⟨g1, .inl rfl⟩

theorem minijailEnterChroot_cases {dir : CStr}
    (h : minijailEnterChroot j mem m dir = (j', mem', r)) :
    mem.Grows mem' ∧ (j' = j ∨ ∃ p : Ptr CStr, j.chrootdir = .null ∧ mem.Adds mem' [p.addr] ∧
      j' = { j with chrootdir := .live p, flags := { j.flags with chroot := true } }) := by
  unfold minijailEnterChroot at h
  split at h
  · cases h; exact ⟨.refl _, .inl rfl⟩
  rename_i hn
  have hn : j.chrootdir = .null := Slot.eq_null_of_isNull (by simpa using hn)
  rcases Mem.new_spec mem m dir with ⟨p, mem1, h1, -, -, -, g1, -⟩ | ⟨mem1, h1, g1, -⟩ <;>
    simp only [h1] at h <;> cases h
  · exact ⟨g1, .inr ⟨p, hn, Mem.new_adds_of h1, rfl⟩⟩
  · exact ⟨g1, .inl (by rw [← hn])⟩

theorem minijailChrootChdir_cases {dir : Option CStr}
    (h : minijailChrootChdir j mem m dir = (j', mem', r)) :
    mem.Grows mem' ∧ (j' = j ∨ ∃ p : Ptr CStr, j.chrootdir.isNull = false ∧ j.chdir = .null ∧
      p.val.bytes.head? = some 47 ∧ mem.Adds mem' [p.addr] ∧
      j' = { j with chdir := .live p, flags := { j.flags with chdir := true } }) := by
  unfold minijailChrootChdir at h
  split at h
  · cases h; exact ⟨.refl _, .inl rfl⟩
  split at h
  · cases h; exact ⟨.refl _, .inl rfl⟩
  rename_i hr hd
  have hd : j.chdir = .null := Slot.eq_null_of_isNull (by simpa using hd)
  rcases dir with _ | d
  · cases h; exact ⟨.refl _, .inl rfl⟩
  simp only at h
  split at h
  · cases h; exact ⟨.refl _, .inl rfl⟩
  rename_i h47
  rcases Mem.new_spec mem m d with ⟨p, mem1, h1, hp, -, -, g1, -⟩ | ⟨mem1, h1, g1, -⟩ <;>
    simp only [h1] at h <;> cases h
  · exact ⟨g1, .inr ⟨p, by simpa using hr, hd, by simpa [hp] using h47, Mem.new_adds_of h1, rfl⟩⟩
  · exact ⟨g1, .inl (by rw [← hd])⟩

theorem minijailParseSeccompFilters_cases {prog : Option SockFprog}
    (h : minijailParseSeccompFilters j mem m prog = some (j', mem')) :
    mem.Grows mem' ∧ ∃ p : Ptr SockFprog, mem.Adds mem' [p.addr] ∧
      j' = { j with filterLen := p.val.len.setWidth 32, filterProg := .live p } := by
  unfold minijailParseSeccompFilters at h
  rcases prog with _ | fp
  · cases h
  simp only [Option.some_bind] at h
  rcases Mem.new_spec mem m fp with ⟨p, mem1, h1, hp, -, -, g1, -⟩ | ⟨mem1, h1, g1, -⟩ <;>
    simp only [h1] at h <;> cases h
  exact ⟨g1, p, Mem.new_adds_of h1, by rw [hp]⟩

theorem Call.run_frame {c : Call} (hc : ∀ src dest w m, c ≠ .bind src dest w m)
    (h : c.run j mem = some (j', mem', r)) :
    j'.bindingsHead = j.bindingsHead ∧ j'.bindingsTail = j.bindingsTail ∧
      j'.bindingCount = j.bindingCount ∧ (j.flags.vfs = true → j'.flags.vfs = true) ∧
      mem.Grows mem' := by
  cases c <;> simp only [Call.run, Option.map_eq_some', Option.some.injEq, Prod.mk.injEq] at h
  case changeUid =>
    obtain ⟨j1, hj1, rfl, rfl, -⟩ := h
    unfold minijailChangeUid at hj1; split at hj1 <;> cases hj1; exact ⟨rfl, rfl, rfl, id, .refl _⟩
  case changeGid =>
    obtain ⟨j1, hj1, rfl, rfl, -⟩ := h
    unfold minijailChangeGid at hj1; split at hj1 <;> cases hj1; exact ⟨rfl, rfl, rfl, id, .refl _⟩
  case changeUser =>
    obtain ⟨g, rfl | ⟨_, _, _, _, _, rfl⟩⟩ := minijailChangeUser_cases h <;> exact ⟨rfl, rfl, rfl, id, g⟩
  case changeGroup =>
    obtain ⟨g, rfl | ⟨_, rfl⟩⟩ := minijailChangeGroup_cases h <;> exact ⟨rfl, rfl, rfl, id, g⟩
  case enterChroot =>
    obtain ⟨g, rfl | ⟨_, _, _, rfl⟩⟩ := minijailEnterChroot_cases h <;> exact ⟨rfl, rfl, rfl, id, g⟩
  case chrootChdir =>
    obtain ⟨g, rfl | ⟨_, _, _, _, _, rfl⟩⟩ := minijailChrootChdir_cases h <;>
      exact ⟨rfl, rfl, rfl, id, g⟩
  case bind src dest w m => exact absurd rfl (hc src dest w m)
  case parseSeccompFilters =>
    obtain ⟨⟨j1, mem1⟩, hj1, rfl, rfl, -⟩ := h
    obtain ⟨g, _, _, rfl⟩ := minijailParseSeccompFilters_cases hj1
    exact ⟨rfl, rfl, rfl, id, g⟩
  case metaFile opened =>
    obtain ⟨rfl, rfl, -⟩ := h
    unfold minijailMetaFile; split <;> exact ⟨rfl, rfl, rfl, id, .refl _⟩
  all_goals obtain ⟨rfl, rfl, -⟩ := h
  case namespaceVfs | namespacePids | remountReadonly => exact ⟨rfl, rfl, rfl, fun _ => rfl, .refl _⟩
  all_goals exact ⟨rfl, rfl, rfl, id, .refl _⟩

end Calls

structure PolicyInv (j : Minijail) : Prop where
  pids : j.flags.pids = true → j.flags.vfs = true ∧ j.flags.readonly = true
  readonly : j.flags.readonly = true → j.flags.vfs = true
  chroot : j.flags.chroot = true ↔ j.chrootdir.isNull = false
  chdir : j.flags.chdir = true →
    j.chrootdir.isNull = false ∧ ∃ p : Ptr CStr, j.chdir = .live p ∧ p.val.bytes.head? = some 47
  filterLen : j.filterLen = (j.filterProg.val?.map fun fp => fp.len.setWidth 32).getD 0
  user : j.user.isStale = false
  chrootdir : j.chrootdir.isStale = false
  chdirSlot : j.chdir.isStale = false
  filterProg : j.filterProg.isStale = false
  metaFile : j.metaFile.isStale = false

theorem PolicyInv.new : PolicyInv minijailNew where
  pids := nofun
  readonly := nofun
  chroot := by simp [minijailNew]
  chdir := nofun
  filterLen := rfl
  user := rfl
  chrootdir := rfl
  chdirSlot := rfl
  filterProg := rfl
  metaFile := rfl

theorem PolicyInv.run {j j' : Minijail} {mem mem' : Mem} {r : Int} {c : Call} (h : PolicyInv j)
    (hr : c.run j mem = some (j', mem', r)) : PolicyInv j' := by
  cases c <;> simp only [Call.run, Option.map_eq_some', Option.some.injEq, Prod.mk.injEq] at hr
  case changeUid =>
    obtain ⟨j1, hj1, rfl, -, -⟩ := hr
    unfold minijailChangeUid at hj1; split at hj1 <;> cases hj1; exact { h with }
  case changeGid =>
    obtain ⟨j1, hj1, rfl, -, -⟩ := hr
    unfold minijailChangeGid at hj1; split at hj1 <;> cases hj1; exact { h with }
  case changeUser =>
    obtain ⟨-, rfl | ⟨_, _, _, hu, -, rfl⟩⟩ := minijailChangeUser_cases hr
    · exact h
    · exact { h with user := hu }
  case changeGroup =>
    obtain ⟨-, rfl | ⟨_, rfl⟩⟩ := minijailChangeGroup_cases hr
    · exact h
    · exact { h with }
  case enterChroot =>
    obtain ⟨-, rfl | ⟨p, hn, -, rfl⟩⟩ := minijailEnterChroot_cases hr
    · exact h
    · exact { h with chroot := by simp, chdir := fun hc => ⟨rfl, (h.chdir hc).2⟩, chrootdir := rfl }
  case chrootChdir =>
    obtain ⟨-, rfl | ⟨p, hcr, -, h47, -, rfl⟩⟩ := minijailChrootChdir_cases hr
    · exact h
    · exact { h with chdir := fun _ => ⟨hcr, p, rfl, h47⟩, chdirSlot := rfl }
  case bind =>
    rcases minijailBind_cases hr with ⟨-, rfl, -⟩ | ⟨-, -, _, _, -, -, -, -, -, -, rfl⟩
    · exact h
    · exact { h with pids := fun hp => ⟨rfl, (h.pids hp).2⟩, readonly := fun _ => rfl }
  case parseSeccompFilters =>
    obtain ⟨⟨j1, mem1⟩, hj1, rfl, -, -⟩ := hr
    obtain ⟨-, p, -, rfl⟩ := minijailParseSeccompFilters_cases hj1
    exact { h with filterLen := rfl, filterProg := rfl }
  case metaFile opened =>
    obtain ⟨rfl, -, -⟩ := hr
    unfold minijailMetaFile; split
    · exact { h with metaFile := rfl }
    · exact { h with metaFile := rfl }
  case namespaceVfs =>
    obtain ⟨rfl, -, -⟩ := hr
    exact { h with pids := fun hp => ⟨rfl, (h.pids hp).2⟩, readonly := fun _ => rfl }
  case namespacePids =>
    obtain ⟨rfl, -, -⟩ := hr
    exact { h with pids := fun _ => ⟨rfl, rfl⟩, readonly := fun _ => rfl }
  case remountReadonly =>
    obtain ⟨rfl, -, -⟩ := hr
    exact { h with pids := fun _ => ⟨rfl, rfl⟩, readonly := fun _ => rfl }
  all_goals obtain ⟨rfl, -, -⟩ := hr; exact { h with }

theorem successfulBinds_append (hist : List (Call × Int)) (c : Call) (r : Int) :
    successfulBinds (hist ++ [(c, r)]) = successfulBinds hist ++ successfulBinds [(c, r)] :=
  List.filterMap_append _ _ _

theorem successfulBinds_of_ne {c : Call} (hc : ∀ src dest w m, c ≠ .bind src dest w m) (r : Int) :
    successfulBinds [(c, r)] = [] := by
  cases c
  case bind src dest w m => exact (hc src dest w m rfl).elim
  all_goals rfl

theorem Built.inv {mem0 : Mem} {hist : List (Call × Int)} {j : Minijail} {mem : Mem}
    (h : Built mem0 hist j mem) :
    ∃ L, BindingsInv j mem L ∧ L.map (·.2.content) = successfulBinds hist ∧ PolicyInv j := by
  induction h with
  | new =>
    exact ⟨[], ⟨.nil, by simp, by simp, .inl ⟨rfl, rfl⟩, rfl, by simp, by simp⟩, rfl, .new⟩
  | @call hist j mem c j' mem' r _ hr ih =>
    obtain ⟨L, hL, hc, hp⟩ := ih
    rw [successfulBinds_append]
    by_cases hcb : ∃ src dest w m, c = .bind src dest w m
    · obtain ⟨src, dest, w, m, rfl⟩ := hcb
      have hr' : minijailBind j mem m src dest w = (j', mem', r) := by
        simpa [Call.run] using hr
      rcases hL.bind hr' with ⟨hr0, hL'⟩ | ⟨rfl, L', hL', hc'⟩
      · exact ⟨L, hL', by simp [hc, successfulBinds, hr0], hp.run hr⟩
      · exact ⟨L', hL', by simp [hc', hc, successfulBinds], hp.run hr⟩
    · push_neg at hcb
      obtain ⟨hh, ht, hcn, hv, g⟩ := Call.run_frame hcb hr
      exact ⟨L, hL.frame g hh ht hcn hv, by simp [hc, successfulBinds_of_ne hcb], hp.run hr⟩

def bumpMalloc : Malloc := ⟨fun mem => some (BitVec.ofNat 64 (mem.ticks + 1))⟩

def emptyMem : Mem := { live := fun _ => false, nodes := fun _ => none }

def rootStr : CStr := ⟨[47], by decide⟩

def oneBind : Minijail × Mem × Int := minijailBind minijailNew emptyMem bumpMalloc rootStr rootStr 0

theorem built_oneBind :
    Built emptyMem [(.bind rootStr rootStr 0 bumpMalloc, 0)] oneBind.1 oneBind.2.1 :=
  Built.new.call (c := .bind rootStr rootStr 0 bumpMalloc) (r := 0) rfl

/-- The builder invariant, over every sequence of builder calls: the binding list is a finite
chain of distinct allocated nodes ending at `bindings_tail`, holding exactly the successful
`minijail_bind` calls in call order, with `binding_count` its length modulo `2 ^ 32`; and the
flags agree with the fields they announce. -/
theorem builder_invariant {mem0 : Mem} {hist : List (Call × Int)} {j : Minijail} {mem : Mem}
    (h : Built mem0 hist j mem) :
    ∃ L, bindingList j mem = some L ∧ BindingsInv j mem L ∧
      L.map (·.2.content) = successfulBinds hist ∧ PolicyInv j := by
  obtain ⟨L, hL, hc, hp⟩ := h.inv
  exact ⟨L, hL.bindingList, hL, hc, hp⟩

theorem builder_invariant_oneBind :
    Built emptyMem [(.bind rootStr rootStr 0 bumpMalloc, 0)] oneBind.1 oneBind.2.1 ∧
    ∃ L, bindingList oneBind.1 oneBind.2.1 = some L ∧ BindingsInv oneBind.1 oneBind.2.1 L ∧
      L.map (·.2.content) = successfulBinds [(.bind rootStr rootStr 0 bumpMalloc, 0)] ∧
      PolicyInv oneBind.1 :=
  ⟨built_oneBind, builder_invariant built_oneBind⟩

def rootBinds (n : Nat) : List (Call × Int) := List.replicate n (.bind rootStr rootStr 0 bumpMalloc, 0)

def Mem.BumpedTo (mem : Mem) (k : Nat) : Prop :=
  mem.ticks = k ∧ ∀ a : Addr, mem.live a = decide (1 ≤ a.toNat ∧ a.toNat ≤ k)

theorem Mem.BumpedTo.alloc {mem : Mem} {k : Nat} (h : mem.BumpedTo k) (hk : k + 1 < 2 ^ 64) :
    ∃ a mem', mem.alloc bumpMalloc = (some a, mem') ∧ mem'.BumpedTo (k + 1) := by
  obtain ⟨rfl, hl⟩ := h
  have hv : (BitVec.ofNat 64 (mem.ticks + 1)).toNat = mem.ticks + 1 := by simp; omega
  have hc : BitVec.ofNat 64 (mem.ticks + 1) ≠ 0 ∧
      mem.live (BitVec.ofNat 64 (mem.ticks + 1)) = false := by
    refine ⟨fun e => ?_, by simp [hl, hv]⟩
    have := congrArg BitVec.toNat e
    simp [hv] at this
  refine ⟨⟨_, hc.1⟩, _, by unfold Mem.alloc; simp only [bumpMalloc]; rw [dif_pos hc], rfl,
    fun a => ?_⟩
  by_cases ha : a = BitVec.ofNat 64 (mem.ticks + 1)
  · subst ha; simp [hv]
  · have : a.toNat ≠ mem.ticks + 1 := fun e => ha (by rw [← hv] at e; exact BitVec.eq_of_toNat_eq e)
    simp only [Function.update_noteq ha, hl, decide_eq_decide]
    omega

theorem Mem.BumpedTo.new {α : Type} {mem : Mem} {k : Nat} (v : α) (h : mem.BumpedTo k)
    (hk : k + 1 < 2 ^ 64) :
    ∃ p mem', mem.new bumpMalloc v = (some p, mem') ∧ mem'.BumpedTo (k + 1) := by
  obtain ⟨a, mem', ha, h'⟩ := h.alloc hk
  exact ⟨⟨a.1, a.2, v⟩, _, by simp only [Mem.new, ha], h'⟩

theorem bind_rootStr {j : Minijail} {mem : Mem} {k : Nat} (h : mem.BumpedTo k)
    (hk : k + 3 < 2 ^ 64) :
    ∃ j' mem', minijailBind j mem bumpMalloc rootStr rootStr 0 = (j', mem', 0) ∧
      mem'.BumpedTo (k + 3) := by
  obtain ⟨b, mem1, h1, hm1⟩ := h.alloc (by omega)
  obtain ⟨d, mem2, h2, hm2⟩ := hm1.new rootStr (by omega)
  obtain ⟨s, mem3, h3, hm3⟩ := hm2.new rootStr (by omega)
  unfold minijailBind
  rw [if_neg (by decide), h1]
  simp only [h2, h3]
  split
  · exact ⟨_, _, rfl, hm3⟩
  · exact ⟨_, _, rfl, hm3⟩

theorem rootBinds_built (n : Nat) (hn : 3 * n < 2 ^ 64) :
    ∃ j mem, Built emptyMem (rootBinds n) j mem ∧ mem.BumpedTo (3 * n) := by
  induction n with
  | zero => exact ⟨_, _, .new, rfl, fun a => by simp [emptyMem]; omega⟩
  | succ n ih =>
    obtain ⟨j, mem, hb, hm⟩ := ih (by omega)
    obtain ⟨j', mem', hr, hm'⟩ := bind_rootStr (j := j) hm (by omega)
    refine ⟨j', mem', ?_, hm'⟩
    rw [rootBinds, List.replicate_succ']
    exact hb.call (show some (minijailBind j mem bumpMalloc rootStr rootStr 0) = _ by rw [hr])

theorem successfulBinds_rootBinds (n : Nat) :
    successfulBinds (rootBinds n) = List.replicate n (rootStr, rootStr, 0) := by
  induction n with
  | zero => rfl
  | succ n ih =>
    rw [rootBinds, List.replicate_succ', ← rootBinds, successfulBinds_append, ih,
      List.replicate_succ']
    rfl

theorem length_successfulBinds_rootBinds (n : Nat) : (successfulBinds (rootBinds n)).length = n := by
  simp [successfulBinds_rootBinds]

/-- After `2 ^ 31` successful `minijail_bind` calls, `binding_count` reads as `INT_MIN`. -/
theorem binding_count_ne_length :
    ∃ j mem L, Built emptyMem (rootBinds (2 ^ 31)) j mem ∧ bindingList j mem = some L ∧
      j.bindingCount.toInt ≠ L.length := by
  obtain ⟨j, mem, hb, -⟩ := rootBinds_built (2 ^ 31) (by decide)
  obtain ⟨L, hL, hc, -⟩ := hb.inv
  refine ⟨j, mem, L, hb, hL.bindingList, ?_⟩
  have hlen : L.length = 2 ^ 31 := by
    simpa using (congrArg List.length hc).trans (length_successfulBinds_rootBinds _)
  rw [hL.count, hlen]
  decide

end Libminijail
