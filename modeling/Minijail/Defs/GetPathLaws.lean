import Minijail.Defs.GetPath

/-! Laws of `minijail_get_path`, each stage inverted once: a call that reaches `lstat` has
anchored the path, appended it, picked a binding and spliced its source in. -/

namespace Libminijail

theorem bind_eq_ok {α β : Type} {x : PathM α} {f : α → PathM β} {b : β} :
    (x >>= f) = .ok b ↔ ∃ a, x = .ok a ∧ f a = .ok b := by
  cases x <;> simp [bind, Except.bind]

theorem map_eq_ok {α β : Type} {f : α → β} {x : PathM α} {b : β} (h : x.map f = .ok b) :
    ∃ a, x = .ok a ∧ f a = b := by
  cases x <;> simp_all [Except.map]

theorem sizeT_natCast {x : Nat} (h : x < 2 ^ 64) : sizeT x = x := by
  rw [sizeT, Int.emod_eq_of_lt (Int.natCast_nonneg x) (by exact_mod_cast h), Int.toNat_natCast]

theorem sizeT_sub_of_le {a b : Nat} (h : b ≤ a) (ha : a < 2 ^ 64) : sizeT (a - b) = a - b := by
  rw [show (a : Int) - b = ((a - b : Nat) : Int) by omega, sizeT_natCast (by omega)]

theorem sizeT_sub_of_lt {a b : Nat} (h : a < b) (hb : b ≤ 2 ^ 64) :
    sizeT (a - b) = 2 ^ 64 + a - b := by
  rw [sizeT, show (a : Int) - b = ((2 ^ 64 + a - b : Nat) : Int) + (-1) * 2 ^ 64 by omega,
    Int.add_mul_emod_self, Int.emod_eq_of_lt (Int.natCast_nonneg _) (by omega), Int.toNat_natCast]

section Buffer

variable {buf b : List UInt8}

theorem store_eq {p : Nat} {bytes : List UInt8} (h : p + bytes.length ≤ buf.length) :
    store buf p bytes = .ok (buf.take p ++ bytes ++ buf.drop (p + bytes.length)) := if_pos h

theorem length_store_of_le {p : Nat} {bytes : List UInt8} (h : p + bytes.length ≤ buf.length) :
    (buf.take p ++ bytes ++ buf.drop (p + bytes.length)).length = buf.length := by
  simp only [List.length_append, List.length_take, List.length_drop]; omega

theorem store_eq_ok {p : Nat} {bytes : List UInt8} (h : store buf p bytes = .ok b) :
    p + bytes.length ≤ buf.length ∧ b = buf.take p ++ bytes ++ buf.drop (p + bytes.length) := by
  unfold store at h
  split at h
  · cases h; exact ⟨‹_›, rfl⟩
  · cases h

theorem length_of_store {p : Nat} {bytes : List UInt8} (h : store buf p bytes = .ok b) :
    b.length = buf.length := by
  obtain ⟨hp, rfl⟩ := store_eq_ok h
  exact length_store_of_le hp

theorem findIdx?_zero (s r : List UInt8) (h : 0 ∉ s) : (s ++ 0 :: r).findIdx? (· = 0) = some s.length := by
  induction s with
  | nil => simp [List.findIdx?_cons]
  | cons x s ih =>
    simp only [List.mem_cons, not_or] at h
    simp [List.findIdx?_cons, Ne.symm h.1, ih h.2]

theorem strlen_eq {s r : List UInt8} (h : 0 ∉ s) : strlen (s ++ 0 :: r) 0 = .ok s.length := by
  simp [strlen, findIdx?_zero s r h]

theorem cstring_eq {s r : List UInt8} (h : 0 ∉ s) : cstring (s ++ 0 :: r) = .ok s := by
  simp [cstring, strlen_eq h, Except.map]

theorem findIdx?_zero_eq_some {B : List UInt8} {n : Nat} (h : B.findIdx? (· = 0) = some n) :
    0 ∉ B.take n ∧ B = B.take n ++ 0 :: B.drop (n + 1) := by
  induction B generalizing n with
  | nil => simp at h
  | cons x B ih =>
    rw [List.findIdx?_cons, List.findIdx?_succ] at h
    by_cases hx : x = 0
    · subst hx
      simp at h; subst h; simp
    · rw [if_neg (by simpa using hx), Option.map_eq_some'] at h
      obtain ⟨m, hm, rfl⟩ := h
      obtain ⟨h1, h2⟩ := ih hm
      refine ⟨by simp [Ne.symm hx, h1], ?_⟩
      simp only [List.take_succ_cons, List.drop_succ_cons, List.cons_append]
      exact congrArg _ h2

theorem cstring_eq_ok {B q : List UInt8} (h : cstring B = .ok q) : 0 ∉ q ∧ ∃ rest, B = q ++ 0 :: rest := by
  cases hf : B.findIdx? (· = 0) with
  | none => simp [cstring, strlen, hf, Except.map] at h
  | some n =>
    simp only [cstring, strlen, List.drop_zero, hf, Except.map, Except.ok.injEq] at h
    subst h
    exact ⟨(findIdx?_zero_eq_some hf).1, _, (findIdx?_zero_eq_some hf).2⟩

theorem memmove_eq {dst src n : Nat} (h₁ : src + n ≤ buf.length) (h₂ : dst + n ≤ buf.length) :
    memmove buf dst src n = .ok (buf.take dst ++ (buf.drop src).take n ++ buf.drop (dst + n)) := by
  have hl : ((buf.drop src).take n).length = n := by simp; omega
  rw [memmove, if_pos h₁, store_eq (by rw [hl]; exact h₂), hl]

theorem strncpy_eq {p n : Nat} {s : List UInt8} (hs : n ≤ s.length) (h : p + n ≤ buf.length) :
    strncpy buf p s n = .ok (buf.take p ++ s.take n ++ buf.drop (p + n)) := by
  have ht : (s ++ List.replicate n 0).take n = s.take n := List.take_append_of_le_length hs
  have hl : (s.take n).length = n := by simp; omega
  rw [strncpy, ht, store_eq (by rw [hl]; exact h), hl]

theorem length_of_snprintf {p size : Nat} {s : List UInt8}
    (h : snprintf buf p size s = .ok b) : b.length = buf.length := by
  unfold snprintf at h
  split at h
  · cases h; rfl
  · exact length_of_store h

end Buffer

theorem length_of_concatPath {buf b : List UInt8} {n : Nat} {s : List UInt8} {r : Int}
    (h : concatPath buf n s = .ok (r, b)) : b.length = buf.length := by
  obtain ⟨len, -, h⟩ := bind_eq_ok.mp h
  simp only at h
  split_ifs at h
  · cases h; rfl
  · obtain ⟨_, h', ⟨⟩⟩ := map_eq_ok h; exact length_of_snprintf h'
  · cases h; rfl
  · obtain ⟨_, h', ⟨⟩⟩ := map_eq_ok h; exact length_of_store h'
  · cases h; rfl
  · obtain ⟨_, h', ⟨⟩⟩ := map_eq_ok h; exact length_of_store h'

theorem length_of_concatOrReturn {buf b : List UInt8} {n : Nat} {s : List UInt8}
    (h : concatOrReturn buf n s = .ok b) : b.length = buf.length := by
  obtain ⟨⟨r, b'⟩, hc, h⟩ := bind_eq_ok.mp h
  simp only at h
  split at h
  · cases h
  · cases h; exact length_of_concatPath hc

theorem length_of_anchorPath {j : Minijail} {cwd : Option CStr} {buf b : List UInt8} {n : Nat} {path : CStr}
    (h : anchorPath j cwd buf n path = .ok b) : b.length = buf.length := by
  obtain ⟨b₀, h₀, h⟩ := bind_eq_ok.mp h
  rw [← length_of_store h₀]
  split_ifs at h
  · cases h; rfl
  · split at h
    · exact length_of_concatOrReturn h
    · cases h
    · cases h
  · exact length_of_concatOrReturn h
  · split at h
    · split at h
      · exact length_of_store h
      · cases h
    · cases h

theorem splice_eq {q rest src : List UInt8} {srcLen bestLen : Nat} (hs : srcLen ≤ src.length)
    (hb : bestLen ≤ q.length) (hq : q.length < 2 ^ 64)
    (hfit : srcLen + 1 + (q.length - bestLen) ≤ (q ++ 0 :: rest).length) :
    splice (q ++ 0 :: rest) src srcLen bestLen q.length =
      .ok (src.take srcLen ++ 47 :: (q.drop bestLen ++ (q ++ 0 :: rest).drop (srcLen + 1 + (q.length - bestLen)))) := by
  have hsz : sizeT (q.length - bestLen : Int) = q.length - bestLen := sizeT_sub_of_le hb hq
  set B := q ++ 0 :: rest with hB
  have hm : (B.drop bestLen).take (q.length - bestLen) = q.drop bestLen := by
    rw [hB, List.drop_append_of_le_length hb, List.take_append_of_le_length (by simp)]
    simp
  have h₁ : bestLen + (q.length - bestLen) ≤ B.length := by
    simp only [hB, List.length_append, List.length_cons]; omega
  have h₂ : srcLen + 1 + (q.length - bestLen) ≤ B.length := by omega
  rw [splice, hsz, memmove_eq h₁ h₂, hm]
  set B₁ := B.take (srcLen + 1) ++ q.drop bestLen ++ B.drop (srcLen + 1 + (q.length - bestLen))
  have hl₁ : B₁.length = B.length := by
    simp only [B₁, List.length_append, List.length_take_of_le (show srcLen + 1 ≤ B.length by omega),
      List.length_drop]
    omega
  have hT : (src.take srcLen).length = srcLen := List.length_take_of_le hs
  simp only [bind, Except.bind, strncpy_eq hs (show 0 + srcLen ≤ B₁.length by omega)]
  rw [store_eq (by simp only [List.length_append, hT, List.length_take, List.length_drop, hl₁,
    List.length_singleton]; omega)]
  have hX : B₁.drop (srcLen + 1) = q.drop bestLen ++ B.drop (srcLen + 1 + (q.length - bestLen)) := by
    simp only [B₁, List.append_assoc]; exact List.drop_left' (List.length_take_of_le (by omega))
  simp only [List.take_zero, List.nil_append, Nat.zero_add, List.length_singleton, List.append_assoc,
    List.take_left' hT, List.drop_append_eq_append_drop, hT, List.drop_drop, List.drop_eq_nil_of_le,
    Nat.sub_self]
  rw [List.drop_eq_nil_of_le (by omega), show srcLen + (srcLen + 1 - srcLen) = srcLen + 1 by omega, hX]
  rfl

theorem splice_bounds {B src B' : List UInt8} {srcLen bestLen len : Nat}
    (h : splice B src srcLen bestLen len = .ok B') (hl : len < B.length) (hB : B.length < 2 ^ 64) :
    bestLen ≤ len ∧ srcLen + 1 + (len - bestLen) ≤ B.length := by
  obtain ⟨B₁, h₁, -⟩ := bind_eq_ok.mp h
  unfold memmove at h₁
  split at h₁
  · rename_i hsrc
    have hst := (store_eq_ok h₁).1
    rw [List.length_take, List.length_drop] at hst
    by_cases hb : bestLen ≤ len
    · rw [sizeT_sub_of_le hb (by omega)] at hst hsrc
      omega
    · rw [sizeT_sub_of_lt (by omega) (by omega)] at hsrc
      omega
  · cases h₁

theorem trimmedLen_le {src : List UInt8} {srcLen : Nat} (h : trimmedLen src = .ok srcLen) :
    srcLen ≤ src.length := by
  unfold trimmedLen at h
  split at h
  · cases h
  · cases h; split <;> omega

theorem nul_free_of_sourceOf {j : Minijail} {acc : Option Binding × Nat} {src : List UInt8}
    {bestLen : Nat} (h : sourceOf j acc = .ok (src, bestLen)) : 0 ∉ src := by
  obtain ⟨_ | b, m⟩ := acc
  · simp only [sourceOf] at h
    split at h
    · split at h
      · cases h; exact (‹Ptr CStr›).val.nul_free
      · cases h
    · cases h; decide
  · cases h; exact b.src.val.nul_free

section Substitute

variable {j : Minijail} {mem : Mem} {B B' : List UInt8} {n : Nat} {path : CStr}

theorem substitute_eq_ok (h : substitute j mem B n path = .ok B') (hB : B.length < 2 ^ 64) :
    ∃ q rest L src bestLen srcLen,
      (∃ len, strlen B 0 = .ok len ∧
        concatOrReturn B (sizeT (n - len)) path.bytes = .ok (q ++ 0 :: rest)) ∧
      0 ∉ q ∧ walkedBindings j mem = .ok L ∧
      sourceOf j (L.foldl (bestStep q) (none, 0)) = .ok (src, bestLen) ∧
      trimmedLen src = .ok srcLen ∧ bestLen ≤ q.length ∧
      B' = src.take srcLen ++
        47 :: (q.drop bestLen ++ (q ++ 0 :: rest).drop (srcLen + 1 + (q.length - bestLen))) := by
  obtain ⟨len, hlen, h⟩ := bind_eq_ok.mp h
  obtain ⟨B₂, hB₂, h⟩ := bind_eq_ok.mp h
  obtain ⟨q, hq, h⟩ := bind_eq_ok.mp h
  obtain ⟨L, hL, h⟩ := bind_eq_ok.mp h
  obtain ⟨⟨src, bestLen⟩, hs, h⟩ := bind_eq_ok.mp h
  obtain ⟨srcLen, hsl, h⟩ := bind_eq_ok.mp h
  split at h
  · cases h
  obtain ⟨hq0, rest, rfl⟩ := cstring_eq_ok hq
  have hl := length_of_concatOrReturn hB₂
  obtain ⟨hb, hfit⟩ := splice_bounds h (by simp) (by omega)
  rw [splice_eq (trimmedLen_le hsl) hb (by simp at hl; omega) hfit] at h
  exact ⟨q, rest, L, src, bestLen, srcLen, ⟨len, hlen, hB₂⟩, hq0, hL, hs, hsl, hb, (Except.ok.inj h).symm⟩

end Substitute

theorem lstatTarget_eq_ok {cwd : Option CStr} {j : Minijail} {mem : Mem} {n : Nat}
    {buf B' target : List UInt8} {path : CStr} (h : lstatTarget cwd j mem n buf path = .ok (B', target)) :
    ∃ B, anchorPath j cwd buf n path = .ok B ∧ substitute j mem B n path = .ok B' ∧
      cstring B' = .ok target := by
  obtain ⟨B, hB, h⟩ := bind_eq_ok.mp h
  obtain ⟨B'', hs, h⟩ := bind_eq_ok.mp h
  obtain ⟨t, ht, h⟩ := bind_eq_ok.mp h
  cases h
  exact ⟨B, hB, hs, ht⟩

theorem eq_iff_head_nul {x tail t r : List UInt8} (hx : 0 ∉ x) (ht : 0 ∉ t)
    (h : x ++ tail = t ++ 0 :: r) : t = x ↔ tail.head? = some 0 := by
  constructor
  · rintro rfl
    rw [List.append_cancel_left h]
    rfl
  · intro hh
    obtain ⟨tl, rfl⟩ := List.head?_eq_some_iff.mp hh
    have hw : (⟨x, hx⟩ : CStr).withNul ++ tl = (⟨t, ht⟩ : CStr).withNul ++ r := by
      simpa [CStr.withNul] using h
    exact (congrArg CStr.bytes (CStr.withNul_append_inj hw).1).symm

theorem lstatTarget_spliced {cwd : Option CStr} {j : Minijail} {mem : Mem} {n : Nat}
    {buf B' target : List UInt8} {path : CStr} (hb : buf.length < 2 ^ 64)
    (h : lstatTarget cwd j mem n buf path = .ok (B', target)) :
    ∃ B q rest L src bestLen srcLen, anchorPath j cwd buf n path = .ok B ∧
      (∃ len, strlen B 0 = .ok len ∧
        concatOrReturn B (sizeT (n - len)) path.bytes = .ok (q ++ 0 :: rest)) ∧
      walkedBindings j mem = .ok L ∧
      sourceOf j (L.foldl (bestStep q) (none, 0)) = .ok (src, bestLen) ∧
      trimmedLen src = .ok srcLen ∧
      B' = src.take srcLen ++
        47 :: (q.drop bestLen ++ (q ++ 0 :: rest).drop (srcLen + 1 + (q.length - bestLen))) ∧
      (target = src.take srcLen ++ 47 :: q.drop bestLen ↔
        ((q ++ 0 :: rest).drop (srcLen + 1 + (q.length - bestLen))).head? = some 0) := by
  obtain ⟨B, hB, hs, ht⟩ := lstatTarget_eq_ok h
  obtain ⟨q, rest, L, src, bestLen, srcLen, hc, hq, hL, hsrc, hsl, -, rfl⟩ :=
    substitute_eq_ok hs (by rw [length_of_anchorPath hB]; exact hb)
  obtain ⟨ht0, r, hr⟩ := cstring_eq_ok ht
  have hx : 0 ∉ src.take srcLen ++ 47 :: q.drop bestLen := by
    simp only [List.mem_append, List.mem_cons, not_or]
    exact ⟨fun h => nul_free_of_sourceOf hsrc (List.mem_of_mem_take h), by decide,
      fun h => hq (List.mem_of_mem_drop h)⟩
  refine ⟨B, q, rest, L, src, bestLen, srcLen, hB, hc, hL, hsrc, hsl, rfl,
    eq_iff_head_nul hx ht0 (r := r) ?_⟩
  simpa using hr

def cstr (s : String) : CStr := ⟨(s.toList.map Char.toUInt8).filter (· ≠ 0), by simp⟩

def replayFrom : Minijail × Mem → List Call → Minijail × Mem
  | s, [] => s
  | (j, mem), c :: cs =>
    match c.run j mem with
    | some (j', mem', _) => replayFrom (j', mem') cs
    | none => (j, mem)

def replayOk : Minijail × Mem → List Call → Bool
  | _, [] => true
  | (j, mem), c :: cs =>
    match c.run j mem with
    | some (j', mem', r) => r == 0 && replayOk (j', mem') cs
    | none => false

theorem Built.replay {mem0 mem : Mem} {hist : List (Call × Int)} {j : Minijail}
    (hb : Built mem0 hist j mem) (cs : List Call) (h : replayOk (j, mem) cs = true) :
    Built mem0 (hist ++ cs.map (·, 0)) (replayFrom (j, mem) cs).1 (replayFrom (j, mem) cs).2 := by
  induction cs generalizing hist j mem with
  | nil => simpa [replayFrom] using hb
  | cons c cs ih =>
    simp only [replayOk] at h
    split at h
    · rename_i j' mem' r hr
      obtain ⟨hr0, h⟩ := Bool.and_eq_true_iff.mp h
      cases beq_iff_eq.mp hr0
      simp only [replayFrom, hr, List.map_cons]
      simpa using ih (hb.call hr) h
    · cases h

def staleCalls : List Call :=
  [.bind (cstr "/b/") (cstr "/usr") 0 bumpMalloc, .bind (cstr "") (cstr "/xy") 0 bumpMalloc]

def staleBinds : Minijail × Mem := replayFrom (minijailNew, emptyMem) staleCalls

/-- Whenever `minijail_get_path` reaches `lstat`, the string it hands over is the trimmed source,
a `/` and the rest of the path only if the byte after the moved part is a NUL. Under `/b/` bound
on `/usr`, `memmove` moves `/f` of `/usr/f` one place left and leaves the old `f` behind it, so
`lstat` is handed `/b//ff`; under the empty source bound on `/xy`, reading `src_path[src_len - 1]`
reads the byte before the string. -/
theorem splice_keeps_stale_bytes :
    (∀ cwd j mem n (buf B' target : List UInt8) (path : CStr), buf.length < 2 ^ 64 →
      lstatTarget cwd j mem n buf path = .ok (B', target) →
      ∃ B q rest L src bestLen srcLen, anchorPath j cwd buf n path = .ok B ∧
        (∃ len, strlen B 0 = .ok len ∧
          concatOrReturn B (sizeT (n - len)) path.bytes = .ok (q ++ 0 :: rest)) ∧
        walkedBindings j mem = .ok L ∧
        sourceOf j (L.foldl (bestStep q) (none, 0)) = .ok (src, bestLen) ∧
        trimmedLen src = .ok srcLen ∧
        B' = src.take srcLen ++
          47 :: (q.drop bestLen ++ (q ++ 0 :: rest).drop (srcLen + 1 + (q.length - bestLen))) ∧
        (target = src.take srcLen ++ 47 :: q.drop bestLen ↔
          ((q ++ 0 :: rest).drop (srcLen + 1 + (q.length - bestLen))).head? = some 0)) ∧
    Built emptyMem (staleCalls.map (·, 0)) staleBinds.1 staleBinds.2 ∧
    (lstatTarget none staleBinds.1 staleBinds.2 16 (List.replicate 16 0) (cstr "/usr/f")).map
      Prod.snd = .ok (cstr "/b//ff").bytes ∧
    lstatTarget none staleBinds.1 staleBinds.2 16 (List.replicate 16 0) (cstr "/xy/f") =
      .error .fault :=
  ⟨fun _ _ _ _ _ _ _ _ hb h => lstatTarget_spliced hb h,
    by simpa using (@Built.new emptyMem).replay staleCalls rfl, rfl, rfl⟩

section Absolute

variable {j : Minijail} {cwd : Option CStr} {buf : List UInt8} {path : CStr}

theorem anchorPath_absolute (hp : path.bytes.head? = some 47) (hb : 0 < buf.length) (n : Nat) :
    anchorPath j cwd buf n path = .ok (0 :: buf.drop 1) := by
  have hs : store buf 0 [0] = .ok (0 :: buf.drop 1) := by rw [store_eq (by simpa)]; simp
  simp only [anchorPath, hs, bind, Except.bind, hp, if_true]
  rfl

theorem concatOrReturn_empty {rest p : List UInt8} (hl : p.length < rest.length + 1) :
    concatOrReturn (0 :: rest) (rest.length + 1) p =
      .ok (p ++ List.replicate (rest.length + 1 - p.length) 0) := by
  have h0 : strlen (0 :: rest) 0 = .ok 0 := rfl
  have hs : strncpy (0 :: rest) 0 p (rest.length + 1 - 0) =
      .ok (p ++ List.replicate (rest.length + 1 - p.length) 0) := by
    have ht : (p ++ List.replicate (rest.length + 1 - 0) 0).take (rest.length + 1 - 0) =
        p ++ List.replicate (rest.length + 1 - p.length) 0 := by
      rw [Nat.sub_zero, List.take_append_eq_append_take, List.take_of_length_le (by omega), List.take_replicate,
        Nat.min_eq_left (by omega)]
    rw [strncpy, ht, store_eq (by simp only [List.length_append, List.length_replicate, List.length_cons]; omega),
      List.drop_eq_nil_of_le (by simp only [List.length_append, List.length_replicate, List.length_cons]; omega)]
    simp
  simp only [concatOrReturn, concatPath, h0, bind, Except.bind, ne_eq, not_true_eq_false, false_and,
    if_false, Nat.zero_add, hs]
  rw [if_neg (by omega)]
  rfl

theorem lstatTarget_unbound {src : List UInt8} {srcLen : Nat} (ht : j.bindingsTail = 0)
    (hs : sourceOf j (none, 0) = .ok (src, 1)) (hsl : trimmedLen src = .ok srcLen)
    (hp : path.bytes.head? = some 47) (hl : path.bytes.length + srcLen + 1 < buf.length)
    (hn : buf.length < 2 ^ 64) (mem : Mem) :
    lstatTarget cwd j mem buf.length buf path =
      .ok (src.take srcLen ++
          47 :: (path.bytes.drop 1 ++ List.replicate (buf.length - path.bytes.length - srcLen) 0),
        src.take srcLen ++ 47 :: path.bytes.drop 1) := by
  obtain ⟨x, rest, rfl⟩ := List.exists_cons_of_length_pos (show 0 < buf.length by omega)
  have hanchor : anchorPath j cwd (x :: rest) (rest.length + 1) path = .ok (0 :: rest) :=
    anchorPath_absolute hp (by simp) _
  obtain ⟨p, hnul⟩ := path
  obtain ⟨p, rfl⟩ := List.head?_eq_some_iff.mp hp
  simp only [List.length_cons] at hl hn hanchor ⊢
  set R := List.replicate (rest.length - p.length - 1) (0 : UInt8)
  have hpad : 47 :: p ++ List.replicate (rest.length + 1 - (p.length + 1)) 0 = 47 :: p ++ 0 :: R := by
    rw [show rest.length + 1 - (p.length + 1) = rest.length - p.length - 1 + 1 by omega,
      List.replicate_succ]
  have hsz : sizeT ((rest.length + 1 : Nat) - (0 : Nat)) = rest.length + 1 :=
    sizeT_sub_of_le (Nat.zero_le _) hn
  have hfit : ¬rest.length + 1 ≤ sizeT ((p.length + 1 : Nat) - (1 : Nat) + (srcLen : Nat) + 2) := by
    rw [show ((p.length + 1 : Nat) : Int) - (1 : Nat) + (srcLen : Nat) + 2 =
      ((p.length + srcLen + 2 : Nat) : Int) by omega, sizeT_natCast (by omega)]
    omega
  have hsp : splice (47 :: p ++ 0 :: R) src srcLen 1 (p.length + 1) =
      .ok (src.take srcLen ++ 47 :: (p ++ List.replicate (rest.length + 1 - (p.length + 1) - srcLen) 0)) := by
    have hR : (0 : UInt8) :: R = List.replicate (rest.length - p.length) 0 := by
      rw [← List.replicate_succ]; congr 1; omega
    have hd : ((47 :: p) ++ 0 :: R).drop (srcLen + 1 + ((47 :: p).length - 1)) =
        List.replicate (rest.length + 1 - (p.length + 1) - srcLen) 0 := by
      rw [show srcLen + 1 + ((47 :: p).length - 1) = (47 :: p).length + srcLen by
          simp only [List.length_cons]; omega,
        List.drop_append, hR, List.drop_replicate]
      congr 1; omega
    rw [← List.length_cons 47 p, splice_eq (trimmedLen_le hsl) (by simp only [List.length_cons]; omega)
      (by simp only [List.length_cons]; omega) (by simp only [R, List.length_append, List.length_replicate, List.length_cons]; omega), hd]
    rfl
  have hx : 0 ∉ src.take srcLen ++ 47 :: p := by
    simp only [List.mem_append, List.mem_cons, not_or]
    exact ⟨fun h => nul_free_of_sourceOf hs (List.mem_of_mem_take h), by decide,
      fun h => hnul (List.mem_cons_of_mem _ h)⟩
  have hend : src.take srcLen ++ 47 :: (p ++ List.replicate (rest.length + 1 - (p.length + 1) - srcLen) 0) =
      (src.take srcLen ++ 47 :: p) ++ 0 :: List.replicate (rest.length - p.length - srcLen - 1) 0 := by
    rw [show rest.length + 1 - (p.length + 1) - srcLen = rest.length - p.length - srcLen - 1 + 1 by omega,
      List.replicate_succ]
    simp only [List.append_assoc, List.cons_append]
  have h0 : strlen (0 :: rest) 0 = .ok 0 := rfl
  simp only [lstatTarget, hanchor, bind, Except.bind, substitute, h0, hsz,
    concatOrReturn_empty (show (47 :: p).length < rest.length + 1 by simp only [List.length_cons]; omega), List.length_cons,
    hpad, cstring_eq hnul, walkedBindings, ht, if_true, pure, Except.pure, List.foldl_nil, hs, hsl,
    hfit, if_false, hsp, List.drop_succ_cons, List.drop_zero, hend, cstring_eq hx]

end Absolute

section Links

variable {fs : PathEnv} {j : Minijail} {mem : Mem} {n : Nat}

theorem minijailGetPath_of_closed (S : List UInt8 → CStr → Prop)
    (hS : ∀ buf path, S buf path →
      ∃ buf' path', getPathStep fs j mem n buf path = .ok (buf', path') ∧ S buf' path') :
    ∀ fuel buf path, S buf path → minijailGetPath fs j mem n fuel buf path = none := by
  intro fuel
  induction fuel with
  | zero => intros; rfl
  | succ fuel ih =>
    intro buf path h
    obtain ⟨buf', path', hstep, h'⟩ := hS buf path h
    simp only [minijailGetPath, hstep]
    exact ih buf' path' h'

theorem getPathStep_unbound_symlink {buf src : List UInt8} {srcLen : Nat} {path t : CStr}
    (ht : j.bindingsTail = 0) (hs : sourceOf j (none, 0) = .ok (src, 1))
    (hsl : trimmedLen src = .ok srcLen) (hp : path.bytes.head? = some 47)
    (hl : path.bytes.length + srcLen + 1 < buf.length) (hn : buf.length < 2 ^ 64)
    (hk : fs.kind (src.take srcLen ++ 47 :: path.bytes.drop 1) = .symlink t) :
    getPathStep fs j mem buf.length buf path =
      .ok (src.take srcLen ++
          47 :: (path.bytes.drop 1 ++ List.replicate (buf.length - path.bytes.length - srcLen) 0),
        t.take PATH_MAX) := by
  simp only [getPathStep, lstatTarget_unbound ht hs hsl hp hl hn, bind, Except.bind, hk]
  rfl

theorem minijailGetPath_cycle {src : List UInt8} {srcLen : Nat} (ht : j.bindingsTail = 0)
    (hs : sourceOf j (none, 0) = .ok (src, 1)) (hsl : trimmedLen src = .ok srcLen)
    (hn : n < 2 ^ 64) (C : CStr → Prop)
    (hC : ∀ p, C p → p.bytes.head? = some 47 ∧ p.bytes.length + srcLen + 1 < n ∧
      ∃ t, C t ∧ t.bytes.length ≤ PATH_MAX ∧
        fs.kind (src.take srcLen ++ 47 :: p.bytes.drop 1) = .symlink t)
    (fuel : Nat) (buf : List UInt8) (hb : buf.length = n) (p : CStr) (hp : C p) :
    minijailGetPath fs j mem n fuel buf p = none := by
  refine minijailGetPath_of_closed (fun buf p => buf.length = n ∧ C p) ?_ fuel buf p ⟨hb, hp⟩
  rintro buf p ⟨rfl, hp⟩
  obtain ⟨h47, hl, t, htC, htl, hk⟩ := hC p hp
  have htake : t.take PATH_MAX = t := CStr.ext (List.take_of_length_le htl)
  refine ⟨_, _, getPathStep_unbound_symlink ht hs hsl h47 hl hn hk, ?_, by rw [htake]; exact htC⟩
  have hp1 : 0 < p.bytes.length := by cases h : p.bytes <;> simp_all
  simp only [List.length_append, List.length_cons, List.length_drop, List.length_replicate,
    List.length_take_of_le (trimmedLen_le hsl)]
  omega

end Links

def chrootCalls : List Call := [.enterChroot (cstr "/jail") bumpMalloc]

def chrootOnly : Minijail × Mem := replayFrom (minijailNew, emptyMem) chrootCalls

def jailFs : PathEnv :=
  ⟨none, fun p =>
    if p = (cstr "/jail/a").bytes then .symlink (cstr "/a")
    else if p = (cstr "/jail/d/l").bytes then .symlink (cstr "f")
    else if p = (cstr "/jail/d/f").bytes then .regular
    else .absent⟩

/-- The recursion has no bound: under a policy with no bindings, every set of absolute links that
lead only to each other is followed forever, a link to itself among them. A relative target is
anchored at `/` of the jail (or at `chdir`, or the working directory), not at the link's
directory: the link `/d/l` to `f`, next to the regular file `/d/f`, makes `minijail_get_path`
look up `/f` and return `1`. -/
theorem getPath_link_following :
    (∀ (fs : PathEnv) (j : Minijail) (mem : Mem) (n : Nat) (src : List UInt8) (srcLen : Nat),
      j.bindingsTail = 0 → sourceOf j (none, 0) = .ok (src, 1) → trimmedLen src = .ok srcLen →
      n < 2 ^ 64 → ∀ C : CStr → Prop,
      (∀ p, C p → p.bytes.head? = some 47 ∧ p.bytes.length + srcLen + 1 < n ∧
        ∃ t, C t ∧ t.bytes.length ≤ PATH_MAX ∧
          fs.kind (src.take srcLen ++ 47 :: p.bytes.drop 1) = .symlink t) →
      ∀ fuel (buf : List UInt8), buf.length = n → ∀ p, C p →
        minijailGetPath fs j mem n fuel buf p = none) ∧
    Built emptyMem (chrootCalls.map (·, 0)) chrootOnly.1 chrootOnly.2 ∧
    (∀ fuel (buf : List UInt8), buf.length = 16 →
      minijailGetPath jailFs chrootOnly.1 chrootOnly.2 16 fuel buf (cstr "/a") = none) ∧
    jailFs.kind (cstr "/jail/d/f").bytes = .regular ∧
    ∃ B, minijailGetPath jailFs chrootOnly.1 chrootOnly.2 16 2 (List.replicate 16 0)
      (cstr "/d/l") = some (.ret 1 B) :=
  ⟨fun _ _ _ _ _ _ ht hs hsl hn C hC fuel buf hb p hp =>
      minijailGetPath_cycle ht hs hsl hn C hC fuel buf hb p hp,
    by simpa using (@Built.new emptyMem).replay chrootCalls rfl,
    fun fuel buf hb => by
      have hs : sourceOf chrootOnly.1 (none, 0) = .ok ((cstr "/jail").bytes, 1) := rfl
      have hsl : trimmedLen (cstr "/jail").bytes = .ok 5 := rfl
      exact minijailGetPath_cycle rfl hs hsl (by decide) (· = cstr "/a")
        (by rintro p rfl; exact ⟨by decide, by decide, _, rfl, by decide, rfl⟩) fuel buf hb _ rfl,
    rfl, _, rfl⟩

/-- What the loop over the bindings `L` has found when it holds `r`: no binding of `L` matches a
longer prefix of `q` than `best_len`; `best_len` stays `0` while `best` is `NULL`; and `best` is
a binding of `L` whose `dest` matches, of length `best_len`, every binding before it matching
only shorter prefixes. -/
structure BestOf (q : List UInt8) (L : List Binding) (r : Option Binding × Nat) : Prop where
  max : ∀ c ∈ L, c.dest.val.bytes <+: q → c.dest.val.bytes.length ≤ r.2
  null : r.1 = none → r.2 = 0
  first : ∀ b, r.1 = some b → ∃ L₁ L₂, L = L₁ ++ b :: L₂ ∧ b.dest.val.bytes <+: q ∧
    r.2 = b.dest.val.bytes.length ∧ ∀ c ∈ L₁, c.dest.val.bytes <+: q → c.dest.val.bytes.length < r.2

section Select

variable {q : List UInt8}

theorem BestOf.step {L : List Binding} {r : Option Binding × Nat} (h : BestOf q L r) (c : Binding) :
    BestOf q (L ++ [c]) (bestStep q r c) := by
  unfold bestStep
  split
  · rename_i hc
    refine ⟨fun c' hc' hp => ?_, (nomatch ·), fun b hb => ?_⟩
    · rcases List.mem_append.mp hc' with hc' | hc'
      · exact (h.max c' hc' hp).trans hc.2.le
      · rw [List.mem_singleton.mp hc']
    · cases hb
      exact ⟨L, [], rfl, hc.1, rfl, fun c' hc' hp => (h.max c' hc' hp).trans_lt hc.2⟩
  · rename_i hc
    refine ⟨fun c' hc' hp => ?_, h.null, fun b hb => ?_⟩
    · rcases List.mem_append.mp hc' with hc' | hc'
      · exact h.max c' hc' hp
      · rw [List.mem_singleton.mp hc'] at hp ⊢
        exact Nat.le_of_not_lt fun hlt => hc ⟨hp, hlt⟩
    · obtain ⟨L₁, L₂, rfl, hb⟩ := h.first b hb
      exact ⟨L₁, L₂ ++ [c], by simp, hb⟩

theorem bestOf_foldl (L : List Binding) : BestOf q L (L.foldl (bestStep q) (none, 0)) := by
  induction L using List.reverseRecOn with
  | nil => exact ⟨fun _ h => (List.not_mem_nil _ h).elim, fun _ => rfl, fun _ h => by cases h⟩
  | append_singleton L c ih => rw [List.foldl_append, List.foldl_cons, List.foldl_nil]; exact ih.step c

end Select

end Libminijail
