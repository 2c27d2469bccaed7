import Minijail.Defs.GetPathLaws

/-! `concat_path` against the join it is meant to compute. The room it asks for is not the room
the result takes, so it truncates the join at one buffer length and refuses a join that fits at
another. -/

namespace Libminijail

/-- `join(b, p)`, as the spec states it: `b`, `/`, `p` when `b` is non-empty, does not end in `/`
and `p` does not start with `/`; `b` and `p` without its first character when `b` ends in `/` and
`p` starts with `/`; `b` followed by `p` otherwise. -/
def joinPath (b p : List UInt8) : List UInt8 :=
  if b ≠ [] ∧ b.getLast? ≠ some 47 ∧ p.head? ≠ some 47 then b ++ 47 :: p
  else if b.getLast? = some 47 ∧ p.head? = some 47 then b ++ p.tail
  else b ++ p

theorem getD_pred_length {b rest : List UInt8} (hb : b ≠ []) :
    (b ++ 0 :: rest).getD (b.length - 1) 0 = 47 ↔ b.getLast? = some 47 := by
  obtain ⟨b, x, rfl⟩ := List.eq_nil_or_concat b |>.resolve_left hb
  simp [List.getElem_append_right]

theorem concatPath_eq {b rest p : List UInt8} {n : Nat} (hb : 0 ∉ b) :
    concatPath (b ++ 0 :: rest) n p =
      if b ≠ [] ∧ b.getLast? ≠ some 47 ∧ p.head? ≠ some 47 then
        if n ≤ b.length + p.length + 1 then .ok (-1, b ++ 0 :: rest)
        else (snprintf (b ++ 0 :: rest) b.length (n - b.length - 1) (47 :: p)).map ((0 : Int), ·)
      else if b.getLast? = some 47 ∧ p.head? = some 47 then
        if n ≤ b.length + p.length then .ok (-1, b ++ 0 :: rest)
        else (strncpy (b ++ 0 :: rest) b.length p.tail (n - b.length)).map ((0 : Int), ·)
      else if n ≤ b.length + p.length then .ok (-1, b ++ 0 :: rest)
        else (strncpy (b ++ 0 :: rest) b.length p (n - b.length)).map ((0 : Int), ·) := by
  simp only [concatPath, strlen_eq hb, bind, Except.bind]
  by_cases hn : b = []
  · subst hn; simp [pure, Except.pure]
  · simp only [ne_eq, List.length_eq_zero, hn, not_false_eq_true, true_and, getD_pred_length hn, pure,
      Except.pure]

section Store

variable {b rest : List UInt8} {n : Nat}

theorem store_string {x y : List UInt8} (hb : 0 ∉ b) (hx : 0 ∉ x)
    (hw : b.length + (x ++ 0 :: y).length ≤ n) (hn : n ≤ (b ++ 0 :: rest).length) :
    ∃ B', store (b ++ 0 :: rest) b.length (x ++ 0 :: y) = .ok B' ∧ cstring B' = .ok (b ++ x) ∧
      B'.drop n = (b ++ 0 :: rest).drop n := by
  refine ⟨_, store_eq (by omega), ?_, ?_⟩
  · rw [List.take_left' rfl, List.append_assoc, List.append_assoc, List.cons_append,
      ← List.append_assoc b x]
    exact cstring_eq (by simp [hb, hx])
  · simp only [List.length_append, List.length_cons] at hw
    rw [List.take_left' rfl, List.drop_append_eq_append_drop,
      List.drop_eq_nil_of_le (by simp only [List.length_append, List.length_cons]; omega),
      List.nil_append, List.drop_drop]
    congr 1
    simp only [List.length_append, List.length_cons]
    omega

theorem snprintf_slash {p : List UInt8} (hb : 0 ∉ b) (hp : 0 ∉ p) (hgt : b.length + p.length + 1 < n)
    (hn : n ≤ (b ++ 0 :: rest).length) :
    ∃ B', snprintf (b ++ 0 :: rest) b.length (n - b.length - 1) (47 :: p) = .ok B' ∧
      cstring B' = .ok (b ++ (47 :: p).take (n - b.length - 2)) ∧ B'.drop n = (b ++ 0 :: rest).drop n := by
  rw [snprintf, if_neg (by omega), show n - b.length - 1 - 1 = n - b.length - 2 by omega]
  refine store_string hb (fun h => ?_) ?_ hn
  · cases List.mem_of_mem_take h with
    | tail _ h => exact hp h
  · simp only [List.length_append, List.length_take, List.length_cons, List.length_nil]; omega

theorem strncpy_pad {s : List UInt8} (hb : 0 ∉ b) (hs : 0 ∉ s) (hgt : b.length + s.length < n)
    (hn : n ≤ (b ++ 0 :: rest).length) :
    ∃ B', strncpy (b ++ 0 :: rest) b.length s (n - b.length) = .ok B' ∧
      cstring B' = .ok (b ++ s) ∧ B'.drop n = (b ++ 0 :: rest).drop n := by
  have hpad : (s ++ List.replicate (n - b.length) 0).take (n - b.length) =
      s ++ 0 :: List.replicate (n - b.length - s.length - 1) 0 := by
    rw [List.take_append_eq_append_take, List.take_of_length_le (by omega), List.take_replicate,
      ← List.replicate_succ]
    congr 2; omega
  rw [strncpy, hpad]
  exact store_string hb hs (by simp only [List.length_append, List.length_cons, List.length_replicate]; omega) hn

end Store

/-- What the spec asks of `concat_path(buffer, buffer_len, p)` on the buffer `buf` that holds the
string `b`: it returns `0` exactly when `join(b, p)` and its NUL fit in `buffer_len` bytes, and then
the buffer holds `join(b, p)`, NUL-terminated, and no byte from `buffer[buffer_len]` on has
changed. -/
def JoinsExactly (buf : List UInt8) (n : Nat) (b p : List UInt8) : Prop :=
  ∃ r B', concatPath buf n p = .ok (r, B') ∧ (r = 0 ↔ (joinPath b p).length + 1 ≤ n) ∧
    (r = 0 → cstring B' = .ok (joinPath b p) ∧ B'.drop n = buf.drop n)

theorem joinsExactly_of_eq {buf : List UInt8} {n : Nat} {b p : List UInt8} {r : Int} {B' : List UInt8}
    (h : concatPath buf n p = .ok (r, B')) :
    JoinsExactly buf n b p ↔ (r = 0 ↔ (joinPath b p).length + 1 ≤ n) ∧
      (r = 0 → cstring B' = .ok (joinPath b p) ∧ B'.drop n = buf.drop n) :=
  ⟨fun ⟨_, _, h', h₁, h₂⟩ => by rw [h] at h'; cases h'; exact ⟨h₁, h₂⟩, fun h' => ⟨r, B', h, h'⟩⟩

theorem joinsExactly_iff {b rest p : List UInt8} {n : Nat} (hb : 0 ∉ b) (hp : 0 ∉ p)
    (hlt : b.length < n) (hn : n ≤ (b ++ 0 :: rest).length) :
    JoinsExactly (b ++ 0 :: rest) n b p ↔
      ¬(b ≠ [] ∧ b.getLast? ≠ some 47 ∧ p.head? ≠ some 47 ∧ n = b.length + p.length + 2) ∧
      ¬(b.getLast? = some 47 ∧ p.head? = some 47 ∧ n = b.length + p.length) := by
  have hrej : ((-1 : Int) = 0) ↔ False := by decide
  by_cases h₁ : b ≠ [] ∧ b.getLast? ≠ some 47 ∧ p.head? ≠ some 47
  · have hj : joinPath b p = b ++ 47 :: p := if_pos h₁
    have h₂ : ¬(b.getLast? = some 47 ∧ p.head? = some 47 ∧ n = b.length + p.length) :=
      fun h => h₁.2.1 h.1
    by_cases hle : n ≤ b.length + p.length + 1
    · rw [joinsExactly_of_eq (by rw [concatPath_eq hb, if_pos h₁, if_pos hle]), hj, hrej]
      simp only [List.length_append, List.length_cons, false_iff, false_implies, and_true, not_le]
      exact iff_of_true (by omega) ⟨fun h => by omega, h₂⟩
    · obtain ⟨B', hB, hc, hd⟩ := snprintf_slash hb hp (by omega) hn
      have hcp : concatPath (b ++ 0 :: rest) n p = .ok (0, B') := by
        rw [concatPath_eq hb, if_pos h₁, if_neg hle, hB]; rfl
      rw [joinsExactly_of_eq hcp, hj, hc, hd]
      have ht : (47 :: p).take (n - b.length - 2) = 47 :: p ↔ n ≠ b.length + p.length + 2 := by
        rw [List.take_eq_self_iff, List.length_cons]; omega
      simp only [List.length_append, List.length_cons, true_iff, forall_const, and_true, Except.ok.injEq,
        List.append_cancel_left_eq, ht, h₁, h₂, not_false_eq_true, true_and, ne_eq]
      omega
  have hE₁ : ¬(b ≠ [] ∧ b.getLast? ≠ some 47 ∧ p.head? ≠ some 47 ∧ n = b.length + p.length + 2) :=
    fun h => h₁ ⟨h.1, h.2.1, h.2.2.1⟩
  by_cases h₂ : b.getLast? = some 47 ∧ p.head? = some 47
  · have hj : joinPath b p = b ++ p.tail := by rw [joinPath, if_neg h₁, if_pos h₂]
    obtain ⟨p', rfl⟩ := List.head?_eq_some_iff.mp h₂.2
    by_cases hle : n ≤ b.length + (47 :: p').length
    · rw [joinsExactly_of_eq (by rw [concatPath_eq hb, if_neg h₁, if_pos h₂, if_pos hle]), hj, hrej]
      simp only [List.length_cons] at hle
      simp only [List.tail_cons, List.length_append, List.length_cons, false_iff, false_implies, and_true,
        not_le, hE₁, not_false_eq_true, h₂, true_and]
      omega
    · obtain ⟨B', hB, hc, hd⟩ := strncpy_pad hb (fun h => hp (List.mem_cons_of_mem _ h))
        (show b.length + p'.length < n by simp only [List.length_cons] at hle; omega) hn
      have hcp : concatPath (b ++ 0 :: rest) n (47 :: p') = .ok (0, B') := by
        rw [concatPath_eq hb, if_neg h₁, if_pos h₂, if_neg hle, List.tail_cons, hB]; rfl
      rw [joinsExactly_of_eq hcp, hj, List.tail_cons, hc, hd]
      simp only [List.length_cons] at hle
      simp only [List.length_append, List.length_cons, true_iff, forall_const, and_true, h₂, ne_eq,
        not_true_eq_false, false_and, and_false, not_false_eq_true, true_and]
      omega
  · have hj : joinPath b p = b ++ p := by rw [joinPath, if_neg h₁, if_neg h₂]
    have hE₂ : ¬(b.getLast? = some 47 ∧ p.head? = some 47 ∧ n = b.length + p.length) :=
      fun h => h₂ ⟨h.1, h.2.1⟩
    by_cases hle : n ≤ b.length + p.length
    · rw [joinsExactly_of_eq (by rw [concatPath_eq hb, if_neg h₁, if_neg h₂, if_pos hle]), hj, hrej]
      simp only [List.length_append, false_iff, false_implies, and_true, not_le]
      exact iff_of_true (by omega) ⟨hE₁, hE₂⟩
    · obtain ⟨B', hB, hc, hd⟩ := strncpy_pad hb hp (show b.length + p.length < n by omega) hn
      have hcp : concatPath (b ++ 0 :: rest) n p = .ok (0, B') := by
        rw [concatPath_eq hb, if_neg h₁, if_neg h₂, if_neg hle, hB]; rfl
      rw [joinsExactly_of_eq hcp, hj, hc, hd]
      simp only [List.length_append, true_iff, forall_const, and_true]
      exact iff_of_true (by omega) ⟨hE₁, hE₂⟩

/-- Path joining is exact except at two buffer lengths, for every string and path: with `"a"` in
a 4-byte buffer, appending `"b"` returns `0` with `"a/"` where `"a/b"` and its NUL fit; with `"/"`
in a 3-byte buffer, appending `"/a"` returns `-1` where `"/a"` and its NUL fit. -/
theorem concat_path_boundaries :
    (∀ (b rest p : List UInt8) (n : Nat), 0 ∉ b → 0 ∉ p → b.length < n → n ≤ (b ++ 0 :: rest).length →
      (JoinsExactly (b ++ 0 :: rest) n b p ↔
        ¬(b ≠ [] ∧ b.getLast? ≠ some 47 ∧ p.head? ≠ some 47 ∧ n = b.length + p.length + 2) ∧
        ¬(b.getLast? = some 47 ∧ p.head? = some 47 ∧ n = b.length + p.length))) ∧
    (joinPath [97] [98]).length + 1 = 4 ∧ concatPath [97, 0, 0, 0] 4 [98] = .ok (0, [97, 47, 0, 0]) ∧
    (joinPath [47] [47, 97]).length + 1 = 3 ∧ concatPath [47, 0, 0] 3 [47, 97] = .ok (-1, [47, 0, 0]) ∧
    ¬JoinsExactly [97, 0, 0, 0] 4 [97] [98] ∧ ¬JoinsExactly [47, 0, 0] 3 [47] [47, 97] :=
  ⟨fun _ _ _ _ hb hp hlt hn => joinsExactly_iff hb hp hlt hn, by decide, rfl, by decide, rfl,
    fun h => ((joinsExactly_iff (b := [97]) (by decide) (by decide) (by decide)
      (by decide)).mp h).1 (by decide),
    fun h => ((joinsExactly_iff (b := [47]) (by decide) (by decide) (by decide)
      (by decide)).mp h).2 (by decide)⟩

end Libminijail
