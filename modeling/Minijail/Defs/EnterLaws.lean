import Minijail.Defs.EnterPlan

/-! What jail entry guarantees for every policy and every answer the system gives: a refused
call that the code checks is the last call the process makes, and the calls that drop privilege
come in the order that keeps each of them possible. Both are read off the plan, since a run
issues a prefix of the calls its plan sets out to issue. -/

namespace Libminijail

def finalProc {α : Type} : EStateM.Result Stop Proc α → Proc
  | .ok _ s => s
  | .error _ s => s

@[simp] theorem finalProc_ok {α : Type} (a : α) (s : Proc) : finalProc (.ok a s : EStateM.Result Stop Proc α) = s := rfl

@[simp] theorem finalProc_error {α : Type} (e : Stop) (s : Proc) :
    finalProc (.error e s : EStateM.Result Stop Proc α) = s := rfl

def returned {α : Type} : EStateM.Result Stop Proc α → Bool
  | .ok _ _ => true
  | .error _ _ => false

/-- Whether the code stops the process when the call is refused. `remount_readonly` ignores the
`umount` of `/proc/sys/fs/binfmt_misc`, and `run_cap_valid` the `fclose` of `cap_last_cap`. -/
def Sys.isChecked : Sys → Bool
  | .umountBinfmt => false
  | .fcloseCapLastCap => false
  | _ => true

def Step.labelled : Step → Bool
  | .call c none => !c.isChecked
  | .call c (some _) => c.isChecked
  | _ => true

@[simp] theorem labelled_checked (c : Sys) : (checked c).labelled = c.isChecked := rfl

@[simp] theorem labelled_unchecked (c : Sys) : (Step.call c none).labelled = !c.isChecked := rfl

@[simp] theorem labelled_halt (e : Stop) : (Step.halt e).labelled = true := rfl

def FailClosed (w : World) (n : Nat) (t : List Sys) (ret : Bool) : Prop :=
  ∀ k (hk : k < t.length), t[k].isChecked = true → w.ok (n + k) = false → k + 1 = t.length ∧ ret = false

theorem FailClosed.nil (w : World) (n : Nat) (ret : Bool) : FailClosed w n [] ret :=
  fun _ hk => absurd hk (Nat.not_lt_zero _)

theorem FailClosed.cons {w : World} {n : Nat} {t : List Sys} {ret : Bool} {c : Sys}
    (h : FailClosed w (n + 1) t ret) (hc : c.isChecked = true → w.ok n = true) :
    FailClosed w n (c :: t) ret := by
  intro k hk hch hok
  cases k with
  | zero => simp [hc hch] at hok
  | succ k =>
    have := h k (by simpa using hk) hch (by rw [Nat.add_assoc, Nat.add_comm 1 k]; exact hok)
    simpa using this

theorem FailClosed.last (w : World) (n : Nat) (c : Sys) : FailClosed w n [c] false :=
  fun k hk _ _ => ⟨by simp only [List.length_singleton] at hk ⊢; omega, rfl⟩

theorem runPlan_trace (w : World) (p : List Step) (hp : p.all Step.labelled = true) (s : Proc) :
    ∃ t, (finalProc (runPlan w p s)).calls = s.calls ++ t ∧ t <+: planCalls p ∧
      FailClosed w s.calls.length t (returned (runPlan w p s)) := by
  induction p generalizing s with
  | nil => exact ⟨[], by simp [runPlan]; rfl, List.nil_prefix, FailClosed.nil _ _ _⟩
  | cons st p ih =>
    simp only [List.all_cons, Bool.and_eq_true] at hp
    rcases st with ⟨c, _ | e⟩ | e | n
    · obtain ⟨t, h₁, h₂, h₃⟩ := ih hp.2 { s with calls := s.calls ++ [c] }
      refine ⟨c :: t, by simpa using h₁, (List.prefix_cons_inj c).2 h₂, FailClosed.cons (by simpa using h₃) ?_⟩
      simp_all [Step.labelled]
    · have hc : c.isChecked = true := by simpa [Step.labelled] using hp.1
      cases hok : w.ok s.calls.length
      · refine ⟨[c], ?_, (List.prefix_cons_inj c).2 List.nil_prefix, ?_⟩
        · simp [runPlan, ite_run, hok, finalProc, EStateM.throw]
        · simpa [runPlan, ite_run, hok, returned, EStateM.throw] using FailClosed.last w s.calls.length c
      · obtain ⟨t, h₁, h₂, h₃⟩ := ih hp.2 { s with calls := s.calls ++ [c] }
        refine ⟨c :: t, ?_, (List.prefix_cons_inj c).2 h₂, FailClosed.cons ?_ fun _ => hok⟩
        · simpa [runPlan, ite_run, hok] using h₁
        · simpa [runPlan, ite_run, hok] using h₃
    · exact ⟨[], by simp [runPlan, finalProc, EStateM.throw], List.nil_prefix, FailClosed.nil _ _ _⟩
    · exact ih hp.2 { s with lastCap := n }

def Before (A B : Sys → Bool) (t : List Sys) : Prop := t.Pairwise fun x y => B x = true → A y = false

def Requires (A B : Sys → Bool) (t : List Sys) : Prop :=
  ∀ k (hk : k < t.length), B t[k] = true → (t.take k).any A = true

instance (A B : Sys → Bool) (t : List Sys) : Decidable (Before A B t) :=
  inferInstanceAs (Decidable (t.Pairwise _))

instance (A B : Sys → Bool) (t : List Sys) : Decidable (Requires A B t) :=
  inferInstanceAs (Decidable (∀ k (hk : k < t.length), B t[k] = true → (t.take k).any A = true))

section Orders

variable {A B : Sys → Bool} {t l : List Sys}

theorem Before.of_leading (h : Before A B l) (ht : t <+: l) : Before A B t := h.sublist ht.sublist

theorem Requires.of_leading (h : Requires A B l) (ht : t <+: l) : Requires A B t := by
  intro k hk hB
  have hkl : k < l.length := lt_of_lt_of_le hk ht.length_le
  have htake : t.take k = l.take k := by
    rw [List.prefix_iff_eq_take.1 ht, List.take_take, min_eq_left hk.le]
  rw [htake]
  exact h k hkl (by rwa [← ht.getElem hk])

variable {r : Sys → Nat}

theorem before_of_sorted (hs : t.Pairwise fun x y => r x ≤ r y)
    (h : ∀ a b, A a = true → B b = true → r a < r b) : Before A B t :=
  hs.imp fun hxy hB => Bool.eq_false_iff.2 fun hA => absurd hxy (Nat.not_le.2 (h _ _ hA hB))

theorem requires_of_sorted (hs : t.Pairwise fun x y => r x ≤ r y) {a : Sys} (ha : a ∈ t)
    (hA : A a = true) (h : ∀ b, B b = true → r a < r b) : Requires A B t := by
  intro k hk hB
  obtain ⟨i, hi, rfl⟩ := List.getElem_of_mem ha
  rcases Nat.lt_or_ge i k with hik | hki
  · exact List.any_eq_true.2 ⟨t[i], List.mem_take_iff_getElem.2 ⟨i, by simp [hik, hi], rfl⟩, hA⟩
  · have hle : r t[k] ≤ r t[i] := by
      rcases Nat.lt_or_eq_of_le hki with hki | rfl
      · exact List.pairwise_iff_getElem.1 hs k i hk hi hki
      · exact le_refl _
    exact absurd (h _ hB) (Nat.not_lt.2 hle)

end Orders

/-- Where a call stands in jail entry: the namespaces, the mounts, the securebits lock, then
identity, capabilities and seccomp in the order `no_new_privs` picks, and strict seccomp last. -/
def Sys.rank (nnp : Bool) : Sys → Nat
  | .unshareNs => 0
  | .unshareNet => 1
  | .asprintf | .bindMount .. | .bindRemountRo .. | .chroot _ | .chdir _ | .mountTmp
  | .umountBinfmt | .umountProc | .mountProc _ => 2
  | .keepCaps | .secureBits => 3
  | .initgroups .. | .setgroups => if nnp then 4 else 7
  | .setresgid _ => if nnp then 5 else 8
  | .setresuid _ => if nnp then 6 else 9
  | .capGetProc | .capClearFlag _ | .capSetFlag .. | .capSetProc | .fopenCapLastCap
  | .fscanfCapLastCap | .fcloseCapLastCap | .capbsetDrop _ => if nnp then 7 else 10
  | .noNewPrivs => if nnp then 8 else 4
  | .sigsysHandler => if nnp then 9 else 5
  | .seccompFilter => if nnp then 10 else 6
  | .seccompStrict => 11

structure Banded (nnp : Bool) (lo hi : Nat) (l : List Sys) : Prop where
  le : lo ≤ hi
  sorted : l.Pairwise fun x y => x.rank nnp ≤ y.rank nnp
  within : ∀ x ∈ l, lo ≤ x.rank nnp ∧ x.rank nnp ≤ hi

section Banded

variable {nnp : Bool} {a b c r : Nat} {l l₁ l₂ : List Sys}

theorem Banded.append (h₁ : Banded nnp a b l₁) (h₂ : Banded nnp b c l₂) : Banded nnp a c (l₁ ++ l₂) where
  le := h₁.le.trans h₂.le
  sorted := List.pairwise_append.2
    ⟨h₁.sorted, h₂.sorted, fun x hx y hy => (h₁.within x hx).2.trans (h₂.within y hy).1⟩
  within x hx := by
    have := h₁.le; have := h₂.le
    rcases List.mem_append.1 hx with hx | hx
    · have := h₁.within x hx; omega
    · have := h₂.within x hx; omega

theorem Banded.cond {p : Prop} [Decidable p] (h₁ : Banded nnp a b l₁) (h₂ : Banded nnp a b l₂) :
    Banded nnp a b (if p then l₁ else l₂) := by
  split
  · exact h₁
  · exact h₂

theorem Banded.nil (h : a ≤ b) : Banded nnp a b [] := ⟨h, List.Pairwise.nil, fun _ h => absurd h (List.not_mem_nil _)⟩

theorem Banded.ite {p : Prop} [Decidable p] (h : Banded nnp a b l) : Banded nnp a b (if p then l else []) :=
  h.cond (Banded.nil h.le)

theorem Banded.of_rank (h : l.all (fun x => x.rank nnp == r) = true) (hr : a ≤ r) : Banded nnp a r l := by
  simp only [List.all_eq_true, beq_iff_eq] at h
  exact ⟨hr, List.pairwise_of_forall_mem_list fun x hx y hy => by rw [h x hx, h y hy],
    fun x hx => by rw [h x hx]; exact ⟨hr, le_refl r⟩⟩

theorem Banded.single (x : Sys) (hr : a ≤ x.rank nnp) : Banded nnp a (x.rank nnp) [x] :=
  Banded.of_rank (by simp) hr

end Banded

@[simp] theorem all_ite {α : Type} (c : Prop) [Decidable c] (p q : List α) (f : α → Bool) :
    (if c then p else q).all f = if c then p.all f else q.all f := by
  split <;> rfl

def Step.callIs (P : Sys → Bool) : Step → Bool
  | .call c _ => P c
  | _ => true

@[simp] theorem callIs_checked (P : Sys → Bool) (c : Sys) : (checked c).callIs P = P c := rfl

@[simp] theorem callIs_call (P : Sys → Bool) (c : Sys) (e : Option Stop) : (Step.call c e).callIs P = P c := rfl

@[simp] theorem callIs_halt (P : Sys → Bool) (e : Stop) : (Step.halt e).callIs P = true := rfl

@[simp] theorem callIs_setLastCap (P : Sys → Bool) (n : Nat) : (Step.setLastCap n).callIs P = true := rfl

theorem all_planCalls (P : Sys → Bool) (p : List Step) : (planCalls p).all P = p.all (Step.callIs P) := by
  induction p with
  | nil => rfl
  | cons st p ih => rcases st with ⟨⟩ | ⟨⟩ | ⟨⟩ <;> simp [planCalls, Step.callIs, ih]

section Steps

variable {Q : Step → Bool}

theorem all_bindPlan (ha : Q (checked .asprintf) = true) (hm : ∀ s d, Q (checked (.bindMount s d)) = true)
    (hr : ∀ s d, Q (checked (.bindRemountRo s d)) = true) (j : Minijail) (bs : List Binding) :
    (bindPlan j bs).all Q = true := by
  induction bs with
  | nil => rfl
  | cons b bs ih => simp [bindPlan, ha, hm, hr, ih]

theorem all_capLoopPlan {cl : Nat} {body : Nat → List Step} (hr : ∀ lc, (readCapPlan cl lc).all Q = true)
    (hb : ∀ i, (body i).all Q = true) (lc n i : Nat) : (capLoopPlan cl body lc n i).all Q = true := by
  induction n generalizing lc i with
  | zero => rfl
  | succ n ih => simp [capLoopPlan, hr, hb, ih]

end Steps

theorem chrootPlan_labelled (j : Minijail) (mem : Mem) : (chrootPlan j mem).all Step.labelled = true := by
  have := all_bindPlan (Q := Step.labelled) rfl (fun _ _ => rfl) (fun _ _ => rfl) j
  unfold chrootPlan
  split
  · split <;> simp [this, Sys.isChecked]
  · rfl

theorem dropCapsPlan_labelled (j : Minijail) (cl lc : Nat) : (dropCapsPlan j cl lc).all Step.labelled = true := by
  have hr : ∀ lc, (readCapPlan cl lc).all Step.labelled = true := fun lc => by
    unfold readCapPlan; split <;> rfl
  have h₁ : ∀ lc, (capLoopPlan cl (raisePlan j) lc 64 0).all Step.labelled = true := fun lc =>
    all_capLoopPlan hr (fun i => by unfold raisePlan; split <;> rfl) lc 64 0
  have h₂ : ∀ lc, (capLoopPlan cl (boundingPlan j) lc 64 0).all Step.labelled = true := fun lc =>
    all_capLoopPlan hr (fun i => by unfold boundingPlan; split <;> rfl) lc 64 0
  simp [dropCapsPlan, h₁, h₂, Sys.isChecked]

theorem enterPlan_labelled (j : Minijail) (mem : Mem) (cl lc : Nat) :
    (enterPlan j mem cl lc).all Step.labelled = true := by
  simp [enterPlan, chrootPlan_labelled, dropCapsPlan_labelled, remountPlan, ugidPlan, seccompPlan,
    Sys.isChecked]

section Bands

variable {nnp : Bool} {lo : Nat}

theorem banded_chrootPlan (j : Minijail) (mem : Mem) (h : lo ≤ 2) : Banded nnp lo 2 (planCalls (chrootPlan j mem)) := by
  have := all_bindPlan (Q := Step.callIs fun x => x.rank nnp == 2) rfl (fun _ _ => rfl)
    (fun _ _ => rfl) j
  refine Banded.of_rank ?_ h
  rw [all_planCalls]
  unfold chrootPlan
  split
  · split <;> simp only [List.all_append, this, Bool.true_and] <;> rfl
  · rfl

theorem banded_remountPlan (j : Minijail) (h : lo ≤ 2) : Banded nnp lo 2 (planCalls (remountPlan j)) :=
  Banded.of_rank rfl h

theorem banded_ugidPlan (j : Minijail) (h : lo ≤ Sys.rank nnp .setgroups) :
    Banded nnp lo (Sys.rank nnp (.setresuid 0)) (planCalls (ugidPlan j)) := by
  simp only [ugidPlan, planCalls_append, planCalls_ite, planCalls_checked, planCalls_nil]
  refine Banded.append (b := Sys.rank nnp (.setresgid 0))
    (Banded.append (b := Sys.rank nnp .setgroups) (Banded.cond ?_ (Banded.ite ?_)) (Banded.ite ?_)) (Banded.ite ?_)
  · exact Banded.of_rank (r := Sys.rank nnp .setgroups) (by cases nnp <;> rfl) h
  · exact Banded.single _ h
  · exact Banded.of_rank (r := Sys.rank nnp (.setresgid 0)) (by cases nnp <;> rfl) (by cases nnp <;> decide)
  · exact Banded.of_rank (by cases nnp <;> rfl) (by cases nnp <;> decide)

theorem banded_dropCapsPlan (j : Minijail) (cl lc : Nat) (h : lo ≤ Sys.rank nnp .capSetProc) :
    Banded nnp lo (Sys.rank nnp .capSetProc) (planCalls (dropCapsPlan j cl lc)) := by
  let Q := Step.callIs fun x => x.rank nnp == Sys.rank nnp .capSetProc
  have hr : ∀ lc, (readCapPlan cl lc).all Q = true := fun lc => by
    unfold readCapPlan; split <;> cases nnp <;> rfl
  have h₁ : ∀ lc, (capLoopPlan cl (raisePlan j) lc 64 0).all Q = true := fun lc =>
    all_capLoopPlan hr (fun i => by unfold raisePlan; split <;> cases nnp <;> rfl) lc 64 0
  have h₂ : ∀ lc, (capLoopPlan cl (boundingPlan j) lc 64 0).all Q = true := fun lc =>
    all_capLoopPlan hr (fun i => by unfold boundingPlan; split <;> cases nnp <;> rfl) lc 64 0
  refine Banded.of_rank ?_ h
  rw [all_planCalls]
  simp only [dropCapsPlan, List.all_append, h₁, h₂, Bool.and_true, Bool.true_and]
  split <;> cases nnp <;> rfl

theorem banded_seccompPlan (j : Minijail) (h : lo ≤ Sys.rank nnp .noNewPrivs) :
    Banded nnp lo (Sys.rank nnp .seccompFilter) (planCalls (seccompPlan j)) := by
  simp only [seccompPlan, planCalls_append, planCalls_ite, planCalls_checked, planCalls_nil]
  exact (((Banded.single _ h).ite).append ((Banded.single _ (by cases nnp <;> decide)).ite)).append
    ((Banded.single _ (by cases nnp <;> decide)).ite)

end Bands

def Sys.setsGroups : Sys → Bool
  | .initgroups .. | .setgroups => true
  | _ => false

def Sys.isSetresgid : Sys → Bool
  | .setresgid _ => true
  | _ => false

def Sys.isSetresuid : Sys → Bool
  | .setresuid _ => true
  | _ => false

def Sys.dropsPrivilege : Sys → Bool
  | .initgroups .. | .setgroups | .setresgid _ | .setresuid _ | .capSetProc | .capbsetDrop _ => true
  | _ => false

section Ranks

variable {nnp : Bool} {c : Sys}

theorem rank_of_beq {x : Sys} (h : (c == x) = true) : c.rank nnp = x.rank nnp := by
  rw [beq_iff_eq.1 h]

theorem rank_of_setsGroups (h : c.setsGroups = true) : c.rank nnp = Sys.rank nnp .setgroups := by
  cases c <;> (try cases h) <;> rfl

theorem rank_of_isSetresgid (h : c.isSetresgid = true) : c.rank nnp = Sys.rank nnp (.setresgid 0) := by
  cases c <;> (try cases h)
  rfl

theorem rank_of_isSetresuid (h : c.isSetresuid = true) : c.rank nnp = Sys.rank nnp (.setresuid 0) := by
  cases c <;> (try cases h)
  rfl

theorem rank_of_dropsPrivilege (nnp : Bool) (h : c.dropsPrivilege = true) :
    Sys.rank nnp .setgroups ≤ c.rank nnp ∧ c.rank nnp ≤ Sys.rank nnp .capSetProc := by
  cases c <;> (try cases h) <;> cases nnp <;>
    exact ⟨Nat.le_of_ble_eq_true rfl, Nat.le_of_ble_eq_true rfl⟩

end Ranks

theorem enterPlan_sorted (j : Minijail) (mem : Mem) (cl lc : Nat) :
    (planCalls (enterPlan j mem cl lc)).Pairwise fun x y => x.rank j.flags.noNewPrivs ≤ y.rank j.flags.noNewPrivs := by
  simp only [enterPlan, planCalls_append, planCalls_ite, planCalls_halt, planCalls_checked, planCalls_nil,
    ite_self, List.nil_append, List.append_assoc]
  have hK (nnp : Bool) : Banded nnp 2 3 [.keepCaps, .secureBits] := Banded.of_rank rfl (by decide)
  cases j.flags.noNewPrivs
  · -- the filter first, then identity and capabilities
    simp only [Bool.false_eq_true, if_false, List.append_assoc]
    exact ((Banded.single .unshareNs (Nat.zero_le _)).ite.append ((Banded.single .unshareNet (by decide)).ite.append
      ((banded_chrootPlan j mem (by decide)).ite.append ((Banded.single .mountTmp (by decide)).ite.append
      ((banded_remountPlan j (by decide)).ite.append ((hK false).ite.append ((banded_seccompPlan j (by decide)).append
      ((banded_ugidPlan j (by decide)).append ((banded_dropCapsPlan j cl lc (by decide)).ite.append
      (Banded.single .seccompStrict (by decide)).ite))))))))).sorted
  · -- identity and capabilities first, then `no_new_privs` and the filter
    simp only [if_true, List.append_assoc]
    exact ((Banded.single .unshareNs (Nat.zero_le _)).ite.append ((Banded.single .unshareNet (by decide)).ite.append
      ((banded_chrootPlan j mem (by decide)).ite.append ((Banded.single .mountTmp (by decide)).ite.append
      ((banded_remountPlan j (by decide)).ite.append ((hK true).ite.append ((banded_ugidPlan j (by decide)).append
      ((banded_dropCapsPlan j cl lc (by decide)).ite.append ((banded_seccompPlan j (by decide)).append
      (Banded.single .seccompStrict (by decide)).ite))))))))).sorted

theorem mem_enterPlan_of_seccompPlan {j : Minijail} {mem : Mem} {cl lc : Nat} {c : Sys}
    (h : c ∈ planCalls (seccompPlan j)) : c ∈ planCalls (enterPlan j mem cl lc) := by
  simp only [enterPlan, planCalls_append, planCalls_ite, List.mem_append]
  cases j.flags.noNewPrivs <;> simp [h]

/-- Jail entry is fail-closed and drops privilege in order: whatever the system answers, the calls
`minijail_enter` issues stop at the first refused checked call, `PR_SET_KEEPCAPS` and
`PR_SET_SECUREBITS` come before `setresuid`, the group changes before the gid change and that
before the uid change, the privilege drops before `no_new_privs` and the filter when the policy
sets `no_new_privs` and after the filter when it does not, and the `SIGSYS` handler before the
filter. -/
theorem enter_fail_closed_ordered (w : World) (j : Minijail) (mem : Mem) (s : Proc) :
    ∃ t, (finalProc (minijailEnter w j mem s)).calls = s.calls ++ t ∧
      FailClosed w s.calls.length t (returned (minijailEnter w j mem s)) ∧
      (returned (minijailEnter w j mem s) = true →
        ∀ k (hk : k < t.length), t[k].isChecked = true → w.ok (s.calls.length + k) = true) ∧
      (j.flags.caps = true →
        Before (fun c => c == .keepCaps || c == .secureBits) Sys.isSetresuid t ∧
        Requires (· == .keepCaps) Sys.isSetresuid t ∧ Requires (· == .secureBits) Sys.isSetresuid t) ∧
      Before Sys.setsGroups (fun c => c.isSetresgid || c.isSetresuid) t ∧
      Before Sys.isSetresgid Sys.isSetresuid t ∧
      (j.flags.noNewPrivs = true →
        Before Sys.dropsPrivilege (fun c => c == .noNewPrivs || c == .seccompFilter) t) ∧
      (j.flags.noNewPrivs = false → j.flags.seccompFilter = true →
        Before (· == .seccompFilter) Sys.dropsPrivilege t ∧ Requires (· == .seccompFilter) Sys.dropsPrivilege t) ∧
      Before (· == .sigsysHandler) (· == .seccompFilter) t ∧
      (j.flags.seccompFilter = true → j.flags.logSeccompFilter = true →
        Requires (· == .sigsysHandler) (· == .seccompFilter) t) := by
  have hrun : minijailEnter w j mem s = runPlan w (enterPlan j mem w.capLastCap s.lastCap) s := by
    simp only [minijailEnter_eq, atCap]
  rw [hrun]
  obtain ⟨t, hcalls, hpre, hfail⟩ := runPlan_trace w _ (enterPlan_labelled j mem w.capLastCap s.lastCap) s
  have hs := enterPlan_sorted j mem w.capLastCap s.lastCap
  have huid (b : Sys) (hb : b.isSetresuid = true) (x : Sys) (hx : ∀ nnp, x.rank nnp < Sys.rank nnp (.setresuid 0)) :
      x.rank j.flags.noNewPrivs < b.rank j.flags.noNewPrivs := by
    rw [rank_of_isSetresuid hb]; exact hx _
  refine ⟨t, hcalls, hfail, fun hret k hk hc => ?_, fun hcaps => ⟨?_, ?_, ?_⟩, ?_, ?_, fun hn => ?_,
    fun hn hf => ⟨?_, ?_⟩, ?_, fun hf hl => ?_⟩
  · cases hok : w.ok (s.calls.length + k)
    · simp [(hfail k hk hc hok).2] at hret
    · rfl
  · refine (before_of_sorted hs fun a b ha hb => ?_).of_leading hpre
    rcases Bool.or_eq_true_iff.1 ha with h | h <;> rw [rank_of_beq h] <;> exact huid b hb _ (by decide)
  · refine (requires_of_sorted hs (a := .keepCaps) (by simp [enterPlan, hcaps]) rfl
      fun b hb => huid b hb _ (by decide)).of_leading hpre
  · refine (requires_of_sorted hs (a := .secureBits) (by simp [enterPlan, hcaps]) rfl
      fun b hb => huid b hb _ (by decide)).of_leading hpre
  · refine (before_of_sorted hs fun a b ha hb => ?_).of_leading hpre
    rw [rank_of_setsGroups ha]
    rcases Bool.or_eq_true_iff.1 hb with h | h
    · rw [rank_of_isSetresgid h]; cases j.flags.noNewPrivs <;> decide
    · exact huid b h _ (by decide)
  · refine (before_of_sorted hs fun a b ha hb => ?_).of_leading hpre
    rw [rank_of_isSetresgid ha]; exact huid b hb _ (by decide)
  · rw [hn] at hs
    refine (before_of_sorted hs fun a b ha hb => ?_).of_leading hpre
    have := (rank_of_dropsPrivilege true ha).2
    rcases Bool.or_eq_true_iff.1 hb with h | h <;> rw [rank_of_beq h] <;> exact lt_of_le_of_lt this (by decide)
  · rw [hn] at hs
    refine (before_of_sorted hs fun a b ha hb => ?_).of_leading hpre
    rw [rank_of_beq ha]; exact lt_of_lt_of_le (by decide) (rank_of_dropsPrivilege _ hb).1
  · rw [hn] at hs
    refine (requires_of_sorted hs (a := .seccompFilter)
      (mem_enterPlan_of_seccompPlan (by simp [seccompPlan, hf])) rfl
      fun b hb => lt_of_lt_of_le (by decide) (rank_of_dropsPrivilege _ hb).1).of_leading hpre
  · refine (before_of_sorted hs fun a b ha hb => ?_).of_leading hpre
    rw [rank_of_beq ha, rank_of_beq hb]; cases j.flags.noNewPrivs <;> decide
  · refine (requires_of_sorted hs (a := .sigsysHandler)
      (mem_enterPlan_of_seccompPlan (by simp [seccompPlan, hf, hl])) rfl
      fun b hb => ?_).of_leading hpre
    rw [rank_of_beq hb]; cases j.flags.noNewPrivs <;> decide

/-- `run_cap_valid` does not check its `fclose`: for `minijail_use_caps(j, 0)`, with
`cap_last_cap` at `1` and the `fclose` refused, the process issues seven more calls and
`minijail_enter` returns. -/
theorem enter_continues_after_fclose :
    let w : World := ⟨fun n => n != 8, 1⟩
    let r := minijailEnter w (minijailUseCaps minijailNew 0) ⟨fun _ => false, fun _ => none, 0, 0⟩ {}
    (finalProc r).calls[8]? = some .fcloseCapLastCap ∧ w.ok 8 = false ∧
      (finalProc r).calls.length = 16 ∧ returned r = true := by
  decide

end Libminijail
