import Minijail.Defs.EnterLaws

/-! Runs of `bind_one`: the mounts of the binding list in order, `0` only when every one was
granted, and the end of the process at the first mount refused. -/

namespace Libminijail

def Sys.isMount : Sys → Bool
  | .bindMount .. | .bindRemountRo .. | .mountTmp | .mountProc _ => true
  | _ => false

def bindMounts (j : Minijail) (L : List Binding) : List Sys :=
  L.flatMap fun b =>
    .bindMount b.src.val.bytes (j.chrootdir.text ++ b.dest.val.bytes) ::
      if b.writeable = 0 then [.bindRemountRo b.src.val.bytes (j.chrootdir.text ++ b.dest.val.bytes)]
      else []

theorem planCalls_bindPlan_cons (j : Minijail) (b : Binding) (bs : List Binding) :
    planCalls (bindPlan j (b :: bs)) =
      .asprintf :: .bindMount b.src.val.bytes (j.chrootdir.text ++ b.dest.val.bytes) ::
        ((if b.writeable = 0 then [.bindRemountRo b.src.val.bytes (j.chrootdir.text ++ b.dest.val.bytes)]
          else []) ++ planCalls (bindPlan j bs)) := by
  by_cases hw : b.writeable = 0 <;> simp [bindPlan, hw]

theorem filter_isMount_bindPlan (j : Minijail) (L : List Binding) :
    (planCalls (bindPlan j L)).filter Sys.isMount = bindMounts j L := by
  induction L with
  | nil => rfl
  | cons b bs ih =>
    by_cases hw : b.writeable = 0 <;>
      simp [planCalls_bindPlan_cons, bindMounts, hw, List.filter_append, ih, Sys.isMount]

theorem asprintf_of_mem_bindPlan {j : Minijail} {L : List Binding} {c : Sys}
    (h : c ∈ planCalls (bindPlan j L)) (hc : c.isMount = false) : c = .asprintf := by
  induction L with
  | nil => cases h
  | cons b bs ih =>
    simp only [planCalls_bindPlan_cons, List.mem_cons, List.mem_append] at h
    rcases h with rfl | rfl | h | h
    · rfl
    · cases hc
    · split at h <;> simp only [List.mem_singleton, List.not_mem_nil] at h
      subst h; cases hc
    · exact ih h

section Check

variable {w : World} {α : Type} {c : Sys} {f : Unit → Jail α} {s : Proc}

theorem check_bind_of_ok (h : w.ok s.calls.length = true) :
    (check w c >>= f) s = f () { s with calls := s.calls ++ [c] } := by
  simp only [check, bind_assoc, sys_bind, h]; rfl

theorem check_bind_of_refused (h : w.ok s.calls.length = false) :
    (check w c >>= f) s = .error .died { s with calls := s.calls ++ [c] } := by
  simp only [check, bind_assoc, sys_bind, h]; rfl

end Check

/-- How a run of `bind_one` that issued the calls `t`, from trace position `n` on, ended: it
returned `0` having issued every call of its plan `E`, each granted; it returned `-ENOMEM` at a
refused `asprintf`; or it died at a refused mount. -/
def BindEnd (w : World) (n : Nat) (E t : List Sys) : EStateM.Result Stop Proc Bool → Prop
  | .ok true _ => t = E ∧ ∀ k < t.length, w.ok (n + k) = true
  | .ok false _ => ∃ t₀, t = t₀ ++ [.asprintf] ∧ w.ok (n + t₀.length) = false
  | .error e _ => e = .died ∧ ∃ t₀ c, t = t₀ ++ [c] ∧ c.isMount = true ∧ w.ok (n + t₀.length) = false

def BindRun (w : World) (E : List Sys) (s : Proc) (r : EStateM.Result Stop Proc Bool) : Prop :=
  ∃ t, (finalProc r).calls = s.calls ++ t ∧ t <+: E ∧
    (∀ k, k + 1 < t.length → w.ok (s.calls.length + k) = true) ∧ BindEnd w s.calls.length E t r

section Prepend

variable {w : World} {n : Nat} {p E t : List Sys} {r : EStateM.Result Stop Proc Bool}

theorem BindEnd.prepend (h : BindEnd w (n + p.length) E t r) (hp : ∀ k < p.length, w.ok (n + k) = true) :
    BindEnd w n (p ++ E) (p ++ t) r := by
  rcases r with ⟨_ | _, _⟩ | ⟨e, _⟩
  · obtain ⟨t₀, rfl, h⟩ := h
    exact ⟨p ++ t₀, by simp, by simpa [Nat.add_assoc] using h⟩
  · obtain ⟨rfl, h⟩ := h
    refine ⟨rfl, fun k hk => ?_⟩
    by_cases hk' : k < p.length
    · exact hp k hk'
    · simpa [show n + p.length + (k - p.length) = n + k by omega] using
        h (k - p.length) (by simp only [List.length_append] at hk; omega)
  · obtain ⟨rfl, t₀, c, rfl, hc, h⟩ := h
    exact ⟨rfl, p ++ t₀, c, by simp, hc, by simpa [Nat.add_assoc] using h⟩

theorem BindRun.prepend {s : Proc} (h : BindRun w E { s with calls := s.calls ++ p } r)
    (hp : ∀ k < p.length, w.ok (s.calls.length + k) = true) : BindRun w (p ++ E) s r := by
  obtain ⟨t, h₁, h₂, h₃, h₄⟩ := h
  simp only [List.length_append] at h₃ h₄
  refine ⟨p ++ t, by rw [h₁, List.append_assoc], (List.prefix_append_right_inj p).2 h₂, fun k hk => ?_,
    h₄.prepend hp⟩
  by_cases hk' : k < p.length
  · exact hp k hk'
  · have := h₃ (k - p.length) (by simp only [List.length_append] at hk; omega)
    rwa [show s.calls.length + p.length + (k - p.length) = s.calls.length + k by omega] at this

end Prepend

theorem bindOne_spec (w : World) (j : Minijail) (L : List Binding) (s : Proc) :
    BindRun w (planCalls (bindPlan j L)) s (bindOne w j L s) := by
  induction L generalizing s with
  | nil => exact ⟨[], by simp [bindOne]; rfl, List.nil_prefix, fun _ h => absurd h (by simp), rfl,
      fun _ h => absurd h (by simp)⟩
  | cons b bs ih =>
    rw [planCalls_bindPlan_cons]
    cases ha : w.ok s.calls.length
    · have hb : bindOne w j (b :: bs) s = .ok false { s with calls := s.calls ++ [.asprintf] } := by
        simp only [bindOne, sys_bind, ha]; rfl
      rw [hb]
      exact ⟨[.asprintf], rfl, (List.prefix_cons_inj _).2 List.nil_prefix, fun k hk => absurd hk (by simp),
        [], rfl, ha⟩
    cases hm : w.ok (s.calls.length + 1)
    · have hb : bindOne w j (b :: bs) s = .error .died { s with calls := s.calls ++
          [.asprintf, .bindMount b.src.val.bytes (j.chrootdir.text ++ b.dest.val.bytes)] } := by
        simp only [bindOne, sys_bind, ha, if_true, pure_bind]
        rw [check_bind_of_refused (by simpa using hm)]
        simp
      rw [hb]
      refine ⟨_, rfl, List.prefix_append [_, _] _, fun k hk => ?_, rfl, [.asprintf], _, rfl, rfl, hm⟩
      obtain rfl : k = 0 := by simp only [List.length_cons, List.length_nil] at hk; omega
      exact ha
    by_cases hw : b.writeable = 0
    · rw [if_pos hw]
      cases hr : w.ok (s.calls.length + 2)
      · have hb : bindOne w j (b :: bs) s = .error .died { s with calls := s.calls ++
            [.asprintf, .bindMount b.src.val.bytes (j.chrootdir.text ++ b.dest.val.bytes),
              .bindRemountRo b.src.val.bytes (j.chrootdir.text ++ b.dest.val.bytes)] } := by
          simp only [bindOne, sys_bind, ha, if_true, pure_bind, hw]
          rw [check_bind_of_ok (by simpa using hm), check_bind_of_refused (by simpa using hr)]
          simp
        rw [hb]
        refine ⟨_, rfl, List.prefix_append [_, _, _] _, fun k hk => ?_, rfl, [.asprintf, _], _, rfl, rfl, hr⟩
        simp only [List.length_cons, List.length_nil] at hk
        rcases (show k = 0 ∨ k = 1 by omega) with rfl | rfl
        exacts [ha, hm]
      · have hb : bindOne w j (b :: bs) s = bindOne w j bs { s with calls := s.calls ++
            [.asprintf, .bindMount b.src.val.bytes (j.chrootdir.text ++ b.dest.val.bytes),
              .bindRemountRo b.src.val.bytes (j.chrootdir.text ++ b.dest.val.bytes)] } := by
          simp only [bindOne, sys_bind, ha, if_true, pure_bind, hw]
          rw [check_bind_of_ok (by simpa using hm), check_bind_of_ok (by simpa using hr)]
          simp
        rw [hb]
        refine (ih _).prepend (p := [_, _, _]) fun k hk => ?_
        simp only [List.length_cons, List.length_nil] at hk
        rcases (show k = 0 ∨ k = 1 ∨ k = 2 by omega) with rfl | rfl | rfl
        exacts [ha, hm, hr]
    · have hb : bindOne w j (b :: bs) s = bindOne w j bs { s with calls := s.calls ++
          [.asprintf, .bindMount b.src.val.bytes (j.chrootdir.text ++ b.dest.val.bytes)] } := by
        simp only [bindOne, sys_bind, ha, if_true, pure_bind, hw]
        rw [check_bind_of_ok (by simpa using hm)]
        simp
      rw [hb, if_neg hw]
      refine (ih _).prepend (p := [_, _]) fun k hk => ?_
      simp only [List.length_cons, List.length_nil] at hk
      rcases (show k = 0 ∨ k = 1 by omega) with rfl | rfl
      exacts [ha, hm]

/-- `bind_one` on a list of bindings, under any `chrootdir` and whatever the system answers: the
calls it adds are the list's mounts in order, each binding's `MS_BIND` mount followed by its
read-only remount exactly when it is not writeable, and otherwise only `asprintf`s; a refused
mount is the last call, and the process dies of it; a run that returns `0` issued every mount and
had every call granted; and when every call is granted it returns `0`. -/
theorem bind_one_follows_list (w : World) (j : Minijail) (L : List Binding) (s : Proc) :
    (∃ t, (finalProc (bindOne w j L s)).calls = s.calls ++ t ∧
      t.filter Sys.isMount <+: bindMounts j L ∧ (∀ c ∈ t, c.isMount = false → c = .asprintf) ∧
      (∀ k (hk : k < t.length), t[k].isMount = true → w.ok (s.calls.length + k) = false →
        k + 1 = t.length ∧ ∃ s', bindOne w j L s = .error .died s') ∧
      (∀ s', bindOne w j L s = .ok true s' →
        t.filter Sys.isMount = bindMounts j L ∧ ∀ k < t.length, w.ok (s.calls.length + k) = true)) ∧
    ((∀ k, w.ok (s.calls.length + k) = true) → ∃ s', bindOne w j L s = .ok true s') := by
  obtain ⟨t, h₁, h₂, h₃, h₄⟩ := bindOne_spec w j L s
  refine ⟨⟨t, h₁, filter_isMount_bindPlan j L ▸ h₂.filter Sys.isMount,
    fun c hc => asprintf_of_mem_bindPlan (h₂.subset hc), fun k hk hmount hk' => ?_, fun s' hs => ?_⟩,
    fun hall => ?_⟩
  · have hlast : k + 1 = t.length := by
      by_contra hne
      simp [h₃ k (by omega)] at hk'
    refine ⟨hlast, ?_⟩
    revert h₄
    rcases bindOne w j L s with ⟨_ | _, s'⟩ | ⟨e, s'⟩ <;> intro h₄
    · obtain ⟨t₀, rfl, -⟩ := h₄
      simp only [List.length_append, List.length_singleton, Nat.add_right_cancel_iff] at hlast
      subst hlast
      simp [Sys.isMount] at hmount
    · simp [h₄.2 k hk] at hk'
    · exact ⟨s', by rw [h₄.1]⟩
  · rw [hs] at h₄
    exact ⟨by rw [h₄.1, filter_isMount_bindPlan], h₄.2⟩
  · revert h₄
    rcases bindOne w j L s with ⟨_ | _, s'⟩ | ⟨e, s'⟩ <;> intro h₄
    · obtain ⟨t₀, -, h⟩ := h₄
      simp [hall] at h
    · exact ⟨s', rfl⟩
    · obtain ⟨-, t₀, c, -, -, h⟩ := h₄
      simp [hall] at h

end Libminijail
