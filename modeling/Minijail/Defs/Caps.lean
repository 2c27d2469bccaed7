import Minijail.Defs.Chroot

/-! What `drop_caps` does to the capability sets. The libcap calls edit a `cap_t` in memory,
`cap_set_proc` installs it as the process's effective, permitted and inheritable sets, and
`prctl(PR_CAPBSET_DROP, i)` takes cap `i` out of the bounding set, which the kernel does only for a
process with `CAP_SETPCAP` in its effective set. A set is a predicate on capability numbers.
Whether a `cap_set_proc` is allowed is the world's answer, as for every call. -/

namespace Libminijail

structure CapState where
  working : CapFlag → Nat → Bool
  proc : CapFlag → Nat → Bool
  bounding : Nat → Bool

namespace CapState

/-- What a call that succeeds does to the capability state; `none` for a bounding-set drop
without `CAP_SETPCAP` in the effective set, which the kernel refuses. Other calls leave the state
alone. -/
def step (σ : CapState) : Sys → Option CapState
  | .capGetProc => some { σ with working := σ.proc }
  | .capClearFlag f => some { σ with working := Function.update σ.working f fun _ => false }
  | .capSetFlag f cap raise =>
    some { σ with working := Function.update σ.working f (Function.update (σ.working f) cap raise) }
  | .capSetProc => some { σ with proc := σ.working }
  | .capbsetDrop i =>
    if σ.proc .effective CAP_SETPCAP then some { σ with bounding := Function.update σ.bounding i false }
    else none
  | _ => some σ

def run (σ : CapState) : List Sys → Option CapState
  | [] => some σ
  | c :: t => (σ.step c).bind fun σ' => σ'.run t

theorem run_append (σ : CapState) (t u : List Sys) : σ.run (t ++ u) = (σ.run t).bind (·.run u) := by
  induction t generalizing σ with
  | nil => rfl
  | cons c t ih =>
    show ((σ.step c).bind fun σ' => σ'.run (t ++ u)) = _
    simp only [run, ih, Option.bind_assoc]

end CapState

open CapState

def capsKept (j : Minijail) (L x : Nat) : Bool := decide (x ≤ min L 63) && j.caps.getLsbD x

theorem planCalls_flatMap (l : List Nat) (body : Nat → List Step) :
    planCalls (l.flatMap body) = l.flatMap fun x => planCalls (body x) := by
  induction l with
  | nil => rfl
  | cons x l ih => simp [List.flatMap_cons, ih]

section Loops

variable {cl lc : Nat} (body : Nat → List Step)

theorem capLoopPlan_cached (h : lc ≠ 0) (n i : Nat) :
    capLoopPlan cl body lc n i = (List.range' i (min n (lc + 1 - i))).flatMap body := by
  induction n generalizing i with
  | zero => simp [capLoopPlan]
  | succ n ih =>
    have hc : cachedCap cl lc = lc := if_neg h
    simp only [capLoopPlan, readCapPlan, if_neg h, hc, List.nil_append, ih]
    split
    · rw [show min (n + 1) (lc + 1 - i) = min n (lc + 1 - (i + 1)) + 1 by omega, List.range'_succ,
        List.flatMap_cons]
    · rw [show min (n + 1) (lc + 1 - i) = 0 by omega]; rfl

theorem capLoopPlan_succ (h : cachedCap cl lc ≠ 0) (n i : Nat) :
    capLoopPlan cl body lc (n + 1) i =
      readCapPlan cl lc ++ (List.range' i (min (n + 1) (cachedCap cl lc + 1 - i))).flatMap body := by
  simp only [capLoopPlan, capLoopPlan_cached body h]
  congr 1
  split
  · rw [show min (n + 1) (cachedCap cl lc + 1 - i) = min n (cachedCap cl lc + 1 - (i + 1)) + 1 by omega,
      List.range'_succ, List.flatMap_cons]
  · rw [show min (n + 1) (cachedCap cl lc + 1 - i) = 0 by omega]; rfl

end Loops

section Run

variable (j : Minijail) (σ : CapState)

theorem run_readCapPlan (cl lc : Nat) : σ.run (planCalls (readCapPlan cl lc)) = some σ := by
  unfold readCapPlan; split <;> rfl

theorem run_clearFlags :
    σ.run [.capGetProc, .capClearFlag .inheritable, .capClearFlag .effective,
      .capClearFlag .permitted] = some { σ with working := fun _ _ => false } := by
  simp only [run, step, Option.some_bind, Option.some.injEq, CapState.mk.injEq, and_true]
  funext f
  cases f <;> rfl

theorem run_capSetProc : σ.run [.capSetProc] = some { σ with proc := σ.working } := rfl

theorem run_clearCap (i : Nat) :
    σ.run [.capSetFlag .effective i false, .capSetFlag .permitted i false,
      .capSetFlag .inheritable i false] =
      some { σ with working := fun f x => σ.working f x && !(x == i) } := by
  simp only [run, step, Option.some_bind, Option.some.injEq, CapState.mk.injEq, and_true]
  funext f x
  cases f <;> by_cases hx : x = i <;> simp [Function.update_apply, hx]

theorem run_raisePlan (i : Nat) :
    σ.run (planCalls (raisePlan j i)) = some { σ with
      working := fun f x => σ.working f x || (x == i && (i == CAP_SETPCAP || j.caps.getLsbD i)) } := by
  unfold raisePlan
  split
  · next h =>
    have hi : (i == CAP_SETPCAP || j.caps.getLsbD i) = false := by simpa using h
    simp [run, hi]
  · next h =>
    have hi : (i == CAP_SETPCAP || j.caps.getLsbD i) = true := by
      simp only [not_and, Decidable.not_not] at h
      by_cases h8 : i = CAP_SETPCAP <;> simp_all
    simp only [planCalls_checked, planCalls_nil, run, step, Option.some_bind, hi, Bool.and_true,
      Option.some.injEq, CapState.mk.injEq, and_true]
    funext f x
    cases f <;> by_cases hx : x = i <;> simp [Function.update_apply, hx]

theorem run_raiseLoop (i k : Nat) :
    σ.run ((List.range' i k).flatMap fun x => planCalls (raisePlan j x)) =
      some { σ with
        working := fun f x =>
          σ.working f x || (decide (i ≤ x ∧ x < i + k) && (x == CAP_SETPCAP || j.caps.getLsbD x)) } := by
  induction k generalizing i σ with
  | zero =>
    have e : ∀ x, decide (i ≤ x ∧ x < i + 0) = false := fun x => decide_eq_false (by omega)
    simp only [List.range'_zero, List.flatMap_nil, run, e, Bool.false_and, Bool.or_false]
  | succ k ih =>
    rw [List.range'_succ, List.flatMap_cons, run_append, run_raisePlan, Option.some_bind, ih]
    simp only [Option.some.injEq, CapState.mk.injEq, and_true]
    funext f x
    by_cases hx : x = i
    · subst hx; simp
    · have e : (i + 1 ≤ x ∧ x < i + 1 + k) ↔ (i ≤ x ∧ x < i + (k + 1)) := by omega
      have hx' : (x == i) = false := by simpa using hx
      simp [hx', e, Bool.or_assoc]

theorem run_boundingPlan (h : σ.proc .effective CAP_SETPCAP = true) (i : Nat) :
    σ.run (planCalls (boundingPlan j i)) =
      some { σ with bounding := fun x => σ.bounding x && !(x == i && !j.caps.getLsbD i) } := by
  unfold boundingPlan
  split
  · next hk => simp [run, hk]
  · next hk =>
    simp only [planCalls_checked, planCalls_nil, run, step, h, if_true, Option.some_bind,
      Option.some.injEq, CapState.mk.injEq, true_and]
    funext x
    by_cases hx : x = i <;> simp [Function.update_apply, hx, hk]

theorem run_boundingLoop (h : σ.proc .effective CAP_SETPCAP = true) (i k : Nat) :
    σ.run ((List.range' i k).flatMap fun x => planCalls (boundingPlan j x)) =
      some { σ with
        bounding := fun x => σ.bounding x && !(decide (i ≤ x ∧ x < i + k) && !j.caps.getLsbD x) } := by
  induction k generalizing i σ with
  | zero =>
    have e : ∀ x, decide (i ≤ x ∧ x < i + 0) = false := fun x => decide_eq_false (by omega)
    simp only [List.range'_zero, List.flatMap_nil, run, e, Bool.false_and, Bool.not_false,
      Bool.and_true]
  | succ k ih =>
    rw [List.range'_succ, List.flatMap_cons, run_append, run_boundingPlan j σ h, Option.some_bind,
      ih { σ with bounding := fun x => σ.bounding x && !(x == i && !j.caps.getLsbD i) } h]
    simp only [Option.some.injEq, CapState.mk.injEq, true_and]
    funext x
    by_cases hx : x = i
    · subst hx; simp
    · have e : (i + 1 ≤ x ∧ x < i + 1 + k) ↔ (i ≤ x ∧ x < i + (k + 1)) := by omega
      have hx' : (x == i) = false := by simpa using hx
      simp [hx', e, Bool.and_assoc]

end Run

def capsDropped (j : Minijail) (L : Nat) (b : Nat → Bool) : CapState :=
  ⟨fun _ => capsKept j L, fun _ => capsKept j L,
   fun x => b x && !(decide (x ≤ min L 63) && !j.caps.getLsbD x)⟩

theorem run_dropCapsPlan (j : Minijail) (σ : CapState) (cl lc : Nat) (hL : CAP_SETPCAP ≤ cachedCap cl lc) :
    σ.run (planCalls (dropCapsPlan j cl lc)) = some (capsDropped j (cachedCap cl lc) σ.bounding) := by
  have h0 : cachedCap cl lc ≠ 0 := by simp only [CAP_SETPCAP] at hL; omega
  have hK : min 64 (cachedCap cl lc + 1 - 0) = min (cachedCap cl lc) 63 + 1 := by omega
  have e1 := capLoopPlan_succ (raisePlan j) h0 63 0
  have e2 : capLoopPlan cl (boundingPlan j) (cachedCap cl lc) 64 0 = _ := capLoopPlan_cached _ h0 64 0
  simp only [dropCapsPlan, e1, e2, hK, planCalls_append, planCalls_flatMap, List.append_assoc, planCalls_checked, planCalls_nil, planCalls_ite]
  rw [run_append, run_clearFlags, Option.some_bind, run_append, run_readCapPlan, Option.some_bind,
    run_append, run_raiseLoop, Option.some_bind, run_append]
  have h8 : CAP_SETPCAP ≤ min (cachedCap cl lc) 63 := by simp only [CAP_SETPCAP] at hL ⊢; omega
  rw [run_capSetProc, Option.some_bind, run_append, run_boundingLoop _ _ (by simp; omega),
    Option.some_bind]
  have key : ∀ x, decide (0 ≤ x ∧ x < 0 + (min (cachedCap cl lc) 63 + 1)) =
      decide (x ≤ min (cachedCap cl lc) 63) := fun x => decide_eq_decide.mpr (by omega)
  cases hb : j.caps.getLsbD CAP_SETPCAP <;>
    [rw [if_pos rfl, run_append, run_clearCap, Option.some_bind, run_capSetProc];
     rw [if_neg (by simp), List.nil_append, run_capSetProc]]
  all_goals
    simp only [Option.some.injEq, capsDropped, CapState.mk.injEq, key, Bool.false_or, and_true]
    constructor <;> funext f x <;> rcases eq_or_ne x CAP_SETPCAP with rfl | hx <;>
      simp [hb, capsKept, beq_false_of_ne, *]

/-- A run of `drop_caps` that returns leaves, from any capability state, the three sets holding
the caps up to `min(L, 63)` that the policy keeps and the other caps up to `min(L, 63)` gone from
the bounding set, `L` being the `last_cap` that `run_cap_valid` read or had cached; and the kernel
allows each bounding-set drop, since `CAP_SETPCAP` is effective at each. -/
theorem drop_caps_sets (w : World) (j : Minijail) (s : Proc) (σ : CapState)
    (hL : CAP_SETPCAP ≤ cachedCap w.capLastCap s.lastCap) (hr : returned (dropCaps w j s) = true) :
    ∃ t, (finalProc (dropCaps w j s)).calls = s.calls ++ t ∧
      σ.run t = some (capsDropped j (cachedCap w.capLastCap s.lastCap) σ.bounding) := by
  have hx := congrFun (dropCaps_eq w j) s
  simp only [atCap] at hx
  rw [hx] at hr ⊢
  exact ⟨_, calls_of_returned w hr, run_dropCapsPlan j σ _ _ hL⟩

def capWorld : World := ⟨fun _ => true, 40⟩
def netBindCaps : Minijail := minijailUseCaps minijailNew 0x400

def Step.isHalt : Step → Bool
  | .halt _ => true
  | _ => false

theorem returned_of_grants {w : World} (hw : ∀ n, w.ok n = true) {p : List Step}
    (hp : p.all (!·.isHalt) = true) (s : Proc) : returned (runPlan w p s) = true := by
  induction p generalizing s with
  | nil => rfl
  | cons st p ih =>
    simp only [List.all_cons, Bool.and_eq_true] at hp
    rcases st with ⟨c, _ | e⟩ | e | n
    · exact ih hp.2 _
    · simp only [runPlan, sys_bind, hw, if_true]
      exact ih hp.2 _
    · cases hp.1
    · exact ih hp.2 _

theorem dropCapsPlan_no_halt (j : Minijail) (cl lc : Nat) : (dropCapsPlan j cl lc).all (!·.isHalt) = true := by
  have hr : ∀ lc, (readCapPlan cl lc).all (!·.isHalt) = true := fun lc => by
    unfold readCapPlan; split <;> rfl
  have h₁ : (capLoopPlan cl (raisePlan j) lc 64 0).all (!·.isHalt) = true :=
    all_capLoopPlan hr (fun i => by unfold raisePlan; split <;> rfl) lc 64 0
  have h₂ : (capLoopPlan cl (boundingPlan j) (cachedCap cl lc) 64 0).all (!·.isHalt) = true :=
    all_capLoopPlan hr (fun i => by unfold boundingPlan; split <;> rfl) _ 64 0
  simp only [dropCapsPlan, List.all_append, h₁, h₂]
  split <;> rfl

theorem returned_dropCaps {w : World} (hw : ∀ n, w.ok n = true) (j : Minijail) (s : Proc) :
    returned (dropCaps w j s) = true := by
  rw [congrFun (dropCaps_eq w j) s]
  exact returned_of_grants hw (dropCapsPlan_no_halt j _ _) s

def fullCaps : CapState := ⟨fun _ _ => true, fun _ _ => true, fun _ => true⟩

theorem drop_caps_sets_netBind :
    CAP_SETPCAP ≤ cachedCap capWorld.capLastCap ({} : Proc).lastCap ∧
    returned (dropCaps capWorld netBindCaps {}) = true ∧
    ∃ t, (finalProc (dropCaps capWorld netBindCaps {})).calls = ({} : Proc).calls ++ t ∧
      fullCaps.run t = some (capsDropped netBindCaps (cachedCap capWorld.capLastCap ({} : Proc).lastCap)
        fullCaps.bounding) :=
  ⟨by decide, returned_dropCaps (fun _ => rfl) _ _,
   drop_caps_sets capWorld netBindCaps {} fullCaps (by decide) (returned_dropCaps (fun _ => rfl) _ _)⟩

end Libminijail
