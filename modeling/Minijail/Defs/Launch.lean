import Minijail.Defs.EnterLaws
import Minijail.Defs.BuilderLaws

/-! The launch paths: what the child of `minijail_run_pid_pipes` and the preload helper each
apply of a policy, and what the child of `minijail_run_static` applies. -/

namespace Libminijail

section Paths

variable (w : World)

theorem runPidPipesChild_eq (j : Minijail) (mem : Mem) :
    runPidPipesChild w j mem = atCap fun lc =>
      runPlan w (enterPlan (minijailPreexec j mem).1 (minijailPreexec j mem).2 w.capLastCap lc ++
        if j.flags.chroot then chrootPlan (minijailPreexec j mem).1 (minijailPreexec j mem).2 else []) := by
  simp only [runPidPipesChild, minijailEnter_eq, enterChroot_orDie, ite_runPlan_pure, atCap_bind,
    runPlan_bind_runPlan]

theorem runStaticChild_eq (j : Minijail) (mem : Mem) :
    runStaticChild w j mem = atCap fun lc =>
      runPlan w (enterPlan { j with flags := { j.flags with pids := false } } mem w.capLastCap lc ++
        if j.flags.chroot then chrootPlan { j with flags := { j.flags with pids := false } } mem else []) := by
  simp only [runStaticChild, minijailEnter_eq, enterChroot_orDie, ite_runPlan_pure, atCap_bind,
    runPlan_bind_runPlan]

theorem calls_of_atCap {x : Jail Unit} {p : Nat → List Step} (hx : x = atCap fun lc => runPlan w (p lc))
    (hp : ∀ lc, (p lc).all Step.labelled = true) (s : Proc) :
    ∃ t, (finalProc (x s)).calls = s.calls ++ t ∧ t <+: planCalls (p s.lastCap) := by
  obtain ⟨t, h₁, h₂, -⟩ := runPlan_trace w (p s.lastCap) (hp s.lastCap) s
  exact ⟨t, by rw [hx]; exact h₁, h₂⟩

end Paths

theorem chrootPlan_no_mountTmp (j : Minijail) (mem : Mem) :
    (planCalls (chrootPlan j mem)).all (· != .mountTmp) = true := by
  have := all_bindPlan (Q := Step.callIs (· != .mountTmp)) rfl (fun _ _ => rfl) (fun _ _ => rfl) j
  rw [all_planCalls]
  unfold chrootPlan
  split
  · split <;> simp [this]
  · rfl

theorem dropCapsPlan_no_mountTmp (j : Minijail) (cl lc : Nat) :
    (planCalls (dropCapsPlan j cl lc)).all (· != .mountTmp) = true :=
  List.all_eq_true.2 fun x hx => by
    have := (banded_dropCapsPlan j cl lc (by decide) : Banded false 10 _ _).within x hx
    refine bne_iff_ne.2 fun hx' => ?_
    subst hx'
    exact absurd this.1 (by decide)

theorem enterPlan_no_mountTmp {j : Minijail} (mem : Mem) (cl lc : Nat)
    (h : ¬(j.flags.chroot = true ∧ j.flags.mountTmp = true)) :
    (planCalls (enterPlan j mem cl lc)).all (· != .mountTmp) = true := by
  simp [enterPlan, h, chrootPlan_no_mountTmp, dropCapsPlan_no_mountTmp, remountPlan, ugidPlan, seccompPlan]

theorem not_mem_of_prefix_all {x : Sys} {t l : List Sys} (ht : t <+: l) (h : l.all (· != x) = true) : x ∉ t :=
  fun hx => by simpa using List.all_eq_true.1 h x (ht.subset hx)

theorem runPidPipes_no_mountTmp (w : World) (j : Minijail) (mem : Mem) (s : Proc) :
    (∃ t, (finalProc (runPidPipesChild w j mem s)).calls = s.calls ++ t ∧ Sys.mountTmp ∉ t) ∧
    ∃ t, (finalProc (preloadEnter w j mem s)).calls = s.calls ++ t ∧ Sys.mountTmp ∉ t := by
  constructor
  · obtain ⟨t, h₁, h₂⟩ := calls_of_atCap w (runPidPipesChild_eq w j mem)
      (fun lc => by simp [enterPlan_labelled, chrootPlan_labelled]) s
    have := enterPlan_no_mountTmp (j := (minijailPreexec j mem).1) (minijailPreexec j mem).2 w.capLastCap
      s.lastCap (by simp [minijailPreexec])
    exact ⟨t, h₁, not_mem_of_prefix_all h₂ (by simp only [planCalls_append, List.all_append, this,
      planCalls_ite, planCalls_nil, all_ite, chrootPlan_no_mountTmp, List.all_nil, ite_self, Bool.true_and])⟩
  · obtain ⟨t, h₁, h₂⟩ := calls_of_atCap w (minijailEnter_eq w (minijailPreenter j) mem)
      (fun lc => enterPlan_labelled _ _ _ _) s
    exact ⟨t, h₁, not_mem_of_prefix_all h₂ (enterPlan_no_mountTmp _ _ _ (by simp [minijailPreenter]))⟩

def chrootTmpHist : List (Call × Int) := [(.enterChroot rootStr bumpMalloc, 0), (.mountTmp, 0)]

def chrootTmp : Minijail × Mem :=
  ((minijailMountTmp (minijailEnterChroot minijailNew emptyMem bumpMalloc rootStr).1),
   (minijailEnterChroot minijailNew emptyMem bumpMalloc rootStr).2.1)

theorem built_chrootTmp : Built emptyMem chrootTmpHist chrootTmp.1 chrootTmp.2 :=
  ((@Built.new emptyMem).call (c := .enterChroot rootStr bumpMalloc) (r := 0) rfl).call (c := .mountTmp) (r := 0) rfl

def okWorld : World := ⟨fun _ => true, 0⟩

def uidPolicy : Minijail := (minijailChangeUid minijailNew 1000).getD minijailNew

theorem built_uidPolicy : Built emptyMem [(.changeUid 1000, 0)] uidPolicy emptyMem :=
  (@Built.new emptyMem).call (c := .changeUid 1000) (r := 0) rfl

/-- Launched by `minijail_run_pid_pipes`, the policy of `minijail_enter_chroot(j, "/")` and
`minijail_mount_tmp(j)` gets no tmpfs on `/tmp` from either stage, whatever the system answers,
though `minijail_enter` mounts it for the same policy; and the policy of
`minijail_change_uid(j, 1000)` has its supplementary groups cleared by both stages. -/
theorem run_pid_pipes_stages_diverge :
    Built emptyMem chrootTmpHist chrootTmp.1 chrootTmp.2 ∧
    (finalProc (minijailEnter okWorld chrootTmp.1 chrootTmp.2 {})).calls = [.chroot [47], .chdir [47], .mountTmp] ∧
    (∀ w s, ∃ t, (finalProc (runPidPipesChild w chrootTmp.1 chrootTmp.2 s)).calls = s.calls ++ t ∧
      Sys.mountTmp ∉ t) ∧
    (∀ w j' mem s, ∃ t, (finalProc (preloadEnter w j' mem s)).calls = s.calls ++ t ∧ Sys.mountTmp ∉ t) ∧
    Built emptyMem [(.changeUid 1000, 0)] uidPolicy emptyMem ∧
    (finalProc (runPidPipesChild okWorld uidPolicy emptyMem {})).calls = [.setgroups] ∧
    (finalProc (preloadEnter okWorld uidPolicy emptyMem {})).calls = [.setgroups, .setresuid 1000] :=
  ⟨built_chrootTmp, by decide, fun w s => (runPidPipes_no_mountTmp w _ _ s).1,
    fun w j' mem s => (runPidPipes_no_mountTmp w j' mem s).2, built_uidPolicy, by decide, by decide⟩

/-- Entered directly or by the child of `minijail_run_static`, the policy of
`minijail_enter_chroot(j, "/")` and `minijail_mount_tmp(j)` never unshares the mount namespace,
and mounts the tmpfs on `/tmp` once `chroot` and `chdir` succeed. -/
theorem mount_tmp_outside_vfs_namespace :
    Built emptyMem chrootTmpHist chrootTmp.1 chrootTmp.2 ∧
    ∀ w : World,
      Sys.unshareNs ∉ (finalProc (minijailEnter w chrootTmp.1 chrootTmp.2 {})).calls ∧
      Sys.unshareNs ∉ (finalProc (runStaticChild w chrootTmp.1 chrootTmp.2 {})).calls ∧
      (w.ok 0 = true → w.ok 1 = true →
        Sys.mountTmp ∈ (finalProc (minijailEnter w chrootTmp.1 chrootTmp.2 {})).calls ∧
        Sys.mountTmp ∈ (finalProc (runStaticChild w chrootTmp.1 chrootTmp.2 {})).calls) := by
  refine ⟨built_chrootTmp, fun w => ?_⟩
  have hd : minijailEnter w chrootTmp.1 chrootTmp.2 {} =
      runPlan w [checked (.chroot [47]), checked (.chdir [47]), checked .mountTmp] {} := by
    rw [minijailEnter_eq]; rfl
  have hs : runStaticChild w chrootTmp.1 chrootTmp.2 {} =
      runPlan w [checked (.chroot [47]), checked (.chdir [47]), checked .mountTmp,
        checked (.chroot [47]), checked (.chdir [47])] {} := by
    rw [runStaticChild_eq]; rfl
  rw [hd, hs]
  simp only [runPlan_checked, sys_bind, ite_run, runPlan_nil, pure_run, List.nil_append,
    List.length_singleton, List.length_cons, List.cons_append, List.singleton_append]
  split_ifs <;> simp_all [die, EStateM.throw]

end Libminijail
