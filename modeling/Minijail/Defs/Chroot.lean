import Minijail.Defs.Launch

/-! The chroot on the launch paths. The child of `minijail_run_pid_pipes` strips the policy with
`minijail_preexec`, which clears `chroot` but keeps `uid`, `gid`, `readonly` and `chrootdir`, so
`minijail_enter` clears the supplementary groups and remounts `/proc` before the child enters the
chroot itself. The child of `minijail_run_static` enters the whole policy, chroot included, and
then calls `enter_chroot` a second time. -/

namespace Libminijail

theorem calls_of_returned (w : World) {p : List Step} {s : Proc} (h : returned (runPlan w p s) = true) :
    (finalProc (runPlan w p s)).calls = s.calls ++ planCalls p := by
  induction p generalizing s with
  | nil => exact (List.append_nil _).symm
  | cons st p ih =>
    rcases st with ⟨c, _ | e⟩ | e | n
    · simpa using ih (s := { s with calls := s.calls ++ [c] }) h
    · simp only [runPlan, sys_bind] at h ⊢
      cases hok : w.ok s.calls.length
      · simp [hok, ite_run, returned, EStateM.throw] at h
      · simp only [hok, if_true] at h ⊢
        simpa using ih h
    · cases h
    · exact ih (s := { s with lastCap := n }) h

theorem calls_of_returned_atCap (w : World) {x : Jail Unit} {p : Nat → List Step}
    (hx : x = atCap fun lc => runPlan w (p lc)) {s : Proc} (h : returned (x s) = true) :
    (finalProc (x s)).calls = s.calls ++ planCalls (p s.lastCap) := by
  subst hx
  exact calls_of_returned w h

def Sys.isChroot : Sys → Bool
  | .chroot _ => true
  | _ => false

def Sys.restricts : Sys → Bool
  | .initgroups .. | .setgroups | .setresgid _ | .setresuid _ | .capSetProc | .capbsetDrop _
  | .seccompFilter | .seccompStrict => true
  | _ => false

theorem rank_of_mem_chrootPlan {j : Minijail} {mem : Mem} {c : Sys} (h : c ∈ planCalls (chrootPlan j mem)) :
    c.rank false = 2 :=
  le_antisymm ((banded_chrootPlan j mem le_rfl).within c h).2 ((banded_chrootPlan j mem le_rfl).within c h).1

theorem restricts_of_mem_chrootPlan {j : Minijail} {mem : Mem} {c : Sys} (h : c ∈ planCalls (chrootPlan j mem)) :
    c.restricts = false := by
  have := rank_of_mem_chrootPlan h
  cases c <;> first | rfl | exact absurd this (ne_of_beq_false rfl)

theorem isChroot_of_mem_remountPlan {j : Minijail} {c : Sys} (h : c ∈ planCalls (remountPlan j)) :
    c.isChroot = false := by
  simp only [remountPlan, planCalls_checked, planCalls_call, planCalls_nil, List.mem_cons,
    List.not_mem_nil, or_false] at h
  rcases h with rfl | rfl | rfl | rfl <;> rfl

theorem chroot_mem_chrootPlan (j : Minijail) (mem : Mem) : Sys.chroot j.chrootdir.text ∈ planCalls (chrootPlan j mem) := by
  unfold chrootPlan
  simp

theorem chroot_mem_enterPlan {j : Minijail} (mem : Mem) (cl lc : Nat) (h : j.flags.chroot = true) :
    Sys.chroot j.chrootdir.text ∈ planCalls (enterPlan j mem cl lc) := by
  simp [enterPlan, h, chroot_mem_chrootPlan]

theorem planCalls_enterPlan_preexec (j : Minijail) (mem : Mem) (cl lc : Nat) :
    planCalls (enterPlan (minijailPreexec j mem).1 (minijailPreexec j mem).2 cl lc) =
      (if j.flags.vfs then [.unshareNs] else []) ++
      (if j.flags.readonly then planCalls (remountPlan (minijailPreexec j mem).1) else []) ++
      (if j.uid ≠ 0 ∨ j.gid ≠ 0 then [.setgroups] else []) := by
  simp [enterPlan, minijailPreexec, ugidPlan, seccompPlan]

def chrootUid : Minijail × Mem :=
  ((minijailChangeUid (minijailEnterChroot minijailNew emptyMem bumpMalloc rootStr).1 1000).getD minijailNew,
   (minijailEnterChroot minijailNew emptyMem bumpMalloc rootStr).2.1)

theorem built_chrootUid :
    Built emptyMem [(.enterChroot rootStr bumpMalloc, 0), (.changeUid 1000, 0)] chrootUid.1 chrootUid.2 :=
  ((@Built.new emptyMem).call (c := .enterChroot rootStr bumpMalloc) (r := 0) rfl).call
    (c := .changeUid 1000) (r := 0) rfl

/-- The child of `minijail_run_pid_pipes` enters the chroot once, but only after `minijail_enter`
has cleared the supplementary groups of a policy that names a uid or a gid. The child of
`minijail_run_static` enters it twice, the second time after every identity change, capability
drop and seccomp installation of `minijail_enter`. Both lineages, with or without a pid
namespace, issue these calls before the target's `execve`. -/
theorem launch_chroot_order :
    (∀ w j mem s, j.flags.chroot = true → returned (runPidPipesChild w j mem s) = true →
      ∃ t₁, (finalProc (runPidPipesChild w j mem s)).calls =
          s.calls ++ t₁ ++ planCalls (chrootPlan (minijailPreexec j mem).1 (minijailPreexec j mem).2) ∧
        (∀ c ∈ t₁, c.isChroot = false) ∧ (j.uid ≠ 0 ∨ j.gid ≠ 0 → Sys.setgroups ∈ t₁)) ∧
    (∀ w j mem s, j.flags.chroot = true → returned (runStaticChild w j mem s) = true →
      ∃ t₁, (finalProc (runStaticChild w j mem s)).calls =
          s.calls ++ t₁ ++ planCalls (chrootPlan { j with flags := { j.flags with pids := false } } mem) ∧
        Sys.chroot j.chrootdir.text ∈ t₁ ∧ (j.flags.uid = true → Sys.setresuid j.uid ∈ t₁) ∧
        ∀ c ∈ planCalls (chrootPlan { j with flags := { j.flags with pids := false } } mem),
          c.restricts = false) ∧
    Built emptyMem [(.enterChroot rootStr bumpMalloc, 0), (.changeUid 1000, 0)] chrootUid.1 chrootUid.2 ∧
    (finalProc (runPidPipesChild okWorld chrootUid.1 chrootUid.2 {})).calls =
      [.setgroups, .chroot [47], .chdir [47]] ∧
    (finalProc (runStaticChild okWorld chrootUid.1 chrootUid.2 {})).calls =
      [.chroot [47], .chdir [47], .setgroups, .setresuid 1000, .chroot [47], .chdir [47]] := by
  refine ⟨fun w j mem s hc hr => ?_, fun w j mem s hc hr => ?_, built_chrootUid, by decide, by decide⟩
  · rw [calls_of_returned_atCap w (runPidPipesChild_eq w j mem) hr, planCalls_append, planCalls_ite,
      if_pos hc, ← List.append_assoc]
    refine ⟨_, rfl, fun c hc' => ?_, fun hu => by
      simp only [planCalls_enterPlan_preexec, List.mem_append, if_pos hu]; simp⟩
    simp only [planCalls_enterPlan_preexec, List.mem_append] at hc'
    rcases hc' with (h | h) | h <;> split at h
    · simp_all [Sys.isChroot]
    · simp at h
    · exact isChroot_of_mem_remountPlan h
    · simp at h
    · simp_all [Sys.isChroot]
    · simp at h
  · rw [calls_of_returned_atCap w (runStaticChild_eq w j mem) hr, planCalls_append, planCalls_ite,
      if_pos hc, ← List.append_assoc]
    refine ⟨_, rfl, ?_, fun hu => ?_, fun c h => restricts_of_mem_chrootPlan h⟩
    · exact chroot_mem_enterPlan (j := { j with flags := { j.flags with pids := false } }) mem _ _ hc
    · simp only [enterPlan, planCalls_append, planCalls_ite, hc, hu, List.mem_append, ugidPlan]
      cases j.flags.noNewPrivs <;> simp

def dropSlash (d : List UInt8) : List UInt8 := if d.getLast? = some 47 then d.dropLast else d

def Sys.rootAfter (root : List UInt8) : Sys → List UInt8
  | .chroot d => root ++ dropSlash d
  | _ => root

def Sys.procTarget (root : List UInt8) : Sys → Option (List UInt8)
  | .umountProc => some (root ++ procText)
  | .mountProc p => some (root ++ p)
  | _ => none

/-- The root after the calls `t`, from `root`. A path is resolved against the root the process
has when it names it. Roots are host paths without their trailing `/`, `[]` being the root the
process started from, and `chroot(d)` with an absolute `d` moves the root to `d` under the current
one. -/
def rootAfter (root : List UInt8) (t : List Sys) : List UInt8 := t.foldl Sys.rootAfter root

def procTargets (root : List UInt8) : List Sys → List (List UInt8)
  | [] => []
  | c :: t => (c.procTarget root).toList ++ procTargets (c.rootAfter root) t

def Sys.touchesRoot : Sys → Bool
  | .chroot _ | .umountProc | .mountProc _ => true
  | _ => false

def procPath (j : Minijail) : List UInt8 := (if j.chrootdir.isNull then [] else j.chrootdir.text) ++ procText

def chrootRoot (j : Minijail) : List UInt8 := if j.flags.chroot then dropSlash j.chrootdir.text else []

section Resolve

variable {c : Sys} {r : List UInt8}

theorem Sys.rootAfter_of_touchesRoot (h : c.touchesRoot = false) : c.rootAfter r = r := by
  cases c <;> first | rfl | cases h

theorem Sys.procTarget_of_touchesRoot (h : c.touchesRoot = false) : c.procTarget r = none := by
  cases c <;> first | rfl | cases h

theorem rank_of_touchesRoot (nnp : Bool) (h : c.touchesRoot = true) : c.rank nnp = 2 := by
  cases c <;> first | rfl | cases h

theorem procTargets_filter (r : List UInt8) (t : List Sys) :
    procTargets r (t.filter Sys.touchesRoot) = procTargets r t ∧
      rootAfter r (t.filter Sys.touchesRoot) = rootAfter r t := by
  induction t generalizing r with
  | nil => exact ⟨rfl, rfl⟩
  | cons c t ih =>
    cases h : c.touchesRoot
    · rw [List.filter_cons, if_neg (by simp [h])]
      refine ⟨?_, ?_⟩
      · simp only [procTargets, Sys.procTarget_of_touchesRoot h, Sys.rootAfter_of_touchesRoot h,
          Option.toList_none, List.nil_append]
        exact (ih r).1
      · simp only [rootAfter, List.foldl_cons, Sys.rootAfter_of_touchesRoot h]
        exact (ih r).2
    · simp only [List.filter_cons, h, if_true, procTargets, rootAfter, List.foldl_cons]
      exact ⟨congrArg _ (ih _).1, (ih _).2⟩

theorem filter_touchesRoot_of_banded {nnp : Bool} {lo hi : Nat} {l : List Sys} (h : Banded nnp lo hi l)
    (hlo : 2 < lo) : l.filter Sys.touchesRoot = [] :=
  List.filter_eq_nil_iff.2 fun c hc ht => by
    have := (h.within c hc).1
    rw [rank_of_touchesRoot nnp (by simpa using ht)] at this
    omega

end Resolve

theorem filter_ite {α : Type} (p : α → Bool) (c : Prop) [Decidable c] (a b : List α) :
    (if c then a else b).filter p = if c then a.filter p else b.filter p := by
  split <;> rfl

theorem filter_touchesRoot_bindPlan (j : Minijail) (bs : List Binding) :
    (planCalls (bindPlan j bs)).filter Sys.touchesRoot = [] := by
  induction bs with
  | nil => rfl
  | cons b bs ih => simp [bindPlan, List.filter_append, ih, Sys.touchesRoot]

theorem filter_touchesRoot_chrootPlan (j : Minijail) (mem : Mem) :
    (planCalls (chrootPlan j mem)).filter Sys.touchesRoot = [.chroot j.chrootdir.text] := by
  unfold chrootPlan
  split
  · split <;> simp [List.filter_append, filter_touchesRoot_bindPlan, Sys.touchesRoot]
  · simp [Sys.touchesRoot]

theorem filter_touchesRoot_ugidPlan (j : Minijail) : (planCalls (ugidPlan j)).filter Sys.touchesRoot = [] :=
  filter_touchesRoot_of_banded (banded_ugidPlan j le_rfl : Banded false _ _ _) (by decide)

theorem filter_touchesRoot_dropCapsPlan (j : Minijail) (cl lc : Nat) :
    (planCalls (dropCapsPlan j cl lc)).filter Sys.touchesRoot = [] :=
  filter_touchesRoot_of_banded (banded_dropCapsPlan j cl lc le_rfl : Banded false _ _ _) (by decide)

theorem filter_touchesRoot_seccompPlan (j : Minijail) : (planCalls (seccompPlan j)).filter Sys.touchesRoot = [] :=
  filter_touchesRoot_of_banded (banded_seccompPlan j le_rfl : Banded false _ _ _) (by decide)

theorem filter_touchesRoot_remountPlan (j : Minijail) :
    (planCalls (remountPlan j)).filter Sys.touchesRoot = [.umountProc, .mountProc (procPath j)] := rfl

theorem filter_touchesRoot_enterPlan (j : Minijail) (mem : Mem) (cl lc : Nat) :
    (planCalls (enterPlan j mem cl lc)).filter Sys.touchesRoot =
      (if j.flags.chroot then [.chroot j.chrootdir.text] else []) ++
      (if j.flags.readonly then [.umountProc, .mountProc (procPath j)] else []) := by
  have k : ∀ c ∈ [Sys.unshareNs, .unshareNet, .mountTmp, .keepCaps, .secureBits, .seccompStrict],
      c.touchesRoot = false := by decide
  simp only [List.mem_cons, List.not_mem_nil, or_false, forall_eq_or_imp, forall_eq] at k
  simp only [enterPlan, planCalls_append, planCalls_ite, List.filter_append, filter_ite, planCalls_halt,
    planCalls_checked, planCalls_nil, List.filter_nil, List.filter_cons, k, filter_touchesRoot_chrootPlan,
    filter_touchesRoot_remountPlan, filter_touchesRoot_ugidPlan, filter_touchesRoot_dropCapsPlan,
    filter_touchesRoot_seccompPlan, Bool.false_eq_true, if_false, ite_self, List.append_nil, List.nil_append]

theorem procTargets_append (r : List UInt8) (a b : List Sys) :
    procTargets r (a ++ b) = procTargets r a ++ procTargets (rootAfter r a) b := by
  induction a generalizing r with
  | nil => rfl
  | cons c a ih => simp [procTargets, ih, rootAfter]

theorem rootAfter_append (r : List UInt8) (a b : List Sys) :
    rootAfter r (a ++ b) = rootAfter (rootAfter r a) b := List.foldl_append ..

theorem procTargets_of_filter {t l : List Sys} (h : t.filter Sys.touchesRoot = l) (r : List UInt8) :
    procTargets r t = procTargets r l ∧ rootAfter r t = rootAfter r l := by
  rw [← (procTargets_filter r t).1, ← (procTargets_filter r t).2, h]
  exact ⟨rfl, rfl⟩

theorem procTargets_chrootPlan (j : Minijail) (mem : Mem) (r : List UInt8) :
    procTargets r (planCalls (chrootPlan j mem)) = [] ∧
      rootAfter r (planCalls (chrootPlan j mem)) = r ++ dropSlash j.chrootdir.text :=
  procTargets_of_filter (filter_touchesRoot_chrootPlan j mem) r

theorem procTargets_enterPlan {j : Minijail} (mem : Mem) (cl lc : Nat) (hr : j.flags.readonly = true) :
    procTargets [] (planCalls (enterPlan j mem cl lc)) = [chrootRoot j ++ procText, chrootRoot j ++ procPath j] ∧
      rootAfter [] (planCalls (enterPlan j mem cl lc)) = chrootRoot j := by
  rw [(procTargets_of_filter (filter_touchesRoot_enterPlan j mem cl lc) []).1,
    (procTargets_of_filter (filter_touchesRoot_enterPlan j mem cl lc) []).2, hr, chrootRoot]
  cases j.flags.chroot <;> exact ⟨rfl, rfl⟩

def jailStr : CStr := ⟨[47, 106, 97, 105, 108], by decide⟩

def chrootRo : Minijail × Mem :=
  (minijailRemountReadonly (minijailEnterChroot minijailNew emptyMem bumpMalloc jailStr).1,
   (minijailEnterChroot minijailNew emptyMem bumpMalloc jailStr).2.1)

theorem built_chrootRo :
    Built emptyMem [(.enterChroot jailStr bumpMalloc, 0), (.remountReadonly, 0)] chrootRo.1 chrootRo.2 :=
  ((@Built.new emptyMem).call (c := .enterChroot jailStr bumpMalloc) (r := 0) rfl).call
    (c := .remountReadonly) (r := 0) rfl

/-- Where the `/proc` that `remount_readonly` unmounts and the proc it mounts land, each resolved
against the root of the moment, and the root the target runs in. Entered directly or by the child
of `minijail_run_static`, both calls come after the chroot, so the mount on `chrootdir/proc` lands
on `chrootdir/chrootdir/proc`; the child of `minijail_run_static` then enters the chroot a second
time, from inside the first. The child of `minijail_run_pid_pipes` remounts before its chroot, so
it unmounts the `/proc` of the starting root. -/
theorem proc_remount_targets :
    (∀ w j mem s, j.flags.readonly = true → returned (minijailEnter w j mem s) = true →
      ∃ t, (finalProc (minijailEnter w j mem s)).calls = s.calls ++ t ∧
        procTargets [] t = [chrootRoot j ++ procText, chrootRoot j ++ procPath j] ∧
        rootAfter [] t = chrootRoot j) ∧
    (∀ w j mem s, j.flags.readonly = true → returned (runPidPipesChild w j mem s) = true →
      ∃ t, (finalProc (runPidPipesChild w j mem s)).calls = s.calls ++ t ∧
        procTargets [] t = [procText, procPath j] ∧ rootAfter [] t = chrootRoot j) ∧
    (∀ w j mem s, j.flags.readonly = true → returned (runStaticChild w j mem s) = true →
      ∃ t, (finalProc (runStaticChild w j mem s)).calls = s.calls ++ t ∧
        procTargets [] t = [chrootRoot j ++ procText, chrootRoot j ++ procPath j] ∧
        rootAfter [] t = chrootRoot j ++ chrootRoot j) ∧
    Built emptyMem [(.enterChroot jailStr bumpMalloc, 0), (.remountReadonly, 0)] chrootRo.1 chrootRo.2 ∧
    chrootRoot chrootRo.1 = jailStr.bytes ∧ procPath chrootRo.1 = jailStr.bytes ++ procText ∧
    procTargets [] (finalProc (minijailEnter okWorld chrootRo.1 chrootRo.2 {})).calls =
      [jailStr.bytes ++ procText, jailStr.bytes ++ jailStr.bytes ++ procText] ∧
    procTargets [] (finalProc (runPidPipesChild okWorld chrootRo.1 chrootRo.2 {})).calls =
      [procText, jailStr.bytes ++ procText] ∧
    rootAfter [] (finalProc (runStaticChild okWorld chrootRo.1 chrootRo.2 {})).calls =
      jailStr.bytes ++ jailStr.bytes := by
  refine ⟨fun w j mem s hr hret => ?_, fun w j mem s hr hret => ?_, fun w j mem s hr hret => ?_,
    built_chrootRo, rfl, rfl, by decide, by decide, by decide⟩
  · exact ⟨_, calls_of_returned_atCap w (minijailEnter_eq w j mem) hret,
      procTargets_enterPlan mem _ _ hr⟩
  · refine ⟨_, calls_of_returned_atCap w (runPidPipesChild_eq w j mem) hret, ?_⟩
    obtain ⟨h₁, h₂⟩ := procTargets_enterPlan (j := (minijailPreexec j mem).1) (minijailPreexec j mem).2
      w.capLastCap s.lastCap hr
    have hc : chrootRoot (minijailPreexec j mem).1 = [] := rfl
    rw [planCalls_append, procTargets_append, rootAfter_append, h₁, h₂, hc, planCalls_ite]
    by_cases hch : j.flags.chroot = true
    · rw [if_pos hch, (procTargets_chrootPlan _ _ _).1, (procTargets_chrootPlan _ _ _).2]
      exact ⟨rfl, by simp [chrootRoot, hch, minijailPreexec]⟩
    · rw [if_neg hch]
      exact ⟨rfl, by simp [chrootRoot, hch, rootAfter]⟩
  · refine ⟨_, calls_of_returned_atCap w (runStaticChild_eq w j mem) hret, ?_⟩
    obtain ⟨h₁, h₂⟩ := procTargets_enterPlan (j := { j with flags := { j.flags with pids := false } }) mem
      w.capLastCap s.lastCap hr
    rw [planCalls_append, procTargets_append, rootAfter_append, h₁, h₂, planCalls_ite]
    by_cases hch : j.flags.chroot = true
    · rw [if_pos hch, (procTargets_chrootPlan _ _ _).1, (procTargets_chrootPlan _ _ _).2, List.append_nil]
      exact ⟨rfl, by simp [chrootRoot, hch]⟩
    · rw [if_neg hch]
      exact ⟨rfl, by simp [chrootRoot, hch, rootAfter]⟩

end Libminijail