import Minijail.Defs.Init
import Mathlib.Data.List.GetD

/-! The descriptor tables of the launch paths. Nothing is opened close-on-exec, so the target
holds at `execve` every descriptor of the process that runs it; the child of
`minijail_run_pid_pipes` only closes the parent's stdio ends and `dup2`s its own. -/

namespace Libminijail

inductive Obj where
  | caller (n : Nat)
  | metaFile
  | policyPipe (readEnd : Bool)
  | stdinPipe (readEnd : Bool)
  | stdoutPipe (readEnd : Bool)
  | stderrPipe (readEnd : Bool)
  deriving DecidableEq

structure Fds where
  get : Nat → Option Obj
  size : Nat
  free_of_le : ∀ n, size ≤ n → get n = none

namespace Fds

def ofList (l : List (Option Obj)) : Fds :=
  ⟨fun n => l.getD n none, l.length, fun _ h => List.getD_eq_default _ _ h⟩

def set (t : Fds) (n : Nat) (o : Option Obj) : Fds where
  get := Function.update t.get n o
  size := max t.size (n + 1)
  free_of_le k hk := by
    rw [Function.update_noteq (by omega)]
    exact t.free_of_le k (by omega)

def lowestFree (t : Fds) : Nat :=
  ((List.range t.size).find? fun n => (t.get n).isNone).getD t.size

def alloc (t : Fds) (o : Obj) : Nat × Fds := (t.lowestFree, t.set t.lowestFree (some o))

def close (t : Fds) (n : Nat) : Fds := t.set n none

def dup2 (t : Fds) (a b : Nat) : Option Fds := (t.get a).map fun o => t.set b (some o)

def pipe (t : Fds) (mk : Bool → Obj) : (Nat × Nat) × Fds :=
  let r := t.alloc (mk true)
  let w := r.2.alloc (mk false)
  ((r.1, w.1), w.2)

def Extends (t t' : Fds) : Prop := ∀ n o, t.get n = some o → t'.get n = some o

theorem get_set (t : Fds) (n : Nat) (o : Option Obj) (k : Nat) :
    (t.set n o).get k = if k = n then o else t.get k :=
  Function.update_apply ..

theorem get_lowestFree (t : Fds) : t.get t.lowestFree = none := by
  unfold lowestFree
  cases h : (List.range t.size).find? (fun n => (t.get n).isNone) with
  | none => exact t.free_of_le _ le_rfl
  | some n => simpa using List.find?_some h

theorem Extends.trans {t t' t'' : Fds} (h : t.Extends t') (h' : t'.Extends t'') : t.Extends t'' :=
  fun n o hn => h' n o (h n o hn)

theorem get_alloc (t : Fds) (o : Obj) : (t.alloc o).2.get (t.alloc o).1 = some o := by
  simp [alloc, get_set]

theorem extends_alloc (t : Fds) (o : Obj) : t.Extends (t.alloc o).2 := fun n o' h => by
  rw [alloc, get_set, if_neg (by rintro rfl; simp [get_lowestFree] at h)]
  exact h

theorem extends_pipe (t : Fds) (mk : Bool → Obj) : t.Extends (t.pipe mk).2 :=
  (extends_alloc _ _).trans (extends_alloc _ _)

theorem get_pipe (t : Fds) (mk : Bool → Obj) :
    (t.pipe mk).2.get (t.pipe mk).1.1 = some (mk true) ∧
      (t.pipe mk).2.get (t.pipe mk).1.2 = some (mk false) :=
  ⟨extends_alloc _ _ _ _ (get_alloc _ _), get_alloc _ _⟩

end Fds

def pipeEnd (fds : Nat × Nat) (index : Nat) : Nat := if index = 0 then fds.1 else fds.2

def setupAndDupePipeEnd (t : Fds) (fds : Nat × Nat) (index fd : Nat) : Option Fds :=
  if index > 1 then none
  else (t.close (pipeEnd fds (1 - index))).dup2 (pipeEnd fds index) fd

def pipeIf (want : Bool) (mk : Bool → Obj) (t : Fds) : (Nat × Nat) × Fds :=
  if want then t.pipe mk else ((0, 0), t)

def dupeIf (want : Bool) (t : Fds) (fds : Nat × Nat) (index fd : Nat) : Option Fds :=
  if want then setupAndDupePipeEnd t fds index fd else some t

structure PipeFds where
  pipeFds : Nat × Nat
  stdinFds : Nat × Nat
  stdoutFds : Nat × Nat
  stderrFds : Nat × Nat

def runPidPipesPipes (t : Fds) (pstdin pstdout pstderr : Bool) : PipeFds × Fds :=
  let p := t.pipe .policyPipe
  let i := pipeIf pstdin .stdinPipe p.2
  let o := pipeIf pstdout .stdoutPipe i.2
  let e := pipeIf pstderr .stderrPipe o.2
  (⟨p.1, i.1, o.1, e.1⟩, e.2)

def runPidPipesChildFds (t : Fds) (p : PipeFds) (pstdin pstdout pstderr : Bool) : Option Fds :=
  (dupeIf pstdin t p.stdinFds 0 0).bind fun t =>
  (dupeIf pstdout t p.stdoutFds 1 1).bind fun t =>
  dupeIf pstderr t p.stderrFds 1 2

def runPidPipesExecFds (t : Fds) (pstdin pstdout pstderr : Bool) : Option Fds :=
  runPidPipesChildFds (runPidPipesPipes t pstdin pstdout pstderr).2
    (runPidPipesPipes t pstdin pstdout pstderr).1 pstdin pstdout pstderr

/-- The table of the process that `execve`s the target; `none` when `fclose` is handed a pointer
to no stream. -/
def runStaticExecFds (j : Minijail) (t : Fds) : Option Fds :=
  if j.flags.metaFile then
    match j.metaFile with
    | .live f => some (t.close f.val)
    | _ => none
  else some t

def PipeAt (t : Fds) (fds : Nat × Nat) (mk : Bool → Obj) : Prop :=
  t.get fds.1 = some (mk true) ∧ t.get fds.2 = some (mk false)

theorem PipeAt.mono {t t' : Fds} {fds : Nat × Nat} {mk : Bool → Obj} (h : PipeAt t fds mk)
    (ht : t.Extends t') : PipeAt t' fds mk :=
  ⟨ht _ _ h.1, ht _ _ h.2⟩

theorem extends_pipeIf (want : Bool) (mk : Bool → Obj) (t : Fds) : t.Extends (pipeIf want mk t).2 := by
  unfold pipeIf
  split
  · exact t.extends_pipe mk
  · exact fun _ _ => id

theorem pipeAt_pipeIf {want : Bool} (mk : Bool → Obj) (t : Fds) (h : want = true) :
    PipeAt (pipeIf want mk t).2 (pipeIf want mk t).1 mk := by
  subst h
  exact t.get_pipe mk

theorem runPidPipesPipes_spec (t : Fds) (pstdin pstdout pstderr : Bool) :
    t.Extends (runPidPipesPipes t pstdin pstdout pstderr).2 ∧
    PipeAt (runPidPipesPipes t pstdin pstdout pstderr).2
      (runPidPipesPipes t pstdin pstdout pstderr).1.pipeFds .policyPipe ∧
    (pstdin = true → PipeAt (runPidPipesPipes t pstdin pstdout pstderr).2
      (runPidPipesPipes t pstdin pstdout pstderr).1.stdinFds .stdinPipe) ∧
    (pstdout = true → PipeAt (runPidPipesPipes t pstdin pstdout pstderr).2
      (runPidPipesPipes t pstdin pstdout pstderr).1.stdoutFds .stdoutPipe) ∧
    (pstderr = true → PipeAt (runPidPipesPipes t pstdin pstdout pstderr).2
      (runPidPipesPipes t pstdin pstdout pstderr).1.stderrFds .stderrPipe) := by
  let p := t.pipe .policyPipe
  let i := pipeIf pstdin .stdinPipe p.2
  have e₄ := extends_pipeIf pstderr .stderrPipe (pipeIf pstdout .stdoutPipe i.2).2
  have e₃ := (extends_pipeIf pstdout .stdoutPipe i.2).trans e₄
  have e₂ := (extends_pipeIf pstdin .stdinPipe p.2).trans e₃
  exact ⟨(t.extends_pipe _).trans e₂, PipeAt.mono (t.get_pipe _) e₂, fun h => (pipeAt_pipeIf _ _ h).mono e₃,
    fun h => (pipeAt_pipeIf _ _ h).mono e₄, pipeAt_pipeIf _ _⟩

theorem dupeIf_frame {want : Bool} {t : Fds} {fds : Nat × Nat} (index : Nat) {fd : Nat} {a b : Obj}
    (hi : index ≤ 1) (hab : a ≠ b) (hfd : t.get fd = some (.caller fd))
    (h : want = true → t.get (pipeEnd fds index) = some a ∧ t.get (pipeEnd fds (1 - index)) = some b) :
    ∃ t', dupeIf want t fds index fd = some t' ∧
      ∀ n x, t.get n = some x → x ≠ b → x ≠ .caller fd → t'.get n = some x := by
  cases want with
  | false => exact ⟨t, rfl, fun _ _ hx _ _ => hx⟩
  | true =>
    obtain ⟨ha, hb⟩ := h rfl
    have hne : pipeEnd fds index ≠ pipeEnd fds (1 - index) := fun he =>
      hab (Option.some_injective _ ((he ▸ ha).symm.trans hb))
    refine ⟨(t.close (pipeEnd fds (1 - index))).set fd (some a), by simp [dupeIf, setupAndDupePipeEnd, show ¬index > 1 by omega, Fds.dup2, Fds.close,
      Fds.get_set, hne, ha], fun n x hx hxb hxc => ?_⟩
    rw [Fds.get_set, if_neg (by rintro rfl; exact hxc (Option.some_injective _ (hx.symm.trans hfd))),
      Fds.close, Fds.get_set, if_neg (by rintro rfl; exact hxb (Option.some_injective _ (hx.symm.trans hb)))]
    exact hx

def Obj.leftOpen : Obj → Bool
  | .caller _ | .stdinPipe false | .stdoutPipe true | .stderrPipe true => false
  | _ => true

theorem Obj.ne_of_leftOpen {x y : Obj} (hx : x.leftOpen = true) (hy : y.leftOpen = false) : x ≠ y := by
  rintro rfl
  simp_all

theorem runPidPipesChildFds_frame {t : Fds} {p : PipeFds} {pstdin pstdout pstderr : Bool}
    (hstd : ∀ k < 3, t.get k = some (.caller k)) (hi : pstdin = true → PipeAt t p.stdinFds .stdinPipe)
    (ho : pstdout = true → PipeAt t p.stdoutFds .stdoutPipe)
    (he : pstderr = true → PipeAt t p.stderrFds .stderrPipe) :
    ∃ t', runPidPipesChildFds t p pstdin pstdout pstderr = some t' ∧
      ∀ n x, t.get n = some x → x.leftOpen = true → t'.get n = some x := by
  obtain ⟨t₁, h₁, f₁⟩ := dupeIf_frame 0 (by decide) (by decide)
    (hstd 0 (by decide)) hi
  obtain ⟨t₂, h₂, f₂⟩ := dupeIf_frame 1 (by decide)
    (a := .stdoutPipe false) (b := .stdoutPipe true) (by decide) (f₁ _ _ (hstd 1 (by decide)) (by decide) (by decide))
    fun h => ⟨f₁ _ _ (ho h).2 (by decide) (by decide), f₁ _ _ (ho h).1 (by decide) (by decide)⟩
  obtain ⟨t₃, h₃, f₃⟩ := dupeIf_frame 1 (by decide)
    (a := .stderrPipe false) (b := .stderrPipe true) (by decide)
    (f₂ _ _ (f₁ _ _ (hstd 2 (by decide)) (by decide) (by decide)) (by decide) (by decide))
    fun h => ⟨f₂ _ _ (f₁ _ _ (he h).2 (by decide) (by decide)) (by decide) (by decide),
      f₂ _ _ (f₁ _ _ (he h).1 (by decide) (by decide)) (by decide) (by decide)⟩
  refine ⟨t₃, by simp [runPidPipesChildFds, h₁, h₂, h₃], fun n x hx hk => ?_⟩
  have ne {y : Obj} (hy : y.leftOpen = false) : x ≠ y := Obj.ne_of_leftOpen hk hy
  exact f₃ _ _ (f₂ _ _ (f₁ _ _ hx (ne rfl) (ne rfl)) (ne rfl) (ne rfl)) (ne rfl) (ne rfl)

def callerFds : Fds := .ofList [some (.caller 0), some (.caller 1), some (.caller 2), some .metaFile]

/-- The child of `minijail_run_pid_pipes` never closes the meta file, nor the write end of the
policy pipe: whatever stdio pipes are asked for, the target inherits both, writable. The child of
`minijail_run_static` `fclose`s the meta file, and the target holds only the caller's own
descriptors. -/
theorem target_inherits_meta_file :
    (∀ (t : Fds) (m : Nat) (pstdin pstdout pstderr : Bool), (∀ k < 3, t.get k = some (.caller k)) →
      t.get m = some .metaFile →
      ∃ t', runPidPipesExecFds t pstdin pstdout pstderr = some t' ∧ t'.get m = some .metaFile ∧
        ∃ n, t'.get n = some (.policyPipe false)) ∧
    (∀ (j : Minijail) (f : Ptr Nat) (t : Fds), j.flags.metaFile = true → j.metaFile = .live f →
      (∀ n, t.get n = some .metaFile → n = f.val) →
      runStaticExecFds j t = some (t.close f.val) ∧ ∀ n, (t.close f.val).get n ≠ some .metaFile) ∧
    metaPolicy.metaFile.val? = some 3 ∧
    (runPidPipesExecFds callerFds false false false).map (fun t => (List.range 6).map t.get) =
      some [some (.caller 0), some (.caller 1), some (.caller 2), some .metaFile,
        some (.policyPipe true), some (.policyPipe false)] := by
  refine ⟨fun t m pstdin pstdout pstderr hstd hm => ?_, fun j f t hj hf ht => ⟨?_, fun n hn => ?_⟩, rfl, rfl⟩
  · obtain ⟨hx, hp, hi, ho, he⟩ := runPidPipesPipes_spec t pstdin pstdout pstderr
    obtain ⟨t', h, hf⟩ := runPidPipesChildFds_frame (fun k hk => hx _ _ (hstd k hk)) hi ho he
    exact ⟨t', h, hf _ _ (hx _ _ hm) rfl, _, hf _ _ hp.2 rfl⟩
  · simp [runStaticExecFds, hj, hf]
  · rw [Fds.close, Fds.get_set] at hn
    split at hn
    · exact Option.noConfusion hn
    · exact ‹¬n = f.val› (ht n hn)

end Libminijail
