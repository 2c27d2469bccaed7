import Minijail.Defs.BuilderLaws
import Mathlib.Data.Rat.Floor

/-! `setup_limits`, which the child of `minijail_run_static` calls just before `execve`, and the
timer `init` arms for a time limit. The limits are the policy's `int` fields, which
`minijail_*_limit` store as given. `setup_limits` computes the CPU limit and the `ualarm` time in
`int`, `init` its `alarm` time too, and each result is then converted to the unsigned type the call
takes; an `int` expression whose value leaves the range of `int` is undefined in C. -/

namespace Libminijail

inductive Resource where
  | as
  | fsize
  | core
  | stack
  | cpu
  deriving DecidableEq

structure Rlimit where
  cur : Nat
  max : Nat
  deriving DecidableEq

def RLIM_INFINITY : Nat := 2 ^ 64 - 1

inductive Timer where
  | ualarm (usecs : Nat)
  | alarm (seconds : Nat)
  deriving DecidableEq

structure LimitProc where
  limit : Resource → Rlimit
  privileged : Bool
  timers : List Timer := []

/-- How the limit code stops before it returns: `setup_limits` returns `-1` after a refused
`setrlimit`; or an `int` expression overflows. -/
inductive LimitStop where
  | refused
  | overflow
  deriving DecidableEq

abbrev LimitM := EStateM LimitStop LimitProc

def linuxDefaults : LimitProc where
  limit
    | .stack => ⟨8388608, RLIM_INFINITY⟩
    | .core => ⟨0, RLIM_INFINITY⟩
    | _ => ⟨RLIM_INFINITY, RLIM_INFINITY⟩
  privileged := false

def unsignedOf (w : Nat) (x : Int) : Nat := (x % 2 ^ w).toNat

/-- An `int` expression with the exact value `x`: overflow when `x` is not an `int`. -/
def cInt (x : Int) : LimitM Int := fun s =>
  if -2 ^ 31 ≤ x ∧ x < 2 ^ 31 then .ok x s else .error .overflow s

/-- `setrlimit(res, &lim)`: the kernel refuses a soft limit above the hard one (`EINVAL`), and a
raise of the hard limit by a process without `CAP_SYS_RESOURCE` (`EPERM`). -/
def setrlimit (res : Resource) (lim : Rlimit) : LimitM Unit := fun s =>
  if lim.cur ≤ lim.max ∧ (s.privileged ∨ lim.max ≤ (s.limit res).max) then
    .ok () { s with limit := Function.update s.limit res lim }
  else .error .refused s

def arm (t : Timer) : LimitM Unit := fun s => .ok () { s with timers := s.timers ++ [t] }

def rlimitOf (v : BitVec 32) : Rlimit := ⟨unsignedOf 64 v.toInt, unsignedOf 64 v.toInt⟩

def setupLimits (j : Minijail) : LimitM Unit := do
  if j.flags.memoryLimit then setrlimit .as (rlimitOf j.memoryLimit)
  if j.flags.outputLimit then
    setrlimit .fsize (rlimitOf j.outputLimit)
    setrlimit .core ⟨0, 0⟩
  if j.flags.stackLimit then setrlimit .stack (rlimitOf j.stackLimit)
  if j.flags.timeLimit then
    let cur := unsignedOf 64 ((← cInt (999 + j.timeLimit.toInt)).tdiv 1000)
    setrlimit .cpu ⟨cur, (cur + 1) % 2 ^ 64⟩
    arm (.ualarm (unsignedOf 32 (← cInt (j.timeLimit.toInt * 1000))))

def initAlarm (j : Minijail) : LimitM Unit := do
  if j.flags.timeLimit then
    arm (.alarm (unsignedOf 32 ((← cInt (j.timeLimit.toInt + 1999)).tdiv 1000)))

inductive LimitStep where
  | int (x : Int)
  | set (res : Resource) (lim : Rlimit)
  | arm (t : Timer)

def LimitStep.run : LimitStep → LimitM Unit
  | .int x => do let _ ← cInt x
  | .set res lim => setrlimit res lim
  | .arm t => Libminijail.arm t

def runLimits : List LimitStep → LimitM Unit
  | [] => pure ()
  | st :: p => do st.run; runLimits p

def LimitStep.apply (s : LimitProc) : LimitStep → LimitProc
  | .int _ => s
  | .set res lim => { s with limit := Function.update s.limit res lim }
  | .arm t => { s with timers := s.timers ++ [t] }

def LimitStep.inRange : LimitStep → Prop
  | .int x => -2 ^ 31 ≤ x ∧ x < 2 ^ 31
  | _ => True

def limitPlan (j : Minijail) : List LimitStep :=
  (if j.flags.memoryLimit then [.set .as (rlimitOf j.memoryLimit)] else []) ++
  (if j.flags.outputLimit then [.set .fsize (rlimitOf j.outputLimit), .set .core ⟨0, 0⟩] else []) ++
  (if j.flags.stackLimit then [.set .stack (rlimitOf j.stackLimit)] else []) ++
  (if j.flags.timeLimit then
    [.int (999 + j.timeLimit.toInt),
     .set .cpu ⟨unsignedOf 64 ((999 + j.timeLimit.toInt).tdiv 1000),
       (unsignedOf 64 ((999 + j.timeLimit.toInt).tdiv 1000) + 1) % 2 ^ 64⟩,
     .int (j.timeLimit.toInt * 1000), .arm (.ualarm (unsignedOf 32 (j.timeLimit.toInt * 1000)))]
   else [])

theorem cInt_bind {α : Type} (x : Int) (f : Int → LimitM α) :
    (cInt x >>= f) = (cInt x >>= fun _ => f x) := by
  funext s
  by_cases h : -2 ^ 31 ≤ x ∧ x < 2 ^ 31
  · simp only [cInt, bind, EStateM.bind, if_pos h]
  · simp only [cInt, bind, EStateM.bind, if_neg h]

theorem runLimits_append (p q : List LimitStep) :
    runLimits (p ++ q) = (runLimits p >>= fun _ => runLimits q) := by
  induction p with
  | nil => exact (pure_bind _ _).symm
  | cons st p ih => rw [List.cons_append, runLimits, runLimits, ih, bind_assoc]

theorem ite_limitBind {α β : Type} (c : Prop) [Decidable c] (x y : LimitM α) (f : α → LimitM β) :
    (if c then x else y) >>= f = if c then x >>= f else y >>= f := by
  split <;> rfl

theorem runLimits_ite (c : Prop) [Decidable c] (p q : List LimitStep) :
    runLimits (if c then p else q) = if c then runLimits p else runLimits q := by
  split <;> rfl

theorem setupLimits_eq (j : Minijail) : setupLimits j = runLimits (limitPlan j) := by
  simp -zeta only [setupLimits, ← ite_limitBind]
  cases ho : j.flags.outputLimit <;>
    simp only [limitPlan, ho, runLimits_append, runLimits_ite, runLimits, LimitStep.run, bind_assoc,
      cInt_bind, bind_pure, bind_pure_unit, pure_bind, if_true, if_false, Bool.false_eq_true, List.nil_append]

section Runs

variable {s : LimitProc}

theorem LimitStep.run_cases (st : LimitStep) (h : st.inRange) (s : LimitProc) :
    st.run s = .ok () (st.apply s) ∨ st.run s = .error .refused s := by
  cases st with
  | int x =>
    have h : -2 ^ 31 ≤ x ∧ x < 2 ^ 31 := h
    exact .inl (by simp only [LimitStep.run, cInt, bind, EStateM.bind, if_pos h]; rfl)
  | set res lim =>
    show setrlimit res lim s = _ ∨ setrlimit res lim s = _
    unfold setrlimit
    split
    · exact .inl rfl
    · exact .inr rfl
  | arm t => exact .inl rfl

theorem runLimits_of_inRange (p : List LimitStep) (hp : ∀ st ∈ p, st.inRange) (s : LimitProc) :
    runLimits p s = .ok () (p.foldl LimitStep.apply s) ∨ ∃ s', runLimits p s = .error .refused s' := by
  induction p generalizing s with
  | nil => exact .inl rfl
  | cons st p ih =>
    rw [show runLimits (st :: p) = (st.run >>= fun _ => runLimits p) from rfl]
    rcases st.run_cases (hp st (List.mem_cons_self _ _)) s with h | h <;>
      simp only [bind, EStateM.bind, h, List.foldl_cons]
    · exact ih (fun st' h' => hp st' (List.mem_cons_of_mem _ h')) _
    · exact .inr ⟨s, rfl⟩

end Runs

/-- The limits the spec asks `setup_limits` to install: `RLIMIT_AS`, `RLIMIT_FSIZE` and
`RLIMIT_STACK` of the requested bytes, with `RLIMIT_CORE` of `0` beside an output limit, and for a
time limit of `v` ms an `RLIMIT_CPU` of `⌈v / 1000⌉` seconds, the hard limit one second above;
`none` for a resource the policy does not limit. -/
def requestedLimit (j : Minijail) : Resource → Option Rlimit
  | .as => if j.flags.memoryLimit then some ⟨j.memoryLimit.toNat, j.memoryLimit.toNat⟩ else none
  | .fsize => if j.flags.outputLimit then some ⟨j.outputLimit.toNat, j.outputLimit.toNat⟩ else none
  | .core => if j.flags.outputLimit then some ⟨0, 0⟩ else none
  | .stack => if j.flags.stackLimit then some ⟨j.stackLimit.toNat, j.stackLimit.toNat⟩ else none
  | .cpu =>
    if j.flags.timeLimit then
      some ⟨⌈(j.timeLimit.toNat : ℚ) / 1000⌉₊, ⌈(j.timeLimit.toNat : ℚ) / 1000⌉₊ + 1⟩
    else none

/-- The timer the spec asks `setup_limits` to arm: a `ualarm` of `v * 1000` microseconds for a
time limit of `v` ms. -/
def requestedTimers (j : Minijail) : List Timer :=
  if j.flags.timeLimit then [.ualarm (j.timeLimit.toNat * 1000)] else []

/-- The alarm the spec asks `init` to arm: `⌈v / 1000⌉ + 1` seconds for a time limit of `v` ms. -/
def requestedAlarm (j : Minijail) : List Timer :=
  if j.flags.timeLimit then [.alarm (⌈(j.timeLimit.toNat : ℚ) / 1000⌉₊ + 1)] else []

def LimitsInRange (j : Minijail) : Prop :=
  (j.flags.memoryLimit → 0 ≤ j.memoryLimit.toInt) ∧ (j.flags.outputLimit → 0 ≤ j.outputLimit.toInt) ∧
    (j.flags.stackLimit → 0 ≤ j.stackLimit.toInt) ∧
    (j.flags.timeLimit → 0 ≤ j.timeLimit.toInt ∧ j.timeLimit.toInt ≤ 2147483)

def LimitStep.armed : LimitStep → Option Timer
  | .arm t => some t
  | _ => none

theorem timers_foldl (p : List LimitStep) (s : LimitProc) :
    (p.foldl LimitStep.apply s).timers = s.timers ++ p.filterMap LimitStep.armed := by
  induction p generalizing s with
  | nil => exact (List.append_nil _).symm
  | cons st p ih =>
    rw [List.foldl_cons, ih, List.filterMap_cons]
    cases st <;> simp only [LimitStep.apply, LimitStep.armed, List.append_assoc, List.singleton_append]

theorem foldl_limitPlan (j : Minijail) (s : LimitProc) :
    ((limitPlan j).foldl LimitStep.apply s).timers = s.timers ++
      (if j.flags.timeLimit then [.ualarm (unsignedOf 32 (j.timeLimit.toInt * 1000))] else []) := by
  rw [timers_foldl]
  simp only [limitPlan, List.filterMap_append, apply_ite (List.filterMap _), List.filterMap_cons,
    List.filterMap_nil, LimitStep.armed, ite_self, List.append_nil, List.nil_append]

theorem toInt_eq_toNat_of_nonneg {v : BitVec 32} (h : 0 ≤ v.toInt) : v.toInt = v.toNat := by
  rw [BitVec.toInt_eq_toNat_cond] at h ⊢
  split <;> omega

theorem toInt_range (v : BitVec 32) : -2 ^ 31 ≤ v.toInt ∧ v.toInt < 2 ^ 31 := by
  have := v.isLt
  rw [BitVec.toInt_eq_toNat_cond]
  split <;> omega

theorem unsignedOf_natCast {w n : Nat} (h : n < 2 ^ w) : unsignedOf w n = n := by
  rw [unsignedOf, Int.emod_eq_of_lt (Int.natCast_nonneg n) (by exact_mod_cast h), Int.toNat_natCast]

theorem ceil_div_thousand (n : Nat) : ⌈(n : ℚ) / 1000⌉₊ = (n + 999) / 1000 := by
  apply le_antisymm
  · rw [Nat.ceil_le, div_le_iff₀ (by norm_num)]
    exact_mod_cast (show n ≤ (n + 999) / 1000 * 1000 by omega)
  · by_contra hlt
    have hc := Nat.le_ceil ((n : ℚ) / 1000)
    rw [div_le_iff₀ (by norm_num)] at hc
    have : n ≤ ⌈(n : ℚ) / 1000⌉₊ * 1000 := by exact_mod_cast hc
    omega

theorem rlimitOf_of_nonneg {v : BitVec 32} (h : 0 ≤ v.toInt) : rlimitOf v = ⟨v.toNat, v.toNat⟩ := by
  rw [rlimitOf, toInt_eq_toNat_of_nonneg h, unsignedOf_natCast (by have := v.isLt; omega)]

theorem cpu_of_range {v : BitVec 32} (h₀ : 0 ≤ v.toInt) (h₁ : v.toInt ≤ 2147483) :
    unsignedOf 64 ((999 + v.toInt).tdiv 1000) = ⌈(v.toNat : ℚ) / 1000⌉₊ := by
  rw [toInt_eq_toNat_of_nonneg h₀] at h₁ ⊢
  rw [ceil_div_thousand, Int.tdiv_eq_ediv (by omega) (by norm_num),
    show (999 + (v.toNat : Int)) / 1000 = (((v.toNat + 999) / 1000 : Nat) : Int) by omega,
    unsignedOf_natCast (by omega)]

theorem ualarm_of_range {v : BitVec 32} (h₀ : 0 ≤ v.toInt) (h₁ : v.toInt ≤ 2147483) :
    unsignedOf 32 (v.toInt * 1000) = v.toNat * 1000 := by
  rw [toInt_eq_toNat_of_nonneg h₀] at h₁ ⊢
  rw [show (v.toNat : Int) * 1000 = ((v.toNat * 1000 : Nat) : Int) by omega, unsignedOf_natCast (by omega)]

def LimitStep.setOn (res : Resource) : LimitStep → Option Rlimit
  | .set r lim => if r = res then some lim else none
  | _ => none

theorem limit_apply (st : LimitStep) (s : LimitProc) (res : Resource) :
    (st.apply s).limit res = (st.setOn res).getD (s.limit res) := by
  cases st with
  | set r lim =>
    simp only [LimitStep.apply, LimitStep.setOn, Function.update_apply, eq_comm (a := res)]
    split <;> rfl
  | _ => rfl

theorem limit_foldl (p : List LimitStep) (s : LimitProc) (res : Resource) :
    (p.foldl LimitStep.apply s).limit res = ((p.filterMap (LimitStep.setOn res)).getLast?).getD (s.limit res) := by
  induction p generalizing s with
  | nil => rfl
  | cons st p ih =>
    rw [List.foldl_cons, ih, limit_apply, List.filterMap_cons]
    cases st.setOn res
    · rfl
    · simp only [Option.getD_some, List.cons_append, List.nil_append, List.getLast?_cons]

theorem limit_foldl_limitPlan {j : Minijail} (hj : LimitsInRange j) (s : LimitProc) (res : Resource) :
    ((limitPlan j).foldl LimitStep.apply s).limit res = (requestedLimit j res).getD (s.limit res) := by
  obtain ⟨hm, ho, hs, ht⟩ := hj
  rw [limit_foldl]
  cases res <;> simp only [limitPlan, List.filterMap_append, apply_ite (List.filterMap _),
    List.filterMap_cons, List.filterMap_nil, LimitStep.setOn, requestedLimit, reduceCtorEq, if_true, if_false,
    ite_self, List.append_nil, List.nil_append] <;> split_ifs with h <;> try rfl
  · simp [rlimitOf_of_nonneg (hm h)]
  · simp [rlimitOf_of_nonneg (ho h)]
  · simp [rlimitOf_of_nonneg (hs h)]
  · have hv := toInt_eq_toNat_of_nonneg (ht h).1
    simp only [List.getLast?_singleton, Option.getD_some, cpu_of_range (ht h).1 (ht h).2, ceil_div_thousand]
    rw [Nat.mod_eq_of_lt (by omega)]

theorem inRange_limitPlan {j : Minijail} (hj : LimitsInRange j) : ∀ st ∈ limitPlan j, st.inRange := by
  intro st hst
  simp only [limitPlan, List.mem_append] at hst
  rcases hst with ((h | h) | h) | h <;> split_ifs at h with hf <;>
    simp only [List.mem_cons, List.mem_singleton, List.not_mem_nil, or_false] at h
  · subst h; trivial
  · rcases h with rfl | rfl <;> trivial
  · subst h; trivial
  · have := hj.2.2.2 hf
    rcases h with rfl | rfl | rfl | rfl <;> first | trivial | constructor <;> omega

theorem setupLimits_of_inRange {j : Minijail} (hj : LimitsInRange j) (s : LimitProc) :
    (∃ s', setupLimits j s = .error .refused s') ∨
    ∃ s', setupLimits j s = .ok () s' ∧ (∀ res, s'.limit res = (requestedLimit j res).getD (s.limit res)) ∧
      s'.timers = s.timers ++ requestedTimers j := by
  rw [setupLimits_eq]
  rcases runLimits_of_inRange (limitPlan j) (inRange_limitPlan hj) s with h | h
  · refine .inr ⟨_, h, limit_foldl_limitPlan hj s, ?_⟩
    rw [foldl_limitPlan, requestedTimers]
    split_ifs with ht
    · rw [ualarm_of_range (hj.2.2.2 ht).1 (hj.2.2.2 ht).2]
    · rfl
  · exact .inl h

theorem alarm_of_range {v : BitVec 32} (h₀ : 0 ≤ v.toInt) (h₁ : v.toInt ≤ 2147483) :
    unsignedOf 32 ((v.toInt + 1999).tdiv 1000) = ⌈(v.toNat : ℚ) / 1000⌉₊ + 1 := by
  rw [toInt_eq_toNat_of_nonneg h₀] at h₁ ⊢
  rw [ceil_div_thousand, Int.tdiv_eq_ediv (by omega) (by norm_num),
    show ((v.toNat : Int) + 1999) / 1000 = (((v.toNat + 999) / 1000 + 1 : Nat) : Int) by omega,
    unsignedOf_natCast (by omega)]

theorem initAlarm_of_inRange {j : Minijail} (hj : LimitsInRange j) (s : LimitProc) :
    initAlarm j s = .ok () { s with timers := s.timers ++ requestedAlarm j } := by
  unfold initAlarm requestedAlarm
  split_ifs with ht
  · obtain ⟨h₀, h₁⟩ := hj.2.2.2 ht
    have hr : -2 ^ 31 ≤ j.timeLimit.toInt + 1999 ∧ j.timeLimit.toInt + 1999 < 2 ^ 31 := by omega
    simp only [bind, EStateM.bind, cInt, if_pos hr, arm, alarm_of_range h₀ h₁]
  · simp only [List.append_nil]
    rfl

theorem initAlarm_overflow (j : Minijail) {v : BitVec 32} (hv : 2 ^ 31 - 2000 < v.toInt) (s : LimitProc) :
    initAlarm (minijailTimeLimit j v) s = .error .overflow s := by
  have hr : ¬(-2 ^ 31 ≤ v.toInt + 1999 ∧ v.toInt + 1999 < 2 ^ 31) := by omega
  simp only [initAlarm, minijailTimeLimit, if_true, bind, EStateM.bind, cInt, if_neg hr]

theorem limitPlan_timeLimit (v : BitVec 32) :
    limitPlan (minijailTimeLimit minijailNew v) =
      [.int (999 + v.toInt), .set .cpu ⟨unsignedOf 64 ((999 + v.toInt).tdiv 1000),
        (unsignedOf 64 ((999 + v.toInt).tdiv 1000) + 1) % 2 ^ 64⟩,
       .int (v.toInt * 1000), .arm (.ualarm (unsignedOf 32 (v.toInt * 1000)))] := rfl

theorem setupLimits_overflow {v : BitVec 32} (hv : 2147483 < v.toInt) {s : LimitProc}
    (hs : (s.limit .cpu).max = RLIM_INFINITY) :
    ∃ s', setupLimits (minijailTimeLimit minijailNew v) s = .error .overflow s' := by
  have hlt := toInt_range v
  rw [setupLimits_eq, limitPlan_timeLimit]
  by_cases h : 999 + v.toInt < 2 ^ 31
  · have hc : (unsignedOf 64 ((999 + v.toInt).tdiv 1000) : Int) = (999 + v.toInt) / 1000 := by
      rw [unsignedOf, Int.tdiv_eq_ediv (by omega) (by norm_num), Int.toNat_of_nonneg (by omega)]
      omega
    generalize unsignedOf 64 ((999 + v.toInt).tdiv 1000) = c at hc ⊢
    have h₁ : -2 ^ 31 ≤ 999 + v.toInt ∧ 999 + v.toInt < 2 ^ 31 := ⟨by omega, h⟩
    have h₂ : ¬(-2 ^ 31 ≤ v.toInt * 1000 ∧ v.toInt * 1000 < 2 ^ 31) := by omega
    have hg : c ≤ (c + 1) % 2 ^ 64 ∧ (s.privileged = true ∨ (c + 1) % 2 ^ 64 ≤ (s.limit .cpu).max) := by
      rw [hs, RLIM_INFINITY]
      omega
    exact ⟨{ s with limit := Function.update s.limit .cpu ⟨c, (c + 1) % 2 ^ 64⟩ }, by
      simp only [runLimits, LimitStep.run, bind, EStateM.bind, cInt, if_pos h₁, pure, EStateM.pure, setrlimit,
        if_pos hg, if_neg h₂]⟩
  · have h₁ : ¬(-2 ^ 31 ≤ 999 + v.toInt ∧ 999 + v.toInt < 2 ^ 31) := by omega
    exact ⟨s, by simp only [runLimits, LimitStep.run, bind, EStateM.bind, cInt, if_neg h₁]⟩

theorem setupLimits_negative_memory {v : BitVec 32} (hv : v.toInt < 0) {s : LimitProc}
    (hs : (s.limit .as).max = RLIM_INFINITY) :
    setupLimits (minijailMemoryLimit minijailNew v) s =
      .ok () { s with limit := Function.update s.limit .as ⟨(2 ^ 64 + v.toInt).toNat, (2 ^ 64 + v.toInt).toNat⟩ } := by
  have hge := toInt_range v
  have hr : rlimitOf v = ⟨(2 ^ 64 + v.toInt).toNat, (2 ^ 64 + v.toInt).toNat⟩ := by
    rw [rlimitOf, unsignedOf, show v.toInt % 2 ^ 64 = 2 ^ 64 + v.toInt by omega]
  have hg : (2 ^ 64 + v.toInt).toNat ≤ (2 ^ 64 + v.toInt).toNat ∧
      (s.privileged = true ∨ (2 ^ 64 + v.toInt).toNat ≤ (s.limit .as).max) := by
    rw [hs, RLIM_INFINITY]
    omega
  rw [setupLimits_eq, show limitPlan (minijailMemoryLimit minijailNew v) = [.set .as (rlimitOf v)] from rfl, hr]
  simp only [runLimits, LimitStep.run, bind, EStateM.bind, setrlimit, if_pos hg]
  rfl

end Libminijail
