import Minijail.Defs.Enter

/-! What jail entry sets out to do: the calls it issues, in order, each with what a refusal does
to the process. Which calls these are depends on the policy and on what `/proc` holds, never on
the answers the calls get: `minijail_enter` runs its plan and stops at the first refusal that
stops it. -/

namespace Libminijail

/-- One step of a plan: a call, with how the process stops when the world refuses it (`none`
when it carries on), a stop that issues no call, or the store to `run_cap_valid`'s `last_cap`. -/
inductive Step where
  | call (c : Sys) (onRefusal : Option Stop)
  | halt (e : Stop)
  | setLastCap (n : Nat)

def runPlan (w : World) : List Step → Jail Unit
  | [] => pure ()
  | .call c none :: p => do
    let _ ← sys w c
    runPlan w p
  | .call c (some e) :: p => do
    if ← sys w c then runPlan w p else EStateM.throw e
  | .halt e :: _ => EStateM.throw e
  | .setLastCap n :: p => do
    modify fun s => { s with lastCap := n }
    runPlan w p

def lastCapAfter : List Step → Nat → Nat
  | [], lc => lc
  | .call _ _ :: p, lc => lastCapAfter p lc
  | .halt _ :: p, lc => lastCapAfter p lc
  | .setLastCap n :: p, _ => lastCapAfter p n

def planCalls : List Step → List Sys
  | [] => []
  | .call c _ :: p => c :: planCalls p
  | .halt _ :: p => planCalls p
  | .setLastCap _ :: p => planCalls p

@[simp] theorem lastCapAfter_nil (lc : Nat) : lastCapAfter [] lc = lc := rfl

@[simp] theorem lastCapAfter_append (p q : List Step) (lc : Nat) :
    lastCapAfter (p ++ q) lc = lastCapAfter q (lastCapAfter p lc) := by
  induction p generalizing lc with
  | nil => rfl
  | cons st p ih => rcases st with ⟨⟩ | ⟨⟩ | ⟨⟩ <;> exact ih _

@[simp] theorem planCalls_append (p q : List Step) : planCalls (p ++ q) = planCalls p ++ planCalls q := by
  induction p with
  | nil => rfl
  | cons st p ih => rcases st with ⟨⟩ | ⟨⟩ | ⟨⟩ <;> simp [planCalls, ih]

@[simp] theorem planCalls_ite (c : Prop) [Decidable c] (p q : List Step) :
    planCalls (if c then p else q) = if c then planCalls p else planCalls q := by
  split <;> rfl

def checked (c : Sys) : Step := .call c (some .died)

@[simp] theorem lastCapAfter_checked (c : Sys) (p : List Step) (lc : Nat) :
    lastCapAfter (checked c :: p) lc = lastCapAfter p lc := rfl

@[simp] theorem planCalls_checked (c : Sys) (p : List Step) : planCalls (checked c :: p) = c :: planCalls p := rfl

@[simp] theorem planCalls_call (c : Sys) (e : Option Stop) (p : List Step) :
    planCalls (.call c e :: p) = c :: planCalls p := rfl

@[simp] theorem planCalls_halt (e : Stop) (p : List Step) : planCalls (.halt e :: p) = planCalls p := rfl

@[simp] theorem planCalls_nil : planCalls [] = [] := rfl

def bindPlan (j : Minijail) : List Binding → List Step
  | [] => []
  | b :: bs =>
    [checked .asprintf, checked (.bindMount b.src.val.bytes (j.chrootdir.text ++ b.dest.val.bytes))] ++
    (if b.writeable = 0 then
      [checked (.bindRemountRo b.src.val.bytes (j.chrootdir.text ++ b.dest.val.bytes))]
     else []) ++
    bindPlan j bs

def chrootPlan (j : Minijail) (mem : Mem) : List Step :=
  (if j.bindingsHead ≠ 0 then
    match bindingList j mem with
    | none => [.halt .fault]
    | some L => bindPlan j (L.map (·.2))
   else []) ++
  [checked (.chroot j.chrootdir.text),
   checked (.chdir (if j.chdir.isNull then rootText else j.chdir.text))]

def remountPlan (j : Minijail) : List Step :=
  [checked .asprintf, .call .umountBinfmt none, checked .umountProc,
   checked (.mountProc ((if j.chrootdir.isNull then [] else j.chrootdir.text) ++ procText))]

def ugidPlan (j : Minijail) : List Step :=
  (if j.flags.usergroups then [checked (.initgroups j.user.text j.usergid)]
   else if j.uid ≠ 0 ∨ j.gid ≠ 0 then [checked .setgroups] else []) ++
  (if j.flags.gid then [checked (.setresgid j.gid)] else []) ++
  (if j.flags.uid then [checked (.setresuid j.uid)] else [])

def readCapPlan (cl lc : Nat) : List Step :=
  if lc = 0 then
    [.call .fopenCapLastCap (some .fault), checked .fscanfCapLastCap, .setLastCap cl,
     .call .fcloseCapLastCap none]
  else []

def cachedCap (cl lc : Nat) : Nat := if lc = 0 then cl else lc

def capLoopPlan (cl : Nat) (body : Nat → List Step) : Nat → Nat → Nat → List Step
  | _, 0, _ => []
  | lc, n + 1, i =>
    readCapPlan cl lc ++
      (if i ≤ cachedCap cl lc then body i ++ capLoopPlan cl body (cachedCap cl lc) n (i + 1)
       else [])

def raisePlan (j : Minijail) (i : Nat) : List Step :=
  if i ≠ CAP_SETPCAP ∧ j.caps.getLsbD i = false then []
  else [checked (.capSetFlag .effective i true), checked (.capSetFlag .permitted i true),
        checked (.capSetFlag .inheritable i true)]

def boundingPlan (j : Minijail) (i : Nat) : List Step :=
  if j.caps.getLsbD i then [] else [checked (.capbsetDrop i)]

def dropCapsPlan (j : Minijail) (cl lc : Nat) : List Step :=
  [checked .capGetProc, checked (.capClearFlag .inheritable), checked (.capClearFlag .effective),
   checked (.capClearFlag .permitted)] ++
  capLoopPlan cl (raisePlan j) lc 64 0 ++ [checked .capSetProc] ++
  capLoopPlan cl (boundingPlan j) (cachedCap cl lc) 64 0 ++
  (if j.caps.getLsbD CAP_SETPCAP = false then
    [checked (.capSetFlag .effective CAP_SETPCAP false),
     checked (.capSetFlag .permitted CAP_SETPCAP false),
     checked (.capSetFlag .inheritable CAP_SETPCAP false)]
   else []) ++
  [checked .capSetProc]

def seccompPlan (j : Minijail) : List Step :=
  (if j.flags.noNewPrivs then [checked .noNewPrivs] else []) ++
  (if j.flags.seccompFilter ∧ j.flags.logSeccompFilter then [checked .sigsysHandler] else []) ++
  (if j.flags.seccompFilter then [checked .seccompFilter] else [])

def enterPlan (j : Minijail) (mem : Mem) (cl lc : Nat) : List Step :=
  (if j.flags.pids then [.halt .died] else []) ++
  (if j.flags.usergroups ∧ j.user.isNull then [.halt .died] else []) ++
  (if j.flags.vfs then [checked .unshareNs] else []) ++
  (if j.flags.net then [checked .unshareNet] else []) ++
  (if j.flags.chroot then chrootPlan j mem else []) ++
  (if j.flags.chroot ∧ j.flags.mountTmp then [checked .mountTmp] else []) ++
  (if j.flags.readonly then remountPlan j else []) ++
  (if j.flags.caps then [checked .keepCaps, checked .secureBits] else []) ++
  (if j.flags.noNewPrivs then
    ugidPlan j ++ (if j.flags.caps then dropCapsPlan j cl lc else []) ++ seccompPlan j
   else seccompPlan j ++ ugidPlan j ++ (if j.flags.caps then dropCapsPlan j cl lc else [])) ++
  (if j.flags.seccomp then [checked .seccompStrict] else [])

@[simp] theorem lastCapAfter_ite (c : Prop) [Decidable c] (p q : List Step) (lc : Nat) :
    lastCapAfter (if c then p else q) lc = if c then lastCapAfter p lc else lastCapAfter q lc := by
  split <;> rfl

@[simp] theorem lastCapAfter_bindPlan (j : Minijail) (bs : List Binding) (lc : Nat) :
    lastCapAfter (bindPlan j bs) lc = lc := by
  induction bs with
  | nil => rfl
  | cons b bs ih => simp [bindPlan, ih]

@[simp] theorem lastCapAfter_chrootPlan (j : Minijail) (mem : Mem) (lc : Nat) :
    lastCapAfter (chrootPlan j mem) lc = lc := by
  unfold chrootPlan
  split
  · split <;> simp [lastCapAfter]
  · rfl

@[simp] theorem lastCapAfter_remountPlan (j : Minijail) (lc : Nat) : lastCapAfter (remountPlan j) lc = lc := rfl

@[simp] theorem lastCapAfter_ugidPlan (j : Minijail) (lc : Nat) : lastCapAfter (ugidPlan j) lc = lc := by
  simp [ugidPlan]

@[simp] theorem lastCapAfter_seccompPlan (j : Minijail) (lc : Nat) : lastCapAfter (seccompPlan j) lc = lc := by
  simp [seccompPlan]

section Refinement

variable (w : World)

@[simp] theorem sys_bind {α : Type} (c : Sys) (f : Bool → Jail α) (s : Proc) :
    (sys w c >>= f) s = f (w.ok s.calls.length) { s with calls := s.calls ++ [c] } := rfl

@[simp] theorem die_bind {α β : Type} (f : α → Jail β) : (die >>= f) = die := rfl
@[simp] theorem crash_bind {α β : Type} (f : α → Jail β) : (crash >>= f) = crash := rfl

theorem ite_bind {α β : Type} (c : Prop) [Decidable c] (x y : Jail α) (f : α → Jail β) :
    (if c then x else y) >>= f = if c then x >>= f else y >>= f := by
  split <;> rfl

theorem runPlan_append (p q : List Step) :
    runPlan w (p ++ q) = (runPlan w p >>= fun _ => runPlan w q) := by
  induction p with
  | nil => funext s; rfl
  | cons st p ih =>
    funext s
    rcases st with ⟨c, _ | e⟩ | e | n
    · show (sys w c >>= fun _ => runPlan w (p ++ q)) s = _
      rw [ih]; rfl
    · show (sys w c >>= fun b => if b then runPlan w (p ++ q) else EStateM.throw e) s =
        ((sys w c >>= fun b => if b then runPlan w p else EStateM.throw e) >>= fun _ =>
          runPlan w q) s
      rw [ih, bind_assoc, sys_bind, sys_bind]
      cases w.ok s.calls.length <;> rfl
    · rfl
    · show (modify _ >>= fun _ => runPlan w (p ++ q)) s = _
      rw [ih]; rfl

theorem runPlan_bind_runPlan (p q : List Step) :
    (runPlan w p >>= fun _ => runPlan w q) = runPlan w (p ++ q) :=
  (runPlan_append w p q).symm

theorem runPlan_bind_runPlan_bind {α : Type} (p q : List Step) (k : Unit → Jail α) :
    (runPlan w p >>= fun _ => runPlan w q >>= k) = runPlan w (p ++ q) >>= k := by
  rw [runPlan_append, bind_assoc]

theorem runPlan_ite (b : Prop) [Decidable b] (p q : List Step) :
    runPlan w (if b then p else q) = if b then runPlan w p else runPlan w q := by
  split <;> rfl

theorem runPlan_nil : runPlan w [] = pure () := rfl

theorem check_eq (c : Sys) : check w c = runPlan w [checked c] := by
  funext s; simp only [check, runPlan, checked, sys]; rfl

theorem runPlan_checked (c : Sys) (p : List Step) :
    runPlan w (checked c :: p) = sys w c >>= fun b => if b = true then runPlan w p else die := rfl

theorem dropUgid_eq (j : Minijail) : dropUgid w j = runPlan w (ugidPlan j) := by
  simp -zeta only [dropUgid, ← ite_bind]
  simp only [ugidPlan, runPlan_append, runPlan_ite, check_eq, runPlan_nil, bind_assoc]

theorem setSeccompFilter_eq (j : Minijail) : setSeccompFilter w j = runPlan w (seccompPlan j) := by
  simp -zeta only [setSeccompFilter, ← ite_bind]
  simp only [seccompPlan, runPlan_append, runPlan_ite, check_eq, runPlan_nil, bind_assoc]

theorem remountReadonly_orDie (j : Minijail) :
    (remountReadonly w j >>= fun b => if b = true then pure () else die) = runPlan w (remountPlan j) := by
  simp only [remountReadonly, remountPlan, runPlan, checked, bind_assoc, ite_bind, pure_bind,
    Bool.false_eq_true, if_false, die]

theorem bindOne_then (j : Minijail) (k : Jail Unit) (bs : List Binding) :
    (bindOne w j bs >>= fun b => if b = true then k else die) =
      runPlan w (bindPlan j bs) >>= fun _ => k := by
  induction bs with
  | nil => simp [bindOne, bindPlan, runPlan_nil]
  | cons b bs ih =>
    simp only [bindOne, bindPlan, runPlan_append, runPlan_ite, check_eq, runPlan_checked,
      runPlan_nil, bind_assoc, ite_bind, pure_bind, die_bind, ih, Bool.false_eq_true, if_false]

theorem enterChroot_orDie (j : Minijail) (mem : Mem) :
    (enterChroot w j mem >>= fun b => if b = true then pure () else die) = runPlan w (chrootPlan j mem) := by
  simp only [enterChroot, chrootPlan]
  by_cases h : j.bindingsHead = 0
  · simp only [h, ne_eq, not_true_eq_false, if_false, runPlan_append, runPlan_checked, runPlan_nil,
      bind_assoc, ite_bind, pure_bind, die_bind, Bool.false_eq_true]
  · cases bindingList j mem with
    | none => simp only [h, ne_eq, not_false_eq_true, if_true, runPlan_append, runPlan, bind_assoc, crash_bind]; rfl
    | some L =>
      simp only [h, ne_eq, not_false_eq_true, if_true, runPlan_append, runPlan_checked, runPlan_nil,
        bind_assoc, ite_bind, pure_bind, die_bind, Bool.false_eq_true, if_false, bindOne_then]

theorem raiseCap_eq (j : Minijail) : raiseCap w j = fun i => runPlan w (raisePlan j i) := by
  funext i
  simp only [raiseCap, raisePlan, runPlan_ite, runPlan_nil, check_eq, pure_bind, runPlan_bind_runPlan,
    List.cons_append, List.nil_append]

theorem dropBounding_eq (j : Minijail) : dropBounding w j = fun i => runPlan w (boundingPlan j i) := by
  funext i
  simp only [dropBounding, boundingPlan, runPlan_ite, runPlan_nil, check_eq, pure_bind]

/-- A program that starts by looking at `run_cap_valid`'s cache. The cache is read only while it
is empty, so what the rest of jail entry issues depends on the cache it starts from: the code
runs the plan for the cache it finds. -/
def atCap {α : Type} (f : Nat → Jail α) : Jail α := fun s => f s.lastCap s

theorem get_bind {α : Type} (f : Proc → Jail α) (s : Proc) : (EStateM.get >>= f) s = f s s := rfl

theorem modify_bind {α : Type} (g : Proc → Proc) (f : Unit → Jail α) (s : Proc) :
    (modify g >>= f) s = f () (g s) := rfl

theorem pure_run {α : Type} (a : α) (s : Proc) : (pure a : Jail α) s = .ok a s := rfl

theorem ite_run {α : Type} (c : Prop) [Decidable c] (x y : Jail α) (s : Proc) :
    (if c then x else y) s = if c then x s else y s := by
  split <;> rfl

theorem runPlan_lastCap {p : List Step} {s s' : Proc} {a : Unit} (h : runPlan w p s = .ok a s') :
    s'.lastCap = lastCapAfter p s.lastCap := by
  induction p generalizing s with
  | nil => cases h; rfl
  | cons st p ih =>
    rcases st with ⟨c, _ | e⟩ | e | n
    · simp only [runPlan, sys_bind] at h
      exact (ih h :)
    · simp only [runPlan, sys_bind] at h
      split at h
      · exact (ih h :)
      · cases h
    · cases h
    · exact (ih h :)

theorem runPlan_seq {x k : Jail Unit} {p q : List Step} {s : Proc} (hx : x s = runPlan w p s)
    (hk : ∀ s', s'.lastCap = lastCapAfter p s.lastCap → k s' = runPlan w q s') :
    (x >>= fun _ => k) s = runPlan w (p ++ q) s := by
  rw [runPlan_append]
  show EStateM.bind x _ s = EStateM.bind (runPlan w p) _ s
  simp only [EStateM.bind, hx]
  cases h : runPlan w p s with
  | ok a s' => exact hk s' (runPlan_lastCap w h)
  | error e s' => rfl

theorem runCapValid_seq {i : Nat} {k : Bool → Jail Unit} {q : List Step} {s : Proc}
    (hk : ∀ s', s'.lastCap = cachedCap w.capLastCap s.lastCap →
      k (decide (i ≤ cachedCap w.capLastCap s.lastCap)) s' = runPlan w q s') :
    (runCapValid w i >>= k) s = runPlan w (readCapPlan w.capLastCap s.lastCap ++ q) s := by
  by_cases h : s.lastCap = 0
  · simp only [runCapValid, readCapPlan, cachedCap, h, if_true, bind_assoc, get_bind, sys_bind,
      modify_bind, runPlan, checked, List.cons_append, List.nil_append, ite_bind, ite_run, die_bind,
      crash_bind, pure_bind] at hk ⊢
    split_ifs
    · apply hk; rfl
    all_goals rfl
  · simp only [runCapValid, readCapPlan, cachedCap, h, if_false, bind_assoc, get_bind, pure_bind,
      List.nil_append] at hk ⊢
    exact hk s rfl

theorem lastCapAfter_readCapPlan (cl lc : Nat) : lastCapAfter (readCapPlan cl lc) lc = cachedCap cl lc := by
  unfold readCapPlan cachedCap; split <;> rfl

theorem cachedCap_cachedCap (cl lc : Nat) : cachedCap cl (cachedCap cl lc) = cachedCap cl lc := by
  unfold cachedCap; split_ifs <;> simp_all

theorem lastCapAfter_capLoopPlan {body : Nat → List Step} (hb : ∀ i lc, lastCapAfter (body i) lc = lc)
    (cl lc n i : Nat) : lastCapAfter (capLoopPlan cl body lc (n + 1) i) lc = cachedCap cl lc := by
  induction n generalizing lc i with
  | zero =>
    simp only [capLoopPlan, lastCapAfter_append, lastCapAfter_readCapPlan]
    split <;> simp only [lastCapAfter_append, hb, lastCapAfter_nil]
  | succ n ih =>
    rw [capLoopPlan, lastCapAfter_append, lastCapAfter_readCapPlan]
    split
    · rw [lastCapAfter_append, hb, ih, cachedCap_cachedCap]
    · rfl

theorem capLoop_apply {body : Nat → List Step} (hb : ∀ i lc, lastCapAfter (body i) lc = lc)
    (n i : Nat) (s : Proc) :
    capLoop w (fun i => runPlan w (body i)) n i s =
      runPlan w (capLoopPlan w.capLastCap body s.lastCap n i) s := by
  induction n generalizing i s with
  | zero => rfl
  | succ n ih =>
    simp only [capLoop, capLoopPlan]
    apply runCapValid_seq
    intro s' hs'
    simp only [decide_eq_true_eq]
    split
    · apply runPlan_seq w rfl
      intro s'' hs''
      rw [ih, hs'', hb, hs']
    · rfl

theorem capLoop_eq {body : Nat → List Step} (hb : ∀ i lc, lastCapAfter (body i) lc = lc) (n i : Nat) :
    capLoop w (fun i => runPlan w (body i)) n i =
      atCap fun lc => runPlan w (capLoopPlan w.capLastCap body lc n i) :=
  funext (capLoop_apply w hb n i)

theorem runPlan_bind_atCap {α : Type} (p : List Step) (f : Nat → Jail α) :
    (runPlan w p >>= fun _ => atCap f) = atCap fun lc => runPlan w p >>= fun _ => f (lastCapAfter p lc) := by
  funext s
  show EStateM.bind _ _ s = EStateM.bind _ _ s
  simp only [EStateM.bind]
  cases h : runPlan w p s with
  | ok a s' => simp only [atCap, runPlan_lastCap w h]
  | error e s' => rfl

theorem atCap_bind {α β : Type} (f : Nat → Jail α) (k : α → Jail β) :
    atCap f >>= k = atCap fun lc => f lc >>= k := rfl

theorem atCap_atCap {α : Type} (f : Nat → Nat → Jail α) :
    (atCap fun lc => atCap (f lc)) = atCap fun lc => f lc lc := rfl

theorem ite_atCap {α : Type} (c : Prop) [Decidable c] (f g : Nat → Jail α) :
    (if c then atCap f else atCap g) = atCap fun lc => if c then f lc else g lc := by
  split <;> rfl

theorem ite_atCap_pure (c : Prop) [Decidable c] (f : Nat → Jail Unit) :
    (if c then atCap f else pure ()) = atCap fun lc => if c then f lc else pure () := by
  split <;> rfl

theorem ite_runPlan_pure (c : Prop) [Decidable c] (p : List Step) :
    (if c then runPlan w p else pure ()) = runPlan w (if c then p else []) := by
  split <;> rfl

theorem ite_die_bind_atCap (c : Prop) [Decidable c] (p : Nat → List Step) :
    ((if c then die else pure ()) >>= fun _ => atCap fun lc => runPlan w (p lc)) =
      atCap fun lc => runPlan w ((if c then [.halt .died] else []) ++ p lc) := by
  split <;> rfl

theorem lastCapAfter_raisePlan (j : Minijail) (i lc : Nat) : lastCapAfter (raisePlan j i) lc = lc := by
  unfold raisePlan; split <;> rfl

theorem lastCapAfter_boundingPlan (j : Minijail) (i lc : Nat) : lastCapAfter (boundingPlan j i) lc = lc := by
  unfold boundingPlan; split <;> rfl

theorem dropCaps_eq (j : Minijail) : dropCaps w j = atCap fun lc => runPlan w (dropCapsPlan j w.capLastCap lc) := by
  simp -zeta only [dropCaps, ← ite_bind]
  simp only [check_eq, raiseCap_eq, dropBounding_eq, capLoop_eq w (lastCapAfter_raisePlan j),
    capLoop_eq w (lastCapAfter_boundingPlan j), runPlan_bind_runPlan, runPlan_bind_runPlan_bind,
    runPlan_nil, atCap_bind, runPlan_bind_atCap, pure_bind, lastCapAfter_checked, lastCapAfter_nil,
    ← runPlan_ite]
  rw [atCap_atCap]
  refine congrArg atCap (funext fun lc => ?_)
  simp only [dropCapsPlan, lastCapAfter_capLoopPlan (lastCapAfter_raisePlan j), List.append_assoc,
    List.cons_append, List.nil_append]
  split <;> rfl

theorem minijailEnter_eq (j : Minijail) (mem : Mem) :
    minijailEnter w j mem = atCap fun lc => runPlan w (enterPlan j mem w.capLastCap lc) := by
  simp -zeta only [minijailEnter, ← ite_bind, ← bind_assoc]
  simp only [check_eq, enterChroot_orDie, remountReadonly_orDie, dropUgid_eq, setSeccompFilter_eq,
    dropCaps_eq]
  simp only [ite_runPlan_pure, ite_atCap_pure, bind_assoc, runPlan_bind_runPlan, runPlan_bind_runPlan_bind,
    runPlan_bind_atCap, atCap_bind, atCap_atCap, ite_atCap, ← runPlan_ite, ite_die_bind_atCap,
    lastCapAfter_append, lastCapAfter_ite, lastCapAfter_chrootPlan, lastCapAfter_remountPlan,
    lastCapAfter_ugidPlan, lastCapAfter_seccompPlan, lastCapAfter_checked, lastCapAfter_nil, ite_self]
  refine congrArg atCap (funext fun lc => ?_)
  simp only [enterPlan, List.append_assoc, List.cons_append, List.nil_append]

end Refinement

end Libminijail
