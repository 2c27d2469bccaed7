import Minijail.Defs.Minijail0
import Minijail.Defs.BuilderLaws
import Minijail.Defs.GetPathLaws

/-! What minijail0 guarantees whatever its command line. The policy it runs is one the builder
reaches from `minijail_new`, and it keeps the confinement `main` sets up first: no option changes
the uid, the gid or the capability mask, and no builder call clears a flag. Every call it makes on
a path from the command line runs with the caller's effective ids, and it takes root back only to
run the jail. -/

namespace Libminijail

def Call.keepsIds : Call → Bool
  | .changeUid _ | .changeGid _ | .changeUser .. | .changeGroup .. | .useCaps _ => false
  | _ => true

end Libminijail

namespace Minijail0

open Libminijail

theorem except_bind_eq_ok {ε α β : Type} {x : Except ε α} {f : α → Except ε β} {b : β}
    (h : x >>= f = .ok b) : ∃ a, x = .ok a ∧ f a = .ok b := by
  cases x with
  | error e => cases h
  | ok a => exact ⟨a, rfl, h⟩

theorem except_map_eq_ok {ε α β : Type} {x : Except ε α} {f : α → β} {b : β}
    (h : f <$> x = .ok b) : ∃ a, x = .ok a ∧ f a = b := by
  cases x with
  | error e => cases h
  | ok a => exact ⟨a, rfl, Except.ok.inj h⟩

structure Confined (uid gid : BitVec 32) (j : Minijail) : Prop where
  uid : j.flags.uid = true ∧ j.uid = uid
  gid : j.flags.gid = true ∧ j.gid = gid
  caps : j.flags.caps = true ∧ j.caps = 0
  pids : j.flags.pids = true
  vfs : j.flags.vfs = true
  readonly : j.flags.readonly = true
  noNewPrivs : j.flags.noNewPrivs = true
  net : j.flags.net = true

theorem Confined.run {uid gid : BitVec 32} {j j' : Minijail} {mem mem' : Mem} {r : Int}
    {c : Call} (hc : c.keepsIds = true) (h : Confined uid gid j)
    (hr : c.run j mem = some (j', mem', r)) : Confined uid gid j' := by
  cases c <;> simp only [Call.keepsIds, Bool.false_eq_true] at hc <;>
    simp only [Call.run, Option.map_eq_some', Option.some.injEq, Prod.mk.injEq] at hr
  case enterChroot =>
    obtain ⟨-, rfl | ⟨_, _, _, rfl⟩⟩ := minijailEnterChroot_cases hr <;> exact { h with }
  case chrootChdir =>
    obtain ⟨-, rfl | ⟨_, _, _, _, _, rfl⟩⟩ := minijailChrootChdir_cases hr <;> exact { h with }
  case bind =>
    rcases minijailBind_cases hr with ⟨-, rfl, -⟩ | ⟨-, -, _, _, -, -, -, -, -, -, rfl⟩
    · exact h
    · exact { h with vfs := rfl }
  case parseSeccompFilters =>
    obtain ⟨⟨j1, mem1⟩, hj1, rfl, -, -⟩ := hr
    obtain ⟨-, p, -, rfl⟩ := minijailParseSeccompFilters_cases hj1
    exact { h with }
  case metaFile opened =>
    obtain ⟨rfl, -, -⟩ := hr
    unfold minijailMetaFile; split <;> exact { h with }
  case namespaceVfs => obtain ⟨rfl, -, -⟩ := hr; exact { h with vfs := rfl }
  case namespacePids =>
    obtain ⟨rfl, -, -⟩ := hr; exact { h with pids := rfl, vfs := rfl, readonly := rfl }
  case remountReadonly => obtain ⟨rfl, -, -⟩ := hr; exact { h with vfs := rfl, readonly := rfl }
  case noNewPrivs => obtain ⟨rfl, -, -⟩ := hr; exact { h with noNewPrivs := rfl }
  case namespaceNet => obtain ⟨rfl, -, -⟩ := hr; exact { h with net := rfl }
  all_goals obtain ⟨rfl, -, -⟩ := hr; exact { h with }

namespace Front

variable {st st' : Front} {c : Call} {r : Int}

theorem call_ok (h : st.call c = .ok (st', r)) : ∃ j mem, c.run st.j st.mem = some (j, mem, r) ∧
    st' = { st with j, mem, hist := st.hist ++ [(c, r)] } := by
  unfold call at h
  split at h
  · cases h
  · rename_i j mem r' hr
    cases h
    exact ⟨j, mem, hr, rfl⟩

/-- What holds of minijail0 between `seteuid` to the user and `seteuid(0)`: the builder calls so
far built its policy from the heap `mem0`, the policy is confined to the user's ids, which are
the effective ones, and every call on a path ran with them. -/
structure Inv (mem0 : Mem) (uid gid : BitVec 32) (st : Front) : Prop where
  built : Built mem0 st.hist st.j st.mem
  confined : Confined uid gid st.j
  creds : st.creds = ⟨uid, gid⟩
  acts : ∀ p ∈ st.acts, p.2 = ⟨uid, gid⟩

section Inv

variable {mem0 : Mem} {uid gid : BitVec 32}

theorem Inv.call (h : st.Inv mem0 uid gid) (hr : st.call c = .ok (st', r))
    (hc : c.keepsIds = true) : st'.Inv mem0 uid gid := by
  obtain ⟨j, mem, hrun, rfl⟩ := call_ok hr
  exact ⟨h.built.call hrun, h.confined.run hc hrun, h.creds, h.acts⟩

theorem Inv.callFst (h : st.Inv mem0 uid gid) (hr : Prod.fst <$> st.call c = .ok st')
    (hc : c.keepsIds = true) : st'.Inv mem0 uid gid := by
  obtain ⟨⟨_, r⟩, hr', rfl⟩ := except_map_eq_ok hr
  exact h.call hr' hc

theorem Inv.callOrExit (h : st.Inv mem0 uid gid) (hr : st.callOrExit c = .ok st')
    (hc : c.keepsIds = true) : st'.Inv mem0 uid gid := by
  obtain ⟨⟨st1, r⟩, h1, h2⟩ := except_bind_eq_ok hr
  by_cases hr0 : r = 0
  · simp only [hr0, ne_eq, not_true_eq_false, if_false] at h2
    cases h2
    exact h.call h1 hc
  · simp [hr0] at h2

theorem Inv.act (h : st.Inv mem0 uid gid) (a : Act) : (st.act a).Inv mem0 uid gid where
  built := h.built
  confined := h.confined
  creds := h.creds
  acts p hp := by
    rcases List.mem_append.1 hp with hp | hp
    · exact h.acts p hp
    · simp only [List.mem_singleton] at hp; subst hp; exact h.creds

theorem Inv.withFds (h : st.Inv mem0 uid gid) (fds : Fds) : { st with fds }.Inv mem0 uid gid :=
  ⟨h.built, h.confined, h.creds, h.acts⟩

theorem Inv.redirect {n : Nat} {p : CStr} {o : Option Obj} (h : st.Inv mem0 uid gid)
    (hr : st.redirect n p o = .ok st') : st'.Inv mem0 uid gid := by
  cases o with
  | none => cases hr
  | some o =>
    simp only [Front.redirect, ne_eq, ite_not] at hr
    split at hr
    · cases hr; exact (h.act _).withFds _
    · cases hr

end Inv

end Front

theorem metaFileCall_eq (st : Front) (stream : Option { a : Addr // a ≠ 0 }) :
    ∃ fds opened, metaFileCall st stream = ({ st with fds }, .metaFile opened) := by
  cases stream <;> exact ⟨_, _, rfl⟩

theorem keepsIds_of_addBinding {arg : CStr} {m : Malloc} {c : Call} (h : addBinding arg m = some c) :
    c.keepsIds = true := by
  unfold addBinding at h
  split at h
  · cases h; rfl
  · cases h

section Inv

variable {mem0 : Mem} {uid gid : BitVec 32} {st st' : Front}

theorem Front.Inv.parseOpt {o : Opt} (h : st.Inv mem0 uid gid) (hr : parseOpt st o = .ok st') :
    st'.Inv mem0 uid gid := by
  unfold Minijail0.parseOpt at hr
  split at hr
  case h_2 =>
    obtain ⟨⟨st1, _⟩, h1, h2⟩ := except_bind_eq_ok hr
    exact ((h.act _).call h1 rfl).callFst h2 rfl
  case h_4 =>
    split at hr
    · cases hr
    · exact h.callOrExit hr (keepsIds_of_addBinding ‹_›)
  case h_12 =>
    obtain ⟨fds, c, hm⟩ := metaFileCall_eq (st.act (.openFile o.arg)) o.stream
    rw [hm] at hr
    exact ((h.act _).withFds fds).callOrExit hr rfl
  all_goals first
    | exact h.callFst hr rfl
    | exact h.callOrExit hr rfl
    | exact h.redirect hr
    | cases hr

theorem Front.Inv.foldParse {opts : List Opt} (h : st.Inv mem0 uid gid)
    (hr : opts.foldlM Minijail0.parseOpt st = .ok st') : st'.Inv mem0 uid gid := by
  induction opts generalizing st with
  | nil => cases hr; exact h
  | cons o os ih =>
    obtain ⟨st1, h1, h2⟩ := except_bind_eq_ok hr
    exact ih (h.parseOpt h1) h2

theorem Front.Inv.parseArgs {opts : List Opt} {program : Bool} (h : st.Inv mem0 uid gid)
    (hr : parseArgs st opts program = .ok st') : st'.Inv mem0 uid gid := by
  obtain ⟨st1, h1, h2⟩ := except_bind_eq_ok hr
  cases program
  · cases h2
  · cases h2; exact h.foldParse h1

end Inv

theorem Front.built_foldCalls {mem0 : Mem} {cs : List Call} {st st' : Front}
    (hb : Built mem0 st.hist st.j st.mem)
    (h : cs.foldlM (fun st c => Prod.fst <$> st.call c) st = .ok st') :
    Built mem0 st'.hist st'.j st'.mem ∧ st'.acts = st.acts := by
  induction cs generalizing st with
  | nil => cases h; exact ⟨hb, rfl⟩
  | cons c cs ih =>
    obtain ⟨st1, h1, h2⟩ := except_bind_eq_ok h
    obtain ⟨⟨_, r⟩, hc, rfl⟩ := except_map_eq_ok h1
    obtain ⟨j, mem, hrun, rfl⟩ := Front.call_ok hc
    have := ih (hb.call hrun) h2
    exact this

theorem setup_ok {uid gid : BitVec 32} {mem : Mem} {fds : Fds} {st : Front}
    (h : (setupCalls uid gid).foldlM (fun st c => Prod.fst <$> st.call c)
      (⟨minijailNew, mem, [], fds, ⟨0, 0⟩, []⟩ : Front) = .ok st) :
    uid ≠ 0 ∧ gid ≠ 0 ∧ Built mem st.hist st.j st.mem ∧ Confined uid gid st.j ∧ st.acts = [] := by
  have hb := Front.built_foldCalls .new h
  by_cases hu : uid = 0
  · subst hu; cases h
  by_cases hg : gid = 0
  · subst hg
    simp only [setupCalls, List.foldlM_cons, Front.call, Call.run, minijailChangeUid, if_neg hu] at h
    cases h
  refine ⟨hu, hg, hb.1, ?_, hb.2⟩
  simp only [setupCalls, List.foldlM_cons, Front.call, Call.run, minijailChangeUid,
    minijailChangeGid, if_neg hu, if_neg hg] at h
  cases h
  exact ⟨⟨rfl, rfl⟩, ⟨rfl, rfl⟩, ⟨rfl, rfl⟩, rfl, rfl, rfl, rfl, rfl⟩

theorem setIds_ok {st st' : Front} {uid gid : BitVec 32} {g ou og : Bool}
    (h : setIds st uid gid g ou og = .ok st') : st' = { st with creds := ⟨uid, gid⟩ } := by
  cases g <;> cases ou <;> cases og <;> cases h <;> rfl

theorem checkAndRun_ok {h : Host} {st : Front} {fp : List UInt8} {r : Runs}
    (hr : checkAndRun h st fp = .ok r) :
    ∃ as : List Act, r.st = { st with acts := st.acts ++ as.map (·, st.creds), creds := ⟨0, 0⟩ } := by
  unfold checkAndRun at hr
  cases he : h.executable <;>
    simp only [he, Bool.not_false, Bool.not_true, if_true, if_false, pure_bind] at hr
  · cases hr
  cases hel : h.elf <;> simp only [hel] at hr
  case static =>
    obtain ⟨st1, h1, h2⟩ := except_bind_eq_ok hr
    cases h2
    rw [setIds_ok h1]
    exact ⟨[.access fp, .elfLinkage fp], by simp [Front.act]⟩
  case dynamic =>
    cases hd : h.dlopenOk <;>
      simp only [hd, Bool.not_false, Bool.not_true, if_true, if_false, pure_bind] at hr
    · cases hr
    obtain ⟨st1, h1, h2⟩ := except_bind_eq_ok hr
    cases h2
    rw [setIds_ok h1]
    exact ⟨[.access fp, .elfLinkage fp, .dlopen], by simp [Front.act]⟩
  case error => cases hr

theorem main_eq_checkAndRun {h : Host} {opts : List Opt} {program : Bool} {argv0 : CStr}
    {fuel : Nat} {caller : CStr} {uid gid : BitVec 32} {st : Front} {buf fp : List UInt8}
    (hc : h.sudoUser = some caller) (hpw : h.getpwnam caller = some (uid, gid))
    (hst : ((setupCalls uid gid).foldlM (fun st c => Prod.fst <$> st.call c)
      (⟨minijailNew, h.mem, [], h.fds, ⟨0, 0⟩, []⟩ : Front) >>=
      fun st => setIds st uid gid true h.seteuidUser h.setegidUser >>=
      fun st => parseArgs st opts program) = .ok st)
    (hg : minijailGetPath h.fs (st.act (.getPath argv0)).j (st.act (.getPath argv0)).mem
      (PATH_MAX + 1) fuel h.filepath argv0 = some (.ret 0 buf))
    (hb : cstring buf = .ok fp) :
    main h opts program argv0 fuel = some (checkAndRun h (st.act (.getPath argv0)) fp) := by
  simp only [main, hc, hpw, hst, hg, hb, ne_eq, not_true_eq_false, if_false]

theorem main_ok {h : Host} {opts : List Opt} {program : Bool} {argv0 : CStr} {fuel : Nat}
    {r : Runs} (hr : main h opts program argv0 fuel = some (.ok r)) :
    ∃ caller uid gid, h.sudoUser = some caller ∧ h.getpwnam caller = some (uid, gid) ∧
      uid ≠ 0 ∧ gid ≠ 0 ∧ Built h.mem r.st.hist r.st.j r.st.mem ∧ Confined uid gid r.st.j ∧
      (∀ p ∈ r.st.acts, p.2 = ⟨uid, gid⟩) ∧ r.st.creds = ⟨0, 0⟩ := by
  unfold main at hr
  split at hr
  · cases hr
  rename_i caller hc
  split at hr
  · cases hr
  rename_i uid gid hpw
  dsimp only at hr
  split at hr
  · cases hr
  rename_i st hst
  obtain ⟨st1, h1, h2⟩ := except_bind_eq_ok hst
  obtain ⟨st2, h2, h3⟩ := except_bind_eq_ok h2
  obtain ⟨hu, hg, hb, hcf, hacts⟩ := setup_ok h1
  have hinv : st2.Inv h.mem uid gid := by
    rw [setIds_ok h2]
    exact ⟨hb, hcf, rfl, by simp [hacts]⟩
  have hinv := (hinv.parseArgs h3).act (.getPath argv0)
  split at hr
  · cases hr
  · cases hr
  split at hr
  · cases hr
  split at hr
  · cases hr
  obtain ⟨as, hst⟩ := checkAndRun_ok (Option.some.inj hr)
  refine ⟨caller, uid, gid, hc, hpw, hu, hg, ?_, ?_, fun p hp => ?_, by rw [hst]⟩
  · rw [hst]; exact hinv.built
  · rw [hst]; exact hinv.confined
  · rw [hst, List.mem_append, List.mem_map, hinv.creds] at hp
    rcases hp with hp | ⟨a, -, rfl⟩
    · exact hinv.acts p hp
    · rfl

def userHost : Host where
  sudoUser := some (cstr "u")
  getpwnam _ := some (1000, 1000)
  mem := emptyMem
  fds := callerFds
  setegidUser := true
  seteuidUser := true
  seteuidRoot := true
  setegidRoot := true
  fs := ⟨none, fun _ => .regular⟩
  filepath := List.replicate (PATH_MAX + 1) 0
  filepath_length := List.length_replicate _ _
  executable := true
  elf := .static
  dlopenOk := true

def seccompGroups : List Opt :=
  [⟨'s', cstr "", ⟨fun _ => none⟩, none, none, none⟩, ⟨'G', cstr "", ⟨fun _ => none⟩, none, none, none⟩]

theorem main_userHost : ∃ r, main userHost seccompGroups true (cstr "/p") 1 = some (.ok r) := by
  obtain ⟨st, hst, ht, hc⟩ : ∃ st, ((setupCalls 1000 1000).foldlM (fun st c => Prod.fst <$> st.call c)
      (⟨minijailNew, userHost.mem, [], userHost.fds, ⟨0, 0⟩, []⟩ : Front) >>=
      fun st => setIds st 1000 1000 true userHost.seteuidUser userHost.setegidUser >>=
      fun st => parseArgs st seccompGroups true) =
        .ok st ∧ st.j.bindingsTail = 0 ∧ st.j.flags.chroot = false := ⟨_, rfl, rfl, rfl⟩
  let st' := st.act (.getPath (cstr "/p"))
  have hl := @lstatTarget_unbound st'.j userHost.fs.cwd userHost.filepath (cstr "/p") [47] 0 ht
    (by simp only [sourceOf, st', Front.act, hc]; rfl) rfl rfl
    (by rw [userHost.filepath_length]; decide) (by rw [userHost.filepath_length]; decide) st'.mem
  rw [userHost.filepath_length] at hl
  have hg : minijailGetPath userHost.fs st'.j st'.mem (PATH_MAX + 1) 1 userHost.filepath (cstr "/p") =
      some (.ret 0 ((cstr "/p").bytes ++ 0 :: List.replicate (PATH_MAX - 2) 0)) := by
    simp only [minijailGetPath, getPathStep, hl, bind, Except.bind]
    rfl
  exact ⟨_, (main_eq_checkAndRun rfl rfl hst hg
    (cstring_eq (show (0 : UInt8) ∉ (cstr "/p").bytes by decide))).trans rfl⟩

/-- Whatever options `getopt` returns and whatever the system answers, the jail minijail0 runs is
one the builder reaches from `minijail_new` on the heap it started with, and it confines the
program to the uid and gid `getpwnam` finds for `SUDO_USER`, neither of them root's, with no
capabilities, new pid, mount and network namespaces, `/proc` read-only and `no_new_privs`. -/
theorem runs_confined {h : Host} {opts : List Opt} {program : Bool} {argv0 : CStr} {fuel : Nat}
    {r : Runs} (hr : main h opts program argv0 fuel = some (.ok r)) :
    ∃ caller uid gid, h.sudoUser = some caller ∧ h.getpwnam caller = some (uid, gid) ∧
      uid ≠ 0 ∧ gid ≠ 0 ∧ Built h.mem r.st.hist r.st.j r.st.mem ∧ Confined uid gid r.st.j := by
  obtain ⟨caller, uid, gid, hc, hpw, hu, hg, hb, hcf, -⟩ := main_ok hr
  exact ⟨caller, uid, gid, hc, hpw, hu, hg, hb, hcf⟩

theorem runs_confined_userHost : ∃ r, main userHost seccompGroups true (cstr "/p") 1 = some (.ok r) ∧
    ∃ caller uid gid, userHost.sudoUser = some caller ∧ userHost.getpwnam caller = some (uid, gid) ∧
      uid ≠ 0 ∧ gid ≠ 0 ∧ Built userHost.mem r.st.hist r.st.j r.st.mem ∧ Confined uid gid r.st.j :=
  let ⟨r, hr⟩ := main_userHost
  ⟨r, hr, runs_confined hr⟩

/-- Every call minijail0 makes on a path from its command line, the files of `-S`, `-M`, `-0`,
`-1` and `-2`, `minijail_get_path` on the program, `access`, `get_elf_linkage` and `dlopen`, runs
with the user's effective ids; root's come back only for the run. -/
theorem paths_opened_as_user {h : Host} {opts : List Opt} {program : Bool} {argv0 : CStr}
    {fuel : Nat} {r : Runs} (hr : main h opts program argv0 fuel = some (.ok r)) :
    ∃ caller uid gid, h.sudoUser = some caller ∧ h.getpwnam caller = some (uid, gid) ∧
      (∀ p ∈ r.st.acts, p.2 = ⟨uid, gid⟩) ∧ r.st.creds = ⟨0, 0⟩ := by
  obtain ⟨caller, uid, gid, hc, hpw, -, -, -, -, hacts, hcreds⟩ := main_ok hr
  exact ⟨caller, uid, gid, hc, hpw, hacts, hcreds⟩

theorem paths_opened_as_user_userHost :
    ∃ r, main userHost seccompGroups true (cstr "/p") 1 = some (.ok r) ∧
      ∃ caller uid gid, userHost.sudoUser = some caller ∧ userHost.getpwnam caller = some (uid, gid) ∧
        (∀ p ∈ r.st.acts, p.2 = ⟨uid, gid⟩) ∧ r.st.creds = ⟨0, 0⟩ :=
  let ⟨r, hr⟩ := main_userHost
  ⟨r, hr, paths_opened_as_user hr⟩

end Minijail0
