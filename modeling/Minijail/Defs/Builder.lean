import Minijail.Defs.Policy

/-! The policies a host can build: start from `minijail_new` and apply any sequence of builder
calls, each with any arguments and any outcome of the lookups, allocations and `fopen`s it
performs. A call that `die`s ends the process, so nothing is built past it. -/

namespace Libminijail

/-- One builder call, with the outcomes of what it asks of the system. -/
inductive Call where
  | changeUid (uid : BitVec 32)
  | changeGid (gid : BitVec 32)
  | changeUser (user : CStr) (m : Malloc) (pw : Option (BitVec 32 × BitVec 32))
  | changeGroup (m : Malloc) (gr : Option (BitVec 32))
  | useSeccomp
  | noNewPrivs
  | useSeccompFilter
  | logSeccompFilterFailures
  | useCaps (capmask : BitVec 64)
  | namespaceVfs
  | namespacePids
  | namespaceNet
  | remountReadonly
  | inheritUsergroups
  | disablePtrace
  | enterChroot (dir : CStr) (m : Malloc)
  | mountTmp
  | chrootChdir (dir : Option CStr) (m : Malloc)
  | bind (src dest : CStr) (writeable : BitVec 32) (m : Malloc)
  | parseSeccompFilters (prog : Option SockFprog) (m : Malloc)
  | stackLimit (v : BitVec 32)
  | timeLimit (v : BitVec 32)
  | outputLimit (v : BitVec 32)
  | memoryLimit (v : BitVec 32)
  | metaFile (opened : Option (Ptr Nat))

def Call.run : Call → Minijail → Mem → Option (Minijail × Mem × Int)
  | .changeUid uid, j, mem => (minijailChangeUid j uid).map (·, mem, 0)
  | .changeGid gid, j, mem => (minijailChangeGid j gid).map (·, mem, 0)
  | .changeUser user m pw, j, mem => minijailChangeUser j mem m user pw
  | .changeGroup m gr, j, mem => minijailChangeGroup j mem m gr
  | .useSeccomp, j, mem => some (minijailUseSeccomp j, mem, 0)
  | .noNewPrivs, j, mem => some (minijailNoNewPrivs j, mem, 0)
  | .useSeccompFilter, j, mem => some (minijailUseSeccompFilter j, mem, 0)
  | .logSeccompFilterFailures, j, mem => some (minijailLogSeccompFilterFailures j, mem, 0)
  | .useCaps capmask, j, mem => some (minijailUseCaps j capmask, mem, 0)
  | .namespaceVfs, j, mem => some (minijailNamespaceVfs j, mem, 0)
  | .namespacePids, j, mem => some (minijailNamespacePids j, mem, 0)
  | .namespaceNet, j, mem => some (minijailNamespaceNet j, mem, 0)
  | .remountReadonly, j, mem => some (minijailRemountReadonly j, mem, 0)
  | .inheritUsergroups, j, mem => some (minijailInheritUsergroups j, mem, 0)
  | .disablePtrace, j, mem => some (minijailDisablePtrace j, mem, 0)
  | .enterChroot dir m, j, mem => some (minijailEnterChroot j mem m dir)
  | .mountTmp, j, mem => some (minijailMountTmp j, mem, 0)
  | .chrootChdir dir m, j, mem => some (minijailChrootChdir j mem m dir)
  | .bind src dest w m, j, mem => some (minijailBind j mem m src dest w)
  | .parseSeccompFilters prog m, j, mem =>
    (minijailParseSeccompFilters j mem m prog).map fun (j, mem) => (j, mem, 0)
  | .stackLimit v, j, mem => some (minijailStackLimit j v, mem, 0)
  | .timeLimit v, j, mem => some (minijailTimeLimit j v, mem, 0)
  | .outputLimit v, j, mem => some (minijailOutputLimit j v, mem, 0)
  | .memoryLimit v, j, mem => some (minijailMemoryLimit j v, mem, 0)
  | .metaFile opened, j, mem => some ((minijailMetaFile j opened).1, mem, (minijailMetaFile j opened).2)

/-- `Built mem0 hist j mem`: starting from `minijail_new` on the heap `mem0`, the calls of `hist`
(each with the code it returned) leave the policy `j` on the heap `mem`. -/
inductive Built (mem0 : Mem) : List (Call × Int) → Minijail → Mem → Prop
  | new : Built mem0 [] minijailNew mem0
  | call {hist : List (Call × Int)} {j : Minijail} {mem : Mem} {c : Call} {j' : Minijail}
      {mem' : Mem} {r : Int} :
      Built mem0 hist j mem → c.run j mem = some (j', mem', r) →
      Built mem0 (hist ++ [(c, r)]) j' mem'

def BuilderReachable (j : Minijail) (mem : Mem) : Prop :=
  ∃ mem0 hist, Built mem0 hist j mem

def successfulBinds (hist : List (Call × Int)) : List (CStr × CStr × BitVec 32) :=
  hist.filterMap fun
    | (.bind src dest w _, 0) => some (src, dest, w)
    | _ => none

def Binding.content (b : Binding) : CStr × CStr × BitVec 32 := (b.src.val, b.dest.val, b.writeable)

end Libminijail
