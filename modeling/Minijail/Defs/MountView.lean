import Minijail.Defs.GetPathLaws

/-! What a jailed process sees at a path, from the mounts `enter_chroot` makes rather than from
`minijail_get_path`: a later mount hides whatever an earlier one put at or under its `dest`. -/

namespace Libminijail

def componentPrefix (dest p : List UInt8) : Bool :=
  decide (dest <+: p) && (p.length == dest.length || p.get? dest.length == some 47)

/-- The host path of the jail path `p` once the bindings are mounted: under the latest binding
whose `dest` holds `p`, its `src` and the rest of `p`; under none, `chrootdir` and `p`; and `p`
itself without a chroot. -/
def mountedPath (j : Minijail) (mem : Mem) (p : List UInt8) : Option (List UInt8) :=
  (bindingList j mem).map fun L =>
    if j.flags.chroot then
      match (L.map (·.2)).reverse.find? (fun b => componentPrefix b.dest.val.bytes p),
        j.chrootdir with
      | some b, _ => b.src.val.bytes ++ p.drop b.dest.val.bytes.length
      | none, .live r => r.val.bytes ++ p
      | none, _ => p
    else p

section Unbound

variable {j : Minijail} {mem : Mem} {cwd : Option CStr} {buf : List UInt8} {path : CStr}
  {r : Ptr CStr}

theorem getPath_agrees_unbound (hc : j.flags.chroot = true) (hr : j.chrootdir = .live r)
    (hne : r.val.bytes ≠ []) (hs : r.val.bytes.getLast? ≠ some 47)
    (hL : bindingList j mem = some []) (ht : j.bindingsTail = 0)
    (hp : path.bytes.head? = some 47) (hl : path.bytes.length + r.val.bytes.length + 1 < buf.length)
    (hn : buf.length < 2 ^ 64) :
    (lstatTarget cwd j mem buf.length buf path).map Prod.snd = .ok (r.val.bytes ++ path.bytes) ∧
      mountedPath j mem path.bytes = some (r.val.bytes ++ path.bytes) := by
  have hsrc : sourceOf j (none, 0) = .ok (r.val.bytes, 1) := by simp [sourceOf, hc, hr]; rfl
  have htr : trimmedLen r.val.bytes = .ok r.val.bytes.length := by simp [trimmedLen, hne, hs]; rfl
  obtain ⟨p, hp'⟩ := List.head?_eq_some_iff.mp hp
  refine ⟨?_, by simp [mountedPath, hL, hc, hr]⟩
  rw [lstatTarget_unbound ht hsrc htr hp hl hn mem, hp']
  simp [List.take_length, Except.map]

end Unbound

def jailCalls : List Call :=
  .enterChroot (cstr "/jail") bumpMalloc ::
    [("/a/", "/xy"), ("/b/", "/xy"), ("/s/", "/us"), ("/dd/", "/x/y"), ("/t/", "/x")].map
      fun (s, d) => .bind (cstr s) (cstr d) 0 bumpMalloc

def jailBinds : Minijail × Mem := replayFrom (minijailNew, emptyMem) jailCalls

def bareCalls : List Call := [.bind (cstr "/a/") (cstr "/xy") 0 bumpMalloc]

def bareBinds : Minijail × Mem := replayFrom (minijailNew, emptyMem) bareCalls

/-- `minijail_get_path` and the mounts agree where no binding is involved, and the loop keeps the
first binding with a longest string-prefix `dest`. Under a chroot at `/jail`, with every source
outside it, that gives another host path than the mounts for a `dest` bound twice (`/xy/f`), for
a `dest` that is a string prefix of a component only (`/usr/f` under `/us`), and for a shallow
`dest` bound after a deeper one (`/x/y/f`); without a chroot, the resolver substitutes a binding
that nothing mounts. -/
theorem getPath_disagrees_with_mounts :
    (∀ q (L : List Binding), BestOf q L (L.foldl (bestStep q) (none, 0))) ∧
    (∀ (j : Minijail) (mem : Mem) (cwd : Option CStr) (buf : List UInt8) (path : CStr) (r : Ptr CStr),
      j.flags.chroot = true → j.chrootdir = .live r → r.val.bytes ≠ [] →
      r.val.bytes.getLast? ≠ some 47 → bindingList j mem = some [] → j.bindingsTail = 0 →
      path.bytes.head? = some 47 → path.bytes.length + r.val.bytes.length + 1 < buf.length →
      buf.length < 2 ^ 64 →
      (lstatTarget cwd j mem buf.length buf path).map Prod.snd = .ok (r.val.bytes ++ path.bytes) ∧
        mountedPath j mem path.bytes = some (r.val.bytes ++ path.bytes)) ∧
    Built emptyMem (jailCalls.map (·, 0)) jailBinds.1 jailBinds.2 ∧
    (lstatTarget none jailBinds.1 jailBinds.2 64 (List.replicate 64 0) (cstr "/xy/f")).map
      Prod.snd = .ok (cstr "/a//f").bytes ∧
    mountedPath jailBinds.1 jailBinds.2 (cstr "/xy/f").bytes = some (cstr "/b//f").bytes ∧
    (lstatTarget none jailBinds.1 jailBinds.2 64 (List.replicate 64 0) (cstr "/usr/f")).map
      Prod.snd = .ok (cstr "/s/r/f").bytes ∧
    mountedPath jailBinds.1 jailBinds.2 (cstr "/usr/f").bytes = some (cstr "/jail/usr/f").bytes ∧
    (lstatTarget none jailBinds.1 jailBinds.2 64 (List.replicate 64 0) (cstr "/x/y/f")).map
      Prod.snd = .ok (cstr "/dd//f").bytes ∧
    mountedPath jailBinds.1 jailBinds.2 (cstr "/x/y/f").bytes = some (cstr "/t//y/f").bytes ∧
    Built emptyMem (bareCalls.map (·, 0)) bareBinds.1 bareBinds.2 ∧
    (lstatTarget none bareBinds.1 bareBinds.2 64 (List.replicate 64 0) (cstr "/xy/f")).map
      Prod.snd = .ok (cstr "/a//f").bytes ∧
    mountedPath bareBinds.1 bareBinds.2 (cstr "/xy/f").bytes = some (cstr "/xy/f").bytes :=
  ⟨fun _ L => bestOf_foldl L,
    fun _ _ _ _ _ _ hc hr hne hs hL ht hp hl hn => getPath_agrees_unbound hc hr hne hs hL ht hp hl hn,
    by simpa using (@Built.new emptyMem).replay jailCalls rfl, rfl, by decide, rfl, by decide, rfl,
    by decide, by simpa using (@Built.new emptyMem).replay bareCalls rfl, rfl, by decide⟩

end Libminijail
