import Minijail.Defs.BuilderLaws

/-! What a builder call that reports failure leaves of the policy. `minijail_change_group`,
`minijail_enter_chroot`, `minijail_chroot_chdir` and `minijail_bind` check everything before
they write a field, or write back the `NULL` that was there. `minijail_change_user` calls
`minijail_change_uid` before its `strdup`, and `minijail_meta_file` raises its flag before its
`fopen`: their failures are not undone. -/

namespace Libminijail

variable {j j' : Minijail} {mem mem' : Mem} {m : Malloc} {r : Int}

theorem minijailChangeGroup_keeps {gr : Option (BitVec 32)}
    (h : minijailChangeGroup j mem m gr = some (j', mem', r)) (hr : r ≠ 0) : j' = j := by
  unfold minijailChangeGroup at h
  split at h
  · cases h; rfl
  rcases gr with _ | gid
  · cases h; rfl
  simp only [minijailChangeGid, Option.map_eq_some'] at h
  obtain ⟨_, hj, h⟩ := h
  split at hj <;> cases hj
  cases h
  exact absurd rfl hr

theorem minijailEnterChroot_keeps {dir : CStr}
    (h : minijailEnterChroot j mem m dir = (j', mem', r)) (hr : r ≠ 0) : j' = j := by
  unfold minijailEnterChroot at h
  split at h
  · cases h; rfl
  rename_i hn
  split at h <;> cases h
  · exact (Slot.eq_null_of_isNull (by simpa using hn) ▸ rfl : { j with chrootdir := .null } = j)
  · exact absurd rfl hr

theorem minijailChrootChdir_keeps {dir : Option CStr}
    (h : minijailChrootChdir j mem m dir = (j', mem', r)) (hr : r ≠ 0) : j' = j := by
  unfold minijailChrootChdir at h
  split at h
  · cases h; rfl
  split at h
  · cases h; rfl
  rename_i hd
  rcases dir with _ | d
  · cases h; rfl
  simp only at h
  split at h
  · cases h; rfl
  split at h <;> cases h
  · exact (Slot.eq_null_of_isNull (by simpa using hd) ▸ rfl : { j with chdir := .null } = j)
  · exact absurd rfl hr

theorem minijailBind_keeps {src dest : CStr} {w : BitVec 32}
    (h : minijailBind j mem m src dest w = (j', mem', r)) (hr : r ≠ 0) : j' = j := by
  rcases minijailBind_cases h with ⟨-, rfl, -⟩ | ⟨rfl, -⟩
  · rfl
  · exact absurd rfl hr

theorem minijailChangeUser_of_strdup_fails {user : CStr} {uid gid : BitVec 32}
    {buf : { a : Addr // a ≠ 0 }} {mem₁ mem₂ : Mem} (h₁ : mem.alloc m = (some buf, mem₁))
    (hu : uid ≠ 0) (h₂ : (mem₁.free buf).new m user = (none, mem₂)) :
    minijailChangeUser j mem m user (some (uid, gid)) =
      some ({ j with uid, flags := { j.flags with uid := true }, user := .null }, mem₂, -ENOMEM) := by
  rw [minijailChangeUser, h₁]
  simp only [minijailChangeUid, if_neg hu, Option.map_some', h₂]

def firstOnly : Malloc := ⟨fun mem => if mem.ticks = 0 then some 1 else none⟩

/-- Four of the builder calls that report failure leave every field of the policy as it was,
whatever the policy and whatever the lookups and allocations answer. `minijail_change_user`
whose `strdup` fails has set the uid and its flag and cleared `user`, and `minijail_meta_file`
whose `fopen` fails has raised its flag and cleared `meta_file`. -/
theorem failed_builder_calls_atomicity :
    (∀ j mem m gr j' mem' r, minijailChangeGroup j mem m gr = some (j', mem', r) → r ≠ 0 → j' = j) ∧
    (∀ j mem m dir j' mem' r, minijailEnterChroot j mem m dir = (j', mem', r) → r ≠ 0 → j' = j) ∧
    (∀ j mem m dir j' mem' r, minijailChrootChdir j mem m dir = (j', mem', r) → r ≠ 0 → j' = j) ∧
    (∀ j mem m src dest w j' mem' r, minijailBind j mem m src dest w = (j', mem', r) → r ≠ 0 →
      j' = j) ∧
    (∀ (j : Minijail) mem m user uid gid buf mem₁ mem₂, mem.alloc m = (some buf, mem₁) → uid ≠ 0 →
      (mem₁.free buf).new m user = (none, mem₂) →
      minijailChangeUser j mem m user (some (uid, gid)) =
        some ({ j with uid, flags := { j.flags with uid := true }, user := .null }, mem₂, -ENOMEM)) ∧
    (∀ j : Minijail, minijailMetaFile j none =
      ({ j with flags := { j.flags with metaFile := true }, metaFile := .null }, -1)) ∧
    ((minijailChangeUser minijailNew emptyMem firstOnly rootStr (some (1000, 1000))).map
      (fun r => (r.1.uid, r.1.flags.uid, r.2.2)) = some (1000, true, -ENOMEM)) ∧
    minijailNew.flags.uid = false ∧
    (minijailMetaFile minijailNew none).1.flags.metaFile = true ∧ minijailNew.flags.metaFile = false :=
  ⟨fun _ _ _ _ _ _ _ => minijailChangeGroup_keeps, fun _ _ _ _ _ _ _ => minijailEnterChroot_keeps,
    fun _ _ _ _ _ _ _ => minijailChrootChdir_keeps, fun _ _ _ _ _ _ _ _ _ => minijailBind_keeps,
    fun _ _ _ _ _ _ _ _ _ h₁ hu h₂ => minijailChangeUser_of_strdup_fails h₁ hu h₂, fun _ => rfl,
    by decide, rfl, rfl, rfl⟩

end Libminijail
