import Minijail.Defs.Grammar

/-! What a failed `minijail_unmarshal` leaves behind: the cleanup labels free what it copied and
clear `user`, `chrootdir` and `chdir`, and touch no other field. -/

namespace Libminijail

section Labels

variable {j j' : Minijail} {mem mem' : Mem}

theorem badChrootdir_struct (h : badChrootdir j mem = some (j', mem')) :
    j' = { j with user := .null, chrootdir := .null, chdir := .null } := by
  obtain ⟨_, -, h⟩ := Option.bind_eq_some.mp h
  cases h; rfl

theorem badChdir_struct (h : badChdir j mem = some (j', mem')) :
    j' = { j with user := .null, chrootdir := .null, chdir := .null } := by
  obtain ⟨_, -, h⟩ := Option.bind_eq_some.mp h
  exact badChrootdir_struct h

theorem badFilters_struct (h : badFilters j mem = some (j', mem')) :
    j' = { j with user := .null, chrootdir := .null, chdir := .null } := by
  obtain ⟨_, -, h⟩ := Option.bind_eq_some.mp h
  exact badChdir_struct h

theorem Label.run_struct {l : Label} (h : l.run j mem = some (j', mem')) :
    j' = { j with user := .null, chrootdir := .null, chdir := .null } := by
  cases l with
  | badBindings =>
    simp only [Label.run, Libminijail.badBindings] at h
    split at h
    · split at h
      · exact badFilters_struct h
      · cases h
    · exact badFilters_struct h
  | badFilters => exact badFilters_struct h
  | badChdir => exact badChdir_struct h
  | badChrootdir => exact badChrootdir_struct h
  | clearPointers => cases h; rfl

end Labels

theorem freeSlot_of_val? {α : Type} {q : Slot α} {mem : Mem} (hn : q.isNull = false)
    (hv : q.val? = none) : freeSlot q mem = none := by
  cases q <;> simp_all [freeSlot, Slot.isNull, Slot.val?]

theorem headerOf_chdir_val? (buf : Nat → UInt8) : (headerOf buf).chdir.val? = none := by
  simp only [headerOf, Minijail.ofRaw, Slot.val?_ofAddr]

section Exits

variable {buf : Nat → UInt8} {L : Nat} {j : Minijail} {mem : Mem} {m : Malloc}

theorem unmarshal_of_unterminated_chrootdir (hL : ¬L < sizeofMinijail)
    (hu : (headerOf buf).user = .null) (hc : (headerOf buf).chrootdir.isNull = false)
    (hn : 0 ∉ window buf sizeofMinijail (L - sizeofMinijail)) :
    minijailUnmarshal j mem m buf L =
      (.ret { headerOf buf with user := .null, chrootdir := .null, chdir := .null } (-EINVAL),
        mem) := by
  have hcs : consumestr buf ⟨sizeofMinijail, L - sizeofMinijail⟩ = none := consumestr_eq_none.mpr hn
  rw [minijailUnmarshal_eq hL]
  simp [bodyStart, unmarshalBody, unmarshalUser, unmarshalChrootdir, unmarshalStr, hu, hc, hcs,
    bind, Except.bind, Label.run, badChrootdir, freeSlot, clearPointers]

theorem unmarshal_of_unterminated_chdir (hL : ¬L < sizeofMinijail)
    (hu : (headerOf buf).user = .null) (hc : (headerOf buf).chrootdir = .null)
    (hd : (headerOf buf).chdir.isNull = false)
    (hn : 0 ∉ window buf sizeofMinijail (L - sizeofMinijail)) :
    (minijailUnmarshal j mem m buf L).1 = .fault := by
  have hcs : consumestr buf ⟨sizeofMinijail, L - sizeofMinijail⟩ = none := consumestr_eq_none.mpr hn
  rw [minijailUnmarshal_eq hL]
  simp [bodyStart, unmarshalBody, unmarshalUser, unmarshalChrootdir, unmarshalChdir, unmarshalStr,
    hu, hc, hd, hcs, bind, Except.bind, Label.run, badChdir,
    freeSlot_of_val? hd (headerOf_chdir_val? buf)]

end Exits

def rawBuf (P : Minijail) (i : Nat) : UInt8 := P.raw.getD i 0

theorem headerOf_rawBuf (P : Minijail) :
    headerOf (rawBuf P) =
      { P with user := .ofAddr P.user.addr, chrootdir := .ofAddr P.chrootdir.addr,
               chdir := .ofAddr P.chdir.addr, metaFile := .ofAddr P.metaFile.addr,
               bindingsHead := 0, bindingsTail := 0, filterProg := .null } := by
  have hw : window (rawBuf P) 0 P.raw.length = P.raw := window_of_getD fun i _ => by simp [rawBuf]
  rw [length_raw, ← List.append_nil P.raw] at hw
  rw [headerOf, hw, ofRaw_raw]

def chrootMeta : Minijail × Mem :=
  ((minijailMetaFile (minijailEnterChroot minijailNew emptyMem bumpMalloc rootStr).1
      (some ⟨1, by decide, 3⟩)).1,
   (minijailEnterChroot minijailNew emptyMem bumpMalloc rootStr).2.1)

theorem built_chrootMeta :
    Built emptyMem [(.enterChroot rootStr bumpMalloc, 0), (.metaFile (some ⟨1, by decide, 3⟩), 0)]
      chrootMeta.1 chrootMeta.2 :=
  ((@Built.new emptyMem).call (c := .enterChroot rootStr bumpMalloc) (r := 0) rfl).call
    (c := .metaFile (some ⟨1, by decide, 3⟩)) (r := 0) rfl

def chdirOnly : Minijail := { minijailNew with chdir := .ofAddr 1 }

/-- A failed unmarshal does not hand back an empty struct. Every cleanup label that returns
clears `user`, `chrootdir` and `chdir` and nothing else. The header of a chrooted policy with a
meta file, with its `chrootdir` string cut off, comes back with `-EINVAL` and the sender's
`meta_file` address. A header that announces `chdir` alone, cut off the same way, makes
`bad_chdir` free that address. -/
theorem unmarshal_failure_leftovers :
    (∀ (l : Label) j mem j' mem', l.run j mem = some (j', mem') →
      j' = { j with user := .null, chrootdir := .null, chdir := .null }) ∧
    (∀ j mem m buf L, ¬L < sizeofMinijail → (headerOf buf).user = .null →
      (headerOf buf).chrootdir.isNull = false → 0 ∉ window buf sizeofMinijail (L - sizeofMinijail) →
      minijailUnmarshal j mem m buf L =
        (.ret { headerOf buf with user := .null, chrootdir := .null, chdir := .null } (-EINVAL),
          mem)) ∧
    (∀ j mem m buf L, ¬L < sizeofMinijail → (headerOf buf).user = .null →
      (headerOf buf).chrootdir = .null → (headerOf buf).chdir.isNull = false →
      0 ∉ window buf sizeofMinijail (L - sizeofMinijail) →
      (minijailUnmarshal j mem m buf L).1 = .fault) ∧
    Built emptyMem [(.enterChroot rootStr bumpMalloc, 0), (.metaFile (some ⟨1, by decide, 3⟩), 0)]
      chrootMeta.1 chrootMeta.2 ∧
    (∀ j mem m, ∃ Q, minijailUnmarshal j mem m (rawBuf chrootMeta.1) sizeofMinijail =
      (.ret Q (-EINVAL), mem) ∧ Q.metaFile = .ofAddr 1 ∧ Q.bindingCount = 0) ∧
    (∀ j mem m, (minijailUnmarshal j mem m (rawBuf chdirOnly) sizeofMinijail).1 = .fault) := by
  refine ⟨fun _ _ _ _ _ => Label.run_struct, fun _ _ _ _ _ hL hu hc hn =>
    unmarshal_of_unterminated_chrootdir hL hu hc hn, fun _ _ _ _ _ hL hu hc hd hn =>
    unmarshal_of_unterminated_chdir hL hu hc hd hn, built_chrootMeta, fun j mem m => ?_,
    fun j mem m => ?_⟩
  · refine ⟨_, unmarshal_of_unterminated_chrootdir (lt_irrefl _)
      (by rw [headerOf_rawBuf]; rfl) (by rw [headerOf_rawBuf]; rfl) (List.not_mem_nil _), ?_⟩
    rw [headerOf_rawBuf]
    exact ⟨rfl, rfl⟩
  · exact unmarshal_of_unterminated_chdir (lt_irrefl _) (by rw [headerOf_rawBuf]; rfl)
      (by rw [headerOf_rawBuf]; rfl) (by rw [headerOf_rawBuf]; rfl) (List.not_mem_nil _)

end Libminijail
