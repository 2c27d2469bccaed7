import Minijail.Defs.SyscallHelper
import Minijail.Defs.Bytes

/-! What the syscall helper reads and what it acts on. Everything `read` delivered is one list of
bytes, and each line `readline` returns is the next line of it as `takeLine` cuts it: no byte is
lost, taken twice, or read from an older block of `read_buf`. -/

namespace SyscallHelper

open Libminijail (window window_of_getD)

def delivered : List ReadAnswer → List UInt8
  | [] => []
  | .failed :: rs => delivered rs
  | .bytes b _ :: rs => b ++ delivered rs

@[simp] theorem delivered_nil : delivered [] = [] := rfl

@[simp] theorem delivered_append (c c' : List ReadAnswer) :
    delivered (c ++ c') = delivered c ++ delivered c' := by
  induction c with
  | nil => rfl
  | cons r c ih => cases r <;> simp [delivered, ih]

def pending (s : Reader) : List UInt8 := window s.buf s.pos (s.bytes.toNat - s.pos)

/-- The next line a reader with room for `n` bytes takes from `bs`, and the bytes after it: up to
the first newline, which it consumes without keeping, or `n` bytes; `none` when `bs` ends
first. -/
def takeLine : Nat → List UInt8 → Option (List UInt8 × List UInt8)
  | 0, bs => some ([], bs)
  | _ + 1, [] => none
  | n + 1, c :: bs => if c = 10 then some ([], bs) else (takeLine n bs).map fun r => (c :: r.1, r.2)

inductive Lines (n : Nat) : List UInt8 → List (List UInt8) → List UInt8 → Prop
  | nil (bs : List UInt8) : Lines n bs [] bs
  | cons {bs l bs' ls rest} : takeLine n bs = some (l, bs') → Lines n bs' ls rest →
      Lines n bs (l :: ls) rest

theorem takeLine_append {n : Nat} {bs l r : List UInt8} (h : takeLine n bs = some (l, r))
    (y : List UInt8) : takeLine n (bs ++ y) = some (l, r ++ y) := by
  induction n generalizing bs l r with
  | zero => cases h; rfl
  | succ n ih =>
    match bs, h with
    | c :: bs, h =>
      simp only [takeLine] at h ⊢
      split
      · simp_all
      · rename_i hc
        simp only [hc, if_false, Option.map_eq_some'] at h
        obtain ⟨⟨l', r'⟩, h', he⟩ := h
        cases he
        simp [ih h']

section Pending

variable {s : Reader}

theorem pending_of_not_lt (h : ¬(s.pos : Int) < s.bytes) : pending s = [] := by
  rw [pending, show s.bytes.toNat - s.pos = 0 by omega]
  rfl

theorem pending_of_bytes_nonpos (h : s.bytes ≤ 0) : pending s = [] :=
  pending_of_not_lt (by omega)

theorem pending_init {a : Start} (h : init a = some s) : pending s = [] := by
  unfold init at h
  split at h <;> cases h
  rfl

theorem pending_eq_cons (h : (s.pos : Int) < s.bytes) :
    pending s = s.buf s.pos :: pending { s with pos := s.pos + 1 } := by
  rw [pending, show s.bytes.toNat - s.pos = (s.bytes.toNat - (s.pos + 1)) + 1 by omega]
  rfl

theorem pending_fill (b : List UInt8) (hb : b.length ≤ 4096) : pending (s.fill b hb) = b := by
  simp only [pending, Reader.fill, Int.toNat_ofNat, Nat.sub_zero]
  exact window_of_getD fun i hi => by
    simp only [Nat.zero_add, List.getD_eq_getElem?_getD, List.getElem?_eq_getElem hi, Option.getD_some]

end Pending

theorem waitForActivity_frame {s s' : Reader} {ts ts' : List Turn} {ok : Bool}
    (h : waitForActivity s ts = some (ok, s', ts')) : ∃ n, s' = { s with len := n } := by
  induction ts generalizing s with
  | nil => cases h
  | cons t ts ih =>
    simp only [waitForActivity] at h
    split at h
    · cases h; exact ⟨_, rfl⟩
    split at h
    · cases h; exact ⟨_, rfl⟩
    split at h
    · cases h; exact ⟨_, rfl⟩
    split at h
    · split at h
      · cases h; exact ⟨_, rfl⟩
      · obtain ⟨n, rfl⟩ := ih h; exact ⟨n, rfl⟩
    · exact ih h

def ReadAnswer.delivers : ReadAnswer → Bool
  | .failed => false
  | .bytes b _ => !b.isEmpty

section Refill

variable {s s' : Reader} {ts ts' : List Turn} {rs rs' : List ReadAnswer} {ready : Bool}

theorem refill_spec (h : refill s ts rs = some ⟨ready, s', rs', ts'⟩) :
    ∃ c, rs = c ++ rs' ∧ pending s ++ delivered c = pending s' ∧
      (ready = true ↔ (s'.pos : Int) < s'.bytes) ∧
      (ready = false → ∃ c₀ r, c = c₀ ++ [r] ∧ r.delivers = false) := by
  induction rs generalizing s ts with
  | nil =>
    unfold refill at h
    split at h
    · cases h; exact ⟨[], rfl, by simp, by simpa, nofun⟩
    · cases h
  | cons r rs ih =>
    unfold refill at h
    split at h
    · cases h; exact ⟨[], rfl, by simp, by simpa, nofun⟩
    rename_i hlt
    rw [pending_of_not_lt hlt]
    cases r with
    | failed =>
      cases h
      exact ⟨[.failed], rfl, (pending_of_bytes_nonpos (show (-1 : Int) ≤ 0 by decide)).symm,
        by simp only [Bool.false_eq_true, false_iff, not_lt]; omega, fun _ => ⟨[], _, rfl, rfl⟩⟩
    | bytes b hb =>
      simp only at h
      split at h
      · obtain rfl : b = [] := List.eq_nil_of_length_eq_zero ‹_›
        split at h
        · cases h
        · rename_i hw
          obtain ⟨n, rfl⟩ := waitForActivity_frame hw
          cases h
          exact ⟨[.bytes [] hb], rfl, (pending_of_bytes_nonpos le_rfl).symm,
            by simp only [Bool.false_eq_true, false_iff, not_lt]; omega, fun _ => ⟨[], _, rfl, rfl⟩⟩
        · rename_i hw
          obtain ⟨n, rfl⟩ := waitForActivity_frame hw
          obtain ⟨c, rfl, hc, hr, hl⟩ := ih h
          rw [pending_of_bytes_nonpos le_rfl] at hc
          refine ⟨.bytes [] hb :: c, rfl, hc, hr, fun hf => ?_⟩
          obtain ⟨c₀, r, rfl, hr⟩ := hl hf
          exact ⟨.bytes [] hb :: c₀, r, rfl, hr⟩
      · cases h
        exact ⟨[.bytes b hb], rfl, by simp [delivered, pending_fill],
          by simp only [Reader.fill, true_iff]; omega, nofun⟩

end Refill

def Got.Takes (room : Nat) (line bs rest : List UInt8) : Got → Prop
  | .line l => ∃ l₀, l = line ++ l₀ ∧ takeLine room bs = some (l₀, rest)
  | .failed => takeLine room bs = none

theorem readLoop_spec {room : Nat} {s s' : Reader} {line : List UInt8} {rs rs' : List ReadAnswer}
    {ts ts' : List Turn} {g : Got} (h : readLoop room s line rs ts = some ⟨g, s', rs', ts'⟩) :
    ∃ c, rs = c ++ rs' ∧ g.Takes room line (pending s ++ delivered c) (pending s') ∧
      (g = .failed → ∃ c₀ r, c = c₀ ++ [r] ∧ r.delivers = false) := by
  induction room generalizing s line rs ts with
  | zero => cases h; exact ⟨[], rfl, ⟨[], by simp, by simp [takeLine]⟩, nofun⟩
  | succ room ih =>
    simp only [readLoop] at h
    split at h
    · cases h
    · rename_i hr
      cases h
      obtain ⟨c, rfl, hc, hready, hl⟩ := refill_spec hr
      refine ⟨c, rfl, ?_, fun _ => hl rfl⟩
      rw [hc, pending_of_not_lt (by simpa using hready)]
      rfl
    · rename_i s₁ rs₁ ts₁ hr
      obtain ⟨c₁, rfl, hc₁, hready, -⟩ := refill_spec hr
      have hcons := pending_eq_cons (hready.1 rfl)
      split at h
      · cases h
        refine ⟨c₁, rfl, ⟨[], by simp, ?_⟩, nofun⟩
        rw [hc₁, hcons, takeLine, if_pos ‹_›]
      · obtain ⟨c₂, rfl, hg, hl⟩ := ih h
        refine ⟨c₁ ++ c₂, by simp, ?_, fun hf => ?_⟩
        · rw [delivered_append, ← List.append_assoc, hc₁, hcons, List.cons_append]
          cases g with
          | line l =>
            obtain ⟨l₀, rfl, ht⟩ := hg
            exact ⟨s₁.buf s₁.pos :: l₀, by simp, by simp [takeLine, ht, *]⟩
          | failed =>
            show takeLine (room + 1) (_ :: _) = none
            rw [takeLine, if_neg ‹_›, show takeLine room _ = none from hg]
            rfl
        · obtain ⟨c₀, r, rfl, hrd⟩ := hl hf
          exact ⟨c₁ ++ c₀, r, by simp, hrd⟩

section Complete

variable {s : Reader} {rs : List ReadAnswer} {ts : List Turn}

theorem refill_of_delivers (ts : List Turn) (hrs : ∀ r ∈ rs, r.delivers = true)
    (hne : pending s ++ delivered rs ≠ []) :
    ∃ s' rs', refill s ts rs = some ⟨true, s', rs', ts⟩ ∧
      pending s' ++ delivered rs' = pending s ++ delivered rs ∧ ∀ r ∈ rs', r.delivers = true := by
  unfold refill
  split
  · exact ⟨s, rs, rfl, rfl, hrs⟩
  rename_i hlt
  rw [pending_of_not_lt hlt, List.nil_append] at hne ⊢
  match rs, hrs, hne with
  | .failed :: _, hrs, _ => nomatch hrs _ (List.mem_cons_self _ _)
  | .bytes b hb :: rs, hrs, _ =>
    have hb0 : b ≠ [] := by simpa [ReadAnswer.delivers] using hrs _ (List.mem_cons_self _ _)
    simp only [List.length_eq_zero, hb0, if_false]
    exact ⟨_, rs, rfl, by simp [delivered, pending_fill],
      fun r hr => hrs r (List.mem_cons_of_mem _ hr)⟩

theorem readLoop_of_takeLine {room : Nat} (line : List UInt8) (ts : List Turn) {l₀ rest : List UInt8}
    (hrs : ∀ r ∈ rs, r.delivers = true) (ht : takeLine room (pending s ++ delivered rs) = some (l₀, rest)) :
    ∃ s' rs', readLoop room s line rs ts = some ⟨.line (line ++ l₀), s', rs', ts⟩ ∧
      pending s' ++ delivered rs' = rest ∧ ∀ r ∈ rs', r.delivers = true := by
  induction room generalizing s line rs l₀ with
  | zero =>
    cases ht
    exact ⟨s, rs, by simp [readLoop], rfl, hrs⟩
  | succ room ih =>
    have hne : pending s ++ delivered rs ≠ [] := by rintro h; simp [h, takeLine] at ht
    obtain ⟨s₁, rs₁, hr, he, hrs₁⟩ := refill_of_delivers ts hrs hne
    obtain ⟨-, -, -, hready, -⟩ := refill_spec hr
    have hcons := pending_eq_cons (hready.1 rfl)
    rw [← he, hcons, List.cons_append, takeLine] at ht
    simp only [readLoop, hr]
    split
    · rename_i h10
      simp only [h10, if_true, Option.some.injEq, Prod.mk.injEq] at ht
      obtain ⟨rfl, rfl⟩ := ht
      exact ⟨_, rs₁, by simp, rfl, hrs₁⟩
    · rename_i h10
      simp only [h10, if_false, Option.map_eq_some'] at ht
      obtain ⟨⟨l₁, r₁⟩, ht, he'⟩ := ht
      cases he'
      obtain ⟨s', rs', hr', he'', hrs'⟩ := ih (line ++ [s₁.buf s₁.pos]) hrs₁ ht
      exact ⟨s', rs', by simpa using hr', he'', hrs'⟩

end Complete

section Main

variable (table : List (List UInt8 × Int))

/-- How `main` ends with `e` after consuming the answers `c`, whose bytes it read as the lines
`ls` with `rest` after them: on the last of them, the first that decides, or, none deciding and
no further line complete, on the last answer, a `read` that returned no byte. -/
def Ends (c : List ReadAnswer) (ls : List (List UInt8)) (rest : List UInt8) (e : End) : Prop :=
  (∃ ls₀ l, ls = ls₀ ++ [l] ∧ ls₀.findSome? (examine table) = none ∧ examine table l = some e) ∨
    ls.findSome? (examine table) = none ∧ takeLine 1023 rest = none ∧ e = .exit none 1 ∧
      ∃ c₀ r, c = c₀ ++ [r] ∧ r.delivers = false

theorem readline_buf (s : Reader) (rs : List ReadAnswer) (ts : List Turn) :
    readline 1024 s rs ts = readLoop 1023 s [] rs ts := rfl

variable {table}

theorem Ends.cons {c c' : List ReadAnswer} {ls : List (List UInt8)} {rest l : List UInt8} {e : End}
    (hl : examine table l = none) (h : Ends table c' ls rest e) :
    Ends table (c ++ c') (l :: ls) rest e := by
  rcases h with ⟨ls₀, l', rfl, h0, he⟩ | ⟨h0, ht, rfl, c₀, r, rfl, hr⟩
  · exact .inl ⟨l :: ls₀, l', rfl, by simp [List.findSome?_cons, hl, h0], he⟩
  · exact .inr ⟨by simp [List.findSome?_cons, hl, h0], ht, rfl, c ++ c₀, r, by simp, hr⟩

theorem mainLoop_spec {fuel : Nat} {s : Reader} {rs rs' : List ReadAnswer} {ts ts' : List Turn}
    {e : End} (h : mainLoop table fuel s rs ts = some (e, rs', ts')) :
    ∃ c, rs = c ++ rs' ∧
      ∃ ls rest, Lines 1023 (pending s ++ delivered c) ls rest ∧ Ends table c ls rest e := by
  induction fuel generalizing s rs ts with
  | zero => cases h
  | succ fuel ih =>
    simp only [mainLoop, readline_buf] at h
    split at h
    · cases h
    · rename_i s₁ rs₁ ts₁ hr
      cases h
      obtain ⟨c, rfl, hc, hl⟩ := readLoop_spec hr
      exact ⟨c, rfl, [], _, .nil _, .inr ⟨rfl, hc, rfl, hl rfl⟩⟩
    · rename_i l s₁ rs₁ ts₁ hr
      obtain ⟨c₁, rfl, ⟨l₀, rfl, ht⟩, -⟩ := readLoop_spec hr
      split at h
      · cases h
        exact ⟨c₁, rfl, [l], pending s₁, .cons ht (.nil _), .inl ⟨[], l, rfl, rfl, by simpa⟩⟩
      · obtain ⟨c₂, rfl, ls, rest, hls, he⟩ := ih h
        refine ⟨c₁ ++ c₂, by simp, l :: ls, rest, ?_, Ends.cons (by simpa) he⟩
        rw [delivered_append, ← List.append_assoc]
        exact .cons (takeLine_append ht _) hls

theorem mainLoop_of_lines {fuel : Nat} {s : Reader} {rs : List ReadAnswer} {ts : List Turn}
    {ls : List (List UInt8)} {rest : List UInt8} {e : End} (hrs : ∀ r ∈ rs, r.delivers = true)
    (hls : Lines 1023 (pending s ++ delivered rs) ls rest)
    (he : ls.findSome? (examine table) = some e) (hf : ls.length ≤ fuel) :
    ∃ rs' ts', mainLoop table fuel s rs ts = some (e, rs', ts') := by
  generalize hb : pending s ++ delivered rs = bs at hls
  induction hls generalizing s rs fuel with
  | nil => cases he
  | cons ht _ ih =>
    subst hb
    obtain ⟨s', rs', hr, hb', hrs'⟩ := readLoop_of_takeLine [] ts hrs ht
    obtain ⟨fuel, rfl⟩ : ∃ f, fuel = f + 1 := ⟨fuel - 1, by simp only [List.length_cons] at hf; omega⟩
    simp only [mainLoop, readline_buf, hr, List.nil_append]
    rw [List.findSome?_cons] at he
    split
    · rename_i hl
      rw [hl] at he
      cases he
      exact ⟨_, _, rfl⟩
    · rename_i hl
      rw [hl] at he
      exact ih hrs' he (by simpa using hf) hb'

end Main

/-- Every end of the syscall helper: `init` failed before any read, or the answers `main`
consumed delivered bytes that it read line after line, each up to a newline or of 1023 bytes,
ending on the first line that marks a normal exit or names an audited system call, or, none
such and no further line complete, on its last answer, a `read` that returned no byte. -/
theorem helper_ends_on_first_deciding_line {table : List (List UInt8 × Int)} {a : Start}
    {fuel : Nat} {rs rs' : List ReadAnswer} {ts ts' : List Turn} {e : End}
    (h : mainRun table a fuel rs ts = some (e, rs', ts')) :
    init a = none ∧ e = .exit none 1 ∧ rs' = rs ∨
      ∃ c, rs = c ++ rs' ∧ ∃ ls rest, Lines 1023 (delivered c) ls rest ∧ Ends table c ls rest e := by
  unfold mainRun at h
  split at h
  · cases h
    exact .inl ⟨‹_›, rfl, rfl⟩
  · rename_i s hs
    obtain ⟨c, rfl, ls, rest, hls, he⟩ := mainLoop_spec h
    rw [pending_init hs, List.nil_append] at hls
    exact .inr ⟨c, rfl, ls, rest, hls, he⟩

theorem helper_ends_on_failed_read :
    mainRun [] ⟨3, 0, 4, 1⟩ 2 [.bytes (ascii "ok\n") (by decide), .failed] [] =
        some (.exit none 1, [], []) ∧
      (init ⟨3, 0, 4, 1⟩ = none ∧ End.exit none 1 = .exit none 1 ∧
          ([] : List ReadAnswer) = [.bytes (ascii "ok\n") (by decide), .failed] ∨
        ∃ c, [.bytes (ascii "ok\n") (by decide), .failed] = c ++ [] ∧
          ∃ ls rest, Lines 1023 (delivered c) ls rest ∧ Ends [] c ls rest (.exit none 1)) :=
  have h : mainRun [] ⟨3, 0, 4, 1⟩ 2 [.bytes (ascii "ok\n") (by decide), .failed] [] =
      some (.exit none 1, [], []) := rfl
  ⟨h, helper_ends_on_first_deciding_line h⟩

/-- When every `read` of the log returns some bytes, the syscall helper ends on the first line of
them that marks a normal exit or names an audited system call, with no wait for the file to
grow. -/
theorem helper_reaches_deciding_line {table : List (List UInt8 × Int)} {a : Start}
    (ha : (init a).isSome) {rs : List ReadAnswer} (hrs : ∀ r ∈ rs, r.delivers = true)
    {ls : List (List UInt8)} {rest : List UInt8} (hls : Lines 1023 (delivered rs) ls rest) {e : End}
    (he : ls.findSome? (examine table) = some e) {fuel : Nat} (hf : ls.length ≤ fuel)
    (ts : List Turn) : main table a fuel rs ts = some e := by
  unfold main mainRun
  split
  · simp_all
  · rename_i s hs
    obtain ⟨rs', ts', h⟩ : ∃ rs' ts', mainLoop table fuel s rs ts = some (e, rs', ts') :=
      mainLoop_of_lines hrs (by rwa [pending_init hs]) he hf
    rw [h]
    rfl

theorem helper_reaches_audit_line :
    (init ⟨3, 0, 4, 1⟩).isSome ∧
      (∀ r ∈ [ReadAnswer.bytes (ascii "kernel: audit syscall=1\n") (by decide)], r.delivers = true) ∧
      Lines 1023 (delivered [.bytes (ascii "kernel: audit syscall=1\n") (by decide)])
        [ascii "kernel: audit syscall=1"] [] ∧
      [ascii "kernel: audit syscall=1"].findSome? (examine [(ascii "write", 1)]) =
        some (.exit (some (ascii "write")) 0) ∧
      main [(ascii "write", 1)] ⟨3, 0, 4, 1⟩ 1 [.bytes (ascii "kernel: audit syscall=1\n") (by decide)] [] =
        some (.exit (some (ascii "write")) 0) :=
  have ha : (init ⟨3, 0, 4, 1⟩).isSome := by decide
  have hrs : ∀ r ∈ [ReadAnswer.bytes (ascii "kernel: audit syscall=1\n") (by decide)],
      r.delivers = true := by decide
  have hls : Lines 1023 (delivered [.bytes (ascii "kernel: audit syscall=1\n") (by decide)])
      [ascii "kernel: audit syscall=1"] [] := .cons (by decide) (.nil _)
  have he : [ascii "kernel: audit syscall=1"].findSome? (examine [(ascii "write", 1)]) =
      some (.exit (some (ascii "write")) 0) := by decide
  ⟨ha, hrs, hls, he, helper_reaches_deciding_line ha hrs hls he le_rfl []⟩

end SyscallHelper
