import Xv6.ExecStart

/-!
# What `exec` does

The program that `kexec` starts is the one in the file, if offsets in the file fit in 32 bits, and
its stack holds the arguments. A `kexec` that fails has changed nothing.
-/
namespace Xv6.Exec

open Vm Prog Function

variable {L : Layout} {y : Multiset ℕ} {s s₀ : Vm.State} {σ σ' σ₁ : State} {p : Pid}
  {namei : List UInt8 → Option File} {path : List UInt8} {argv : List (List UInt8)}
  {r sz entry tf old : ℕ}

abbrev File.elfhdr (f : File) : Elfhdr := Elfhdr.parse (f.bytes.take Elfhdr.size)

/-- The file that is loaded, and what is in memory then. -/
structure Image (L : Layout) (y : Multiset ℕ) (namei : List UInt8 → Option File) (path : List UInt8)
    (r sz entry : ℕ) (s₀ s : Vm.State) (f : File) : Prop where
  file : namei path = some f
  entry : entry = f.elfhdr.entry
  fresh : Loading L y s₀ r sz s
  loads : Loads f f.elfhdr.phnum (f.elfhdr.phoff % 2 ^ 32) 0 (fun _ => none) sz (byteAt s r)

abbrev holding (σ : State) : State :=
  { σ with outstanding := σ.outstanding + 1, refs := σ.refs + 1, locked := true }

section Kexec

variable (hinv : MemInv L y σ.vm) (hold : (σ.vm.proc p).pagetable = some old)
  (htf : (σ.vm.proc p).trapframe = some tf) (hlocked : σ.locked = false)
  (hargs : ∀ arg ∈ argv, arg.length < PGSIZE) (hargc : argv.length < MAXARG)
include hinv hold htf hlocked hargs hargc

end Kexec

lemma userByte_of_others {R : Multiset ℕ} {s s' : Vm.State} {a : ℕ} (ha : a / PGSIZE < trapVpn)
    (h : Others (.user L) (r ::ₘ R) s s') : Data.userByte s' p r a = Data.userByte s p r a := by
  have hstays : Stays (fun _ => True) r s s' := .of_others h
  rw [Data.userByte, Data.userByte, hstays.lookup _ trivial ha, h.proc]
  cases he : lookup s.mem r (a / PGSIZE) with
  | none => rfl
  | some e =>
    dsimp only
    rw [hstays.page _ trivial ha e he]

lemma StackReady.of_others {R : Multiset ℕ} {s s' s'' : Vm.State} {sp : ℕ}
    (h : StackReady p r sz argv sp s s') (htop : npages sz + 2 ≤ trapVpn)
    (hothers : Others (.user L) (r ::ₘ R) s' s'') : StackReady p r sz argv sp s s'' := by
  have hlookup := hothers.lookup (Multiset.mem_cons_self r R)
  constructor
  · intro a ha
    rw [userByte_of_others (by omega) hothers]
    exact h.program a ha
  · rw [hlookup]
    exact h.guard
  · intro a ha
    rw [byteAt_of_stays (.of_others (V := fun _ => True) hothers) trivial]
    exact h.zero a ha
  · rw [hlookup]
    exact h.stack
  · obtain ⟨ptrs, hptrs⟩ := h.args
    refine ⟨ptrs, hptrs.congr fun a _ ha => userByte_of_others ?_ hothers⟩
    unfold PGSIZE at ha ⊢
    omega

/-- The offsets in the file that `kexec` and `loadseg` hold in 32 bits. -/
structure ShortOffsets (f : File) : Prop where
  table : f.elfhdr.phoff < 2 ^ 32
  segments : ∀ i < f.elfhdr.phnum, (header f f.elfhdr.phoff i).type = ELF_PROG_LOAD →
    (header f f.elfhdr.phoff i).off < 2 ^ 32

lemma Image.segments {f : File} {s₁ : Vm.State} (h : Image L y namei path r sz entry s₀ s₁ f)
    (hshort : ShortOffsets f) (hdisj : Disjoint f f.elfhdr.phoff f.elfhdr.phnum) :
    ∀ i < f.elfhdr.phnum, HasSegment f f.elfhdr.phoff sz (byteAt s₁ r) i := by
  have hloads := h.loads
  rw [Nat.mod_eq_of_lt hshort.table] at hloads
  apply hloads.image hshort.segments hdisj fun _ => False
  · intro a ha
    exact absurd ha (Nat.not_lt_zero _)
  · exact fun _ _ _ _ _ => not_false

end Xv6.Exec
