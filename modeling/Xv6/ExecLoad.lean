import Xv6.Exec
import Xv6.VmExec

/-!
# Loading a program

Every segment gets its memory and its bytes from the file, or loading stops. In both cases the
new page table is the only thing that has changed.
-/
namespace Xv6.Exec

open Prog Vm Function

variable {L : Layout} {s s' : Vm.State} {σ σ' : State} {R x : Multiset ℕ} {r v w n off : ℕ} {f : File}

lemma File.length_lt (f : File) : f.bytes.length + PGSIZE < 2 ^ 32 := by
  have := f.le
  unfold MAXFILE NDIRECT NINDIRECT BSIZE at this
  unfold PGSIZE
  omega

/-- The byte at an address of a page table. -/
def byteAt (s : Vm.State) (r a : ℕ) : Option UInt8 :=
  if a / PGSIZE < trapVpn then
    (lookup s.mem r (a / PGSIZE)).map fun e => WordBytes.get (s.mem (Pte.ppn e)) (a % PGSIZE)
  else
    none

lemma byteAt_of_stays {V : ℕ → Prop} (h : Stays V r s s') {a : ℕ} (ha : V (a / PGSIZE)) :
    byteAt s' r a = byteAt s r a := by
  unfold byteAt
  by_cases hlt : a / PGSIZE < trapVpn
  · rw [if_pos hlt, if_pos hlt, h.lookup _ ha hlt]
    cases he : lookup s.mem r (a / PGSIZE) with
    | none => rfl
    | some e => rw [Option.map_some, Option.map_some, h.page _ ha hlt e he]
  · rw [if_neg hlt, if_neg hlt]

/-- Pages of the table are written, and nothing else. -/
structure Wrote (L : Layout) (r : ℕ) (R x : Multiset ℕ) (s s' : Vm.State) : Prop where
  kept : Kept (.user L) r R x s s'
  untouched : Untouched x s s'

lemma Wrote.refl (h : Own L s (r ::ₘ R) x) : Wrote L r R x s s := ⟨⟨h, rfl, .refl⟩, .refl⟩

lemma Wrote.trans {s'' : Vm.State} (h : Wrote L r R x s s') (h' : Wrote L r R x s' s'') :
    Wrote L r R x s s'' := by
  refine ⟨?_, h.untouched.trans h'.untouched⟩
  have hkept := h'.kept
  rw [Kept, h.kept.lookup] at hkept
  exact h.kept.trans hkept

lemma Wrote.setPage (h : Own L s (r ::ₘ R) x) {e : Word} (hv : v < trapVpn)
    (he : lookup s.mem r v = some e) (g : Fin 512 → Word) :
    Wrote L r R x s (s.setPage (Pte.ppn e) g) := by
  refine ⟨(h.setPage hv he g).1, ?_⟩
  intro q hq
  rw [setPage_eq]
  apply update_of_ne
  intro heq
  exact (h.of_lookup hv he).2.2 (heq ▸ hq)

structure SegRead (L : Layout) (r : ℕ) (R x : Multiset ℕ) (f : File) (va off n : ℕ) (σ : State)
    (ok : Bool) (σ' : State) : Prop where
  rest : σ' = { σ with vm := σ'.vm }
  wrote : Wrote L r R x σ.vm σ'.vm
  inFile : ok = true → 0 < n → off + n ≤ f.bytes.length
  bytes : ok = true → byteAt σ'.vm r = Data.put (byteAt σ.vm r) va ((f.bytes.drop off).take n)

lemma SegRead.zero {va : ℕ} (h : Own L σ.vm (r ::ₘ R) x) :
    SegRead L r R x f va off 0 σ true σ where
  rest := rfl
  wrote := .refl h
  inFile _ h0 := absurd h0 (lt_irrefl 0)
  bytes _ := by rw [List.take_zero, Data.put_nil]

lemma SegRead.cons {va m : ℕ} {s₁ : Vm.State} {ok : Bool} (hwrote : Wrote L r R x σ.vm s₁)
    (hin : off + n ≤ f.bytes.length)
    (hbytes : byteAt s₁ r = Data.put (byteAt σ.vm r) va ((f.bytes.drop off).take n))
    (h : SegRead L r R x f (va + n) (off + n) m { σ with vm := s₁ } ok σ') :
    SegRead L r R x f va off (n + m) σ ok σ' := by
  have hlen : ((f.bytes.drop off).take n).length = n := by
    rw [List.length_take, List.length_drop]
    omega
  constructor
  · exact h.rest
  · exact hwrote.trans h.wrote
  · intro hok hpos
    by_cases hm : 0 < m
    · have := h.inFile hok hm
      omega
    · omega
  · intro hok
    have hput := Data.put_put (byteAt σ.vm r) va ((f.bytes.drop off).take n) ((f.bytes.drop (off + n)).take m)
    rw [hlen] at hput
    rw [h.bytes hok, hbytes, hput, List.take_add, List.drop_drop]

def headerAt (f : File) (off : ℕ) : Proghdr := Proghdr.parse ((f.bytes.drop off).take Proghdr.size)

/-- A segment is loaded: from sizes and contents of memory to the next ones. -/
structure SegLoaded (f : File) (ph : Proghdr) (sz : ℕ) (B : ℕ → Option UInt8) (sz₁ : ℕ)
    (B₁ : ℕ → Option UInt8) : Prop where
  filesz_le : ph.filesz ≤ ph.memsz
  aligned : ph.vaddr % PGSIZE = 0
  size : sz₁ = max sz (ph.vaddr + ph.memsz)
  inFile : 0 < ph.filesz → ph.off % 2 ^ 32 + ph.filesz ≤ f.bytes.length
  bytes : B₁ = Data.put (fun a => if npages sz ≤ a / PGSIZE ∧ a / PGSIZE < npages sz₁ then some 0 else B a)
    ph.vaddr ((f.bytes.drop (ph.off % 2 ^ 32)).take ph.filesz)

/-- The headers from an offset on are read, and their segments loaded. -/
inductive Loads (f : File) : ℕ → ℕ → ℕ → (ℕ → Option UInt8) → ℕ → (ℕ → Option UInt8) → Prop
  | done (off sz : ℕ) (B : ℕ → Option UInt8) : Loads f 0 off sz B sz B
  | skip {k off sz sz' : ℕ} {B B' : ℕ → Option UInt8} (hread : off + Proghdr.size ≤ f.bytes.length)
      (htype : (headerAt f off).type ≠ ELF_PROG_LOAD)
      (hrest : Loads f k ((off + Proghdr.size) % 2 ^ 32) sz B sz' B') : Loads f (k + 1) off sz B sz' B'
  | load {k off sz sz₁ sz' : ℕ} {B B₁ B' : ℕ → Option UInt8}
      (hread : off + Proghdr.size ≤ f.bytes.length)
      (htype : (headerAt f off).type = ELF_PROG_LOAD)
      (hseg : SegLoaded f (headerAt f off) sz B sz₁ B₁)
      (hrest : Loads f k ((off + Proghdr.size) % 2 ^ 32) sz₁ B₁ sz' B') : Loads f (k + 1) off sz B sz' B'

variable {y : Multiset ℕ} {s₀ : Vm.State} {sz : ℕ}

lemma Loading.size_le (h : Loading L y s₀ r sz s) : sz ≤ physTop * PGSIZE := by
  have hn := Own.dense_le h.built.own (npages_le h.built.le) h.ne_none
  unfold npages PGSIZE at hn
  unfold PGSIZE
  omega

end Xv6.Exec
