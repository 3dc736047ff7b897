import Xv6.ShParse

/-!
# The words of a parsed command

`nulterminate` writes a zero at the end of every word. No end lies inside a word, so that each
word is afterwards the string at its beginning. With the correctness of `parseline` this gives
the correctness of `parsecmd`.
-/
namespace Xv6.Sh

open Prog

variable {buf : List UInt8}

/-- The string at `p`, when a zero follows within `k` characters. -/
def stringAt (mem : Mem) : ℕ → ℕ → Option (List UInt8)
  | 0, _ => none
  | k + 1, p => if mem p = 0 then some [] else (stringAt mem k (p + 1)).map (mem p :: ·)

section Trees

variable {V W : Type}

lemma Cmd.map_congr {f g : V → W} {cmd : Cmd V} (h : cmd.All fun w => f w = g w) :
    cmd.map f = cmd.map g := by
  induction cmd with
  | exec argv => rw [Cmd.map, Cmd.map, List.map_congr_left h]
  | redir cmd file mode fd ih => rw [Cmd.map, Cmd.map, ih h.1, h.2]
  | pipe left right ihl ihr | list left right ihl ihr => rw [Cmd.map, Cmd.map, ihl h.1, ihr h.2]
  | back cmd ih => rw [Cmd.map, Cmd.map, ih h]

lemma Cmd.map_map {U : Type} (f : U → V) (g : V → W) (cmd : Cmd U) :
    (cmd.map f).map g = cmd.map (g ∘ f) := by
  induction cmd with
  | exec argv => rw [Cmd.map, Cmd.map, Cmd.map, List.map_map]
  | redir cmd file mode fd ih => rw [Cmd.map, Cmd.map, Cmd.map, ih, Function.comp_apply]
  | pipe left right ihl ihr | list left right ihl ihr => rw [Cmd.map, Cmd.map, Cmd.map, ihl, ihr]
  | back cmd ih => rw [Cmd.map, Cmd.map, Cmd.map, ih]

def Cmd.words : Cmd W → List W
  | .exec argv => argv
  | .redir cmd file _ _ => cmd.words ++ [file]
  | .pipe left right => left.words ++ right.words
  | .list left right => left.words ++ right.words
  | .back cmd => cmd.words

lemma Cmd.all_iff {P : W → Prop} {cmd : Cmd W} : cmd.All P ↔ ∀ w ∈ cmd.words, P w := by
  induction cmd with
  | exec argv => exact Iff.rfl
  | redir cmd file mode fd ih => rw [Cmd.All, Cmd.words, List.forall_mem_append, ih,
      List.forall_mem_singleton]
  | pipe left right ihl ihr | list left right ihl ihr =>
    rw [Cmd.All, Cmd.words, List.forall_mem_append, ihl, ihr]
  | back cmd ih => exact ih

end Trees

lemma nulterminate_eq (cmd : Cmd Span) (mem : Mem) :
    nulterminate cmd mem = cmd.words.foldl (fun mem w => mem.zero w.2) mem := by
  induction cmd generalizing mem with
  | exec argv => rfl
  | redir cmd file mode fd ih => rw [nulterminate, Cmd.words, List.foldl_append, ih]; rfl
  | pipe left right ihl ihr | list left right ihl ihr =>
    rw [nulterminate, Cmd.words, List.foldl_append, ihl, ihr]
  | back cmd ih => exact ih mem

lemma foldl_zero_of_ne {ws : List Span} {mem : Mem} {i : ℕ} (h : ∀ w ∈ ws, w.2 ≠ i) :
    ws.foldl (fun mem w => mem.zero w.2) mem i = mem i := by
  induction ws generalizing mem with
  | nil => rfl
  | cons w ws ih =>
    obtain ⟨hw, hws⟩ := List.forall_mem_cons.mp h
    rw [List.foldl_cons, ih hws]
    exact if_neg hw.symm

lemma foldl_zero_of_eq {ws : List Span} {mem : Mem} {i : ℕ} (h : mem i = 0 ∨ ∃ w ∈ ws, w.2 = i) :
    ws.foldl (fun mem w => mem.zero w.2) mem i = 0 := by
  induction ws generalizing mem with
  | nil => simpa using h
  | cons w ws ih =>
    rw [List.foldl_cons]
    apply ih
    by_cases hi : i = w.2
    · exact Or.inl (if_pos hi)
    · rcases h with h | ⟨v, hv, hvi⟩
      · exact Or.inl ((if_neg hi).trans h)
      · rcases List.mem_cons.mp hv with rfl | hv
        · exact absurd hvi.symm hi
        · exact Or.inr ⟨v, hv, hvi⟩

lemma WordSpan.end_ne {v w : Span} (hv : WordSpan buf v) (hw : WordSpan buf w) {i : ℕ}
    (hge : w.1 ≤ i) (hlt : i < w.2) : v.2 ≠ i := by
  rintro rfl
  exact hv.stop (hlt.trans_le hw.le) (hw.chars v.2 hge hlt)

lemma stringAt_eq (hnul : 0 ∉ buf) {mem : Mem} {n k p : ℕ} (hn : n < k) (hle : p + n ≤ buf.length)
    (hmem : ∀ i, p ≤ i → i < p + n → mem i = charAt buf i) (hend : mem (p + n) = 0) :
    stringAt mem k p = some ((buf.drop p).take n) := by
  induction n generalizing k p with
  | zero =>
    obtain ⟨k, rfl⟩ : ∃ k', k = k' + 1 := ⟨k - 1, by omega⟩
    rw [Nat.add_zero] at hend
    rw [stringAt, if_pos hend, List.take_zero]
  | succ n ih =>
    obtain ⟨k, rfl⟩ : ∃ k', k = k' + 1 := ⟨k - 1, by omega⟩
    have hchar := hmem p le_rfl (by omega)
    have hrest : stringAt mem k (p + 1) = some ((buf.drop (p + 1)).take n) := by
      apply ih (by omega) (by omega)
      · intro i hge hlt
        exact hmem i (by omega) (by omega)
      · rw [show p + 1 + n = p + (n + 1) by omega]
        exact hend
    rw [stringAt, if_neg (by rw [hchar]; exact charAt_ne_zero hnul (by omega)), hrest,
      drop_eq_cons (show p < buf.length by omega), List.take_succ_cons, hchar, Option.map_some]

/-- After `nulterminate` every word of the command is the string at its beginning. -/
theorem stringAt_nulterminate (hnul : 0 ∉ buf) {cmd : Cmd Span} (h : cmd.All (WordSpan buf)) :
    cmd.map (fun w => stringAt (nulterminate cmd (charAt buf)) (buf.length + 1) w.1) =
      (cmd.map (text buf)).map some := by
  rw [Cmd.map_map]
  apply Cmd.map_congr
  rw [Cmd.all_iff] at h ⊢
  intro w hw
  have hspan := h w hw
  have hlt := hspan.lt
  have hle := hspan.le
  rw [Function.comp_apply, text]
  apply stringAt_eq hnul (by omega) (by omega)
  · intro i hge hi
    rw [nulterminate_eq]
    exact foldl_zero_of_ne fun v hv => (h v hv).end_ne hspan hge (by omega)
  · rw [nulterminate_eq]
    exact foldl_zero_of_eq (Or.inr ⟨w, hw, by omega⟩)

theorem wp_parsecmd_complete (hnul : 0 ∉ buf) {tree : Cmd (List UInt8)} (h : Line (tokens buf) tree) :
    wp (parsecmd buf) 0
      (fun r _ => r.1.map (fun w => stringAt r.2 (buf.length + 1) w.1) = tree.map some)
      (fun _ => False) := by
  have htoks : toksAt buf 0 = tokens buf ++ [] := (List.append_nil _).symm
  rw [parsecmd, wp_bind]
  apply wp_call (parseline_complete hnul (buf.length + 1) 0 _ tree [] (Nat.zero_le _) (by omega) h
    htoks (Or.inl rfl))
  rintro cmd s₁ ⟨hat, hcmd⟩
  rw [wp_bind]
  apply wp_peek hnul hat.le (List.nil_subset _)
  intro s₂ _ _ _ hend
  rw [wp_bind, wp_get, wp_ite, if_neg (not_not.mpr (hend.mpr hat.toks)), wp_pure,
    stringAt_nulterminate hnul hcmd.spans, hcmd.eq]

theorem wp_parsecmd_sound (hnul : 0 ∉ buf) :
    wp (parsecmd buf) 0 (fun _ _ => ∃ tree, Line (tokens buf) tree) (· ≠ .fuel) := by
  rw [parsecmd, wp_bind]
  apply wp_call (parseline_sound hnul (buf.length + 1) 0 (Nat.zero_le _) (by omega))
  rintro cmd s₁ ⟨ts, tree, hts, hat, hder, -⟩
  rw [wp_bind]
  apply wp_peek hnul hat.le (List.nil_subset _)
  intro s₂ _ _ _ hend
  rw [wp_bind, wp_get, wp_ite]
  split
  · rw [wp_bind, wp_throw]
    exact Err.noConfusion
  · next hs =>
    rw [hend.mp (not_not.mp hs), List.append_nil] at hts
    rw [← hts] at hder
    exact ⟨tree, hder⟩

/-- `parsecmd` returns on a string just when its tokens derive from the grammar, with the tree
of the derivation, and else it ends in `panic`. Each word of the tree is read at its pointer
in the memory that `parsecmd` leaves. -/
theorem parsecmd_correct (buf : List UInt8) (hnul : 0 ∉ buf) :
    (∀ tree, Line (tokens buf) tree →
      ∃ cmd mem s, (parsecmd buf).run 0 = .ok ((cmd, mem), s) ∧
        cmd.map (fun w => stringAt mem (buf.length + 1) w.1) = tree.map some) ∧
    ((∀ tree, ¬ Line (tokens buf) tree) → ∃ e, (parsecmd buf).run 0 = .error e ∧ e ≠ .fuel) := by
  constructor
  · intro tree h
    obtain ⟨⟨cmd, mem⟩, s, hrun, htree⟩ := exists_run_of_wp (wp_parsecmd_complete hnul h)
    exact ⟨cmd, mem, s, hrun, htree⟩
  · intro hnone
    have hsound := wp_parsecmd_sound hnul
    cases hrun : (parsecmd buf).run 0 with
    | ok r =>
      obtain ⟨tree, h⟩ := wp_elim hsound hrun
      exact absurd h (hnone tree)
    | error e =>
      unfold wp at hsound
      rw [hrun] at hsound
      exact ⟨e, rfl, hsound⟩

def pipeRedir : List UInt8 := ['a', '|', 'b', '>', 'c'].map Char.toUInt8

theorem parsecmd_correct_pipeRedir :
    ∃ cmd mem s, (parsecmd pipeRedir).run 0 = .ok ((cmd, mem), s) ∧
      cmd.map (fun w => stringAt mem (pipeRedir.length + 1) w.1) =
        (Cmd.pipe (.exec [['a'.toUInt8]])
          (.redir (.exec [['b'.toUInt8]]) ['c'.toUInt8] (O_WRONLY ||| O_CREATE ||| O_TRUNC) 1)).map
            some := by
  apply (parsecmd_correct pipeRedir (by decide)).1
  have hleft : Exec [.word ['a'.toUInt8]] (.exec [['a'.toUInt8]]) :=
    .words .nil (.cons _ .nil .nil) (by decide)
  have hright : Exec [.word ['b'.toUInt8], .op .output, .word ['c'.toUInt8]]
      (.redir (.exec [['b'.toUInt8]]) ['c'.toUInt8] (O_WRONLY ||| O_CREATE ||| O_TRUNC) 1) :=
    .words .nil (.cons _ (.cons .output _ .nil) .nil) (by decide)
  exact .last (.pipe hleft (.last hright)) 0

end Xv6.Sh
