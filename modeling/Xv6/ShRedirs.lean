import Xv6.ShWiring
import Xv6.ShWords

/-!
# The order of redirections

`parseredirs` wraps each redirection around those before it, and `runcmd` begins with the
outermost. So the files are opened from the last one to the first, and a descriptor that is
redirected twice ends up with the first file.
-/
namespace Xv6.Sh

open Prog

/-- A block or a simple command, with the redirections in the order of the text and the
command without them. -/
inductive Redirected : List Token → List (Redir (List UInt8)) → Cmd (List UInt8) → Prop where
  | block {ts us : List Token} {cmd : Cmd (List UInt8)} {rs : List (Redir (List UInt8))}
      (h : Line ts cmd) (hr : Redirs us rs) :
      Redirected (.lparen :: (ts ++ .rparen :: us)) rs cmd
  | words {ts us : List Token} {ws : List (List UInt8)} {rs rs' : List (Redir (List UInt8))}
      (hr : Redirs ts rs) (h : Args us ws rs') (hmax : ws.length < MAXARGS) :
      Redirected (ts ++ us) (rs ++ rs') (.exec ws)

variable {rs : List (Redir (List UInt8))} {ts : List Token}

lemma Redirected.line {cmd : Cmd (List UInt8)} (h : Redirected ts rs cmd) :
    Line ts (rs.foldl redircmd cmd) := by
  have hexec : Exec ts (rs.foldl redircmd cmd) := by
    cases h with
    | block h hr => exact .block h hr
    | words hr h hmax => exact .words hr h hmax
  have hline := Line.last (.last hexec) 0
  rwa [List.replicate_zero, List.append_nil] at hline

section Std

variable {W : Type}

lemma std_foldl_redircmd {rs : List (Redir W)} {cmd : Cmd W} (hcmd : cmd.Std)
    (hrs : ∀ r ∈ rs, r.fd < 3) : (rs.foldl redircmd cmd).Std := by
  induction rs generalizing cmd with
  | nil => exact hcmd
  | cons r rs ih =>
    exact ih ⟨hrs r List.mem_cons_self, hcmd⟩ fun r' hr' => hrs r' (List.mem_cons_of_mem r hr')

lemma Cmd.Std.map {V : Type} (f : V → W) {cmd : Cmd V} (h : cmd.Std) : (cmd.map f).Std := by
  induction cmd with
  | exec argv => trivial
  | redir cmd file mode fd ih => exact ⟨h.1, ih h.2⟩
  | pipe left right ihl ihr => exact ⟨ihl h.1, ihr h.2⟩
  | list left right ihl ihr => exact ⟨ihl h.1, ihr h.2⟩
  | back cmd ih => exact ih h

end Std

lemma Redirs.std (h : Redirs ts rs) : ∀ r ∈ rs, r.fd < 3 := by
  induction h with
  | nil => exact fun r hr => absurd hr List.not_mem_nil
  | cons o w _ ih =>
    intro r hr
    obtain rfl | hr := List.mem_cons.mp hr
    · cases o with
      | input => exact (by decide : 0 < 3)
      | output => exact (by decide : 1 < 3)
      | append => exact (by decide : 1 < 3)
    · exact ih r hr

lemma Args.std {ws : List (List UInt8)} (h : Args ts ws rs) : ∀ r ∈ rs, r.fd < 3 := by
  induction h with
  | nil => exact fun r hr => absurd hr List.not_mem_nil
  | cons w hr _ ih =>
    intro r hmem
    obtain hmem | hmem := List.mem_append.mp hmem
    · exact hr.std r hmem
    · exact ih r hmem

lemma std_backs {cmd : Cmd (List UInt8)} (h : cmd.Std) (n : ℕ) : (backs n cmd).Std := by
  induction n with
  | zero => exact h
  | succ n ih =>
    rw [backs, Function.iterate_succ_apply']
    exact ih

/-- The parser makes redirections of the descriptors 0 and 1 only. -/
lemma Line.std {tree : Cmd (List UInt8)} (h : Line ts tree) : tree.Std :=
  @Line.rec (fun _ tree _ => tree.Std) (fun _ tree _ => tree.Std) (fun _ tree _ => tree.Std)
    (fun _ n ih => std_backs ih n)
    (fun _ n _ ih ihr => ⟨std_backs ih n, ihr⟩)
    (fun _ ih => ih)
    (fun _ _ ih ihr => ⟨ih, ihr⟩)
    (fun _ hr ih => std_foldl_redircmd ih hr.std)
    (fun hr h _ => std_foldl_redircmd trivial fun r hmem =>
      (List.mem_append.mp hmem).elim (hr.std r) (h.std r))
    ts tree h

section Order

variable {W : Type} {pipes : List (Place W)} {rs : List (Redir W)} {cmd : Cmd W}

/-- The place inside the redirections. -/
def within (rs : List (Redir W)) : Place W := rs.map .redir

/-- What a place within the redirections says: `rs'` are those that are still to come. -/
structure Within (rs : List (Redir W)) (cmd : Cmd W) (place : Place W) (c : Cmd W)
    (rs' rs'' : List (Redir W)) : Prop where
  eq : rs = rs' ++ rs''
  place : place = within rs''
  cmd : c = rs'.foldl redircmd cmd

variable {place : Place W}

lemma Within.last {c : Cmd W} {rs' rs'' : List (Redir W)} (h : Within rs cmd place c rs' rs'')
    (hlt : place.length < rs.length) :
    ∃ qs r, rs' = qs ++ [r] ∧ c = .redir (qs.foldl redircmd cmd) r.file r.mode r.fd := by
  obtain rfl | ⟨qs, r, rfl⟩ := List.eq_nil_or_concat rs'
  · rw [h.eq, h.place, within, List.length_map] at hlt
    exact absurd hlt (lt_irrefl _)
  · refine ⟨qs, r, List.concat_eq_append, ?_⟩
    rw [h.cmd, List.concat_eq_append, List.foldl_append]
    rfl

lemma Located.within {c : Cmd W} (h : Located pipes (rs.foldl redircmd cmd) place c)
    (hle : place.length ≤ rs.length) : ∃ rs' rs'', Within rs cmd place c rs' rs'' := by
  induction h with
  | root => exact ⟨rs, [], (List.append_nil rs).symm, rfl, rfl⟩
  | redir h ih =>
    obtain ⟨rs', rs'', hw⟩ := ih (Nat.le_of_succ_le hle)
    obtain ⟨qs, r, rfl, hc⟩ := hw.last hle
    injection hc with hcmd hfile hmode hfd
    subst hfile hmode hfd
    refine ⟨qs, r :: rs'', ?_, ?_, hcmd⟩
    · rw [hw.eq, List.append_assoc]
      rfl
    · rw [hw.place]
      rfl
  | pipeLeft h _ ih | pipeRight h _ ih | listLeft h ih | listRight h ih | back h ih =>
    obtain ⟨rs', rs'', hw⟩ := ih (Nat.le_of_succ_le hle)
    obtain ⟨qs, r, -, hc⟩ := hw.last hle
    cases hc

lemma Located.inside {c : Cmd W} (h : Located pipes (rs.foldl redircmd cmd) place c)
    (hlen : place.length = rs.length) : place = Sh.within rs ∧ c = cmd := by
  obtain ⟨rs', rs'', hw⟩ := h.within hlen.le
  have hnil : rs' = [] := by
    have heq := congrArg List.length hw.eq
    rw [List.length_append, ← hlen, hw.place, Sh.within, List.length_map] at heq
    exact List.length_eq_zero_iff.mp (by omega)
  obtain rfl : rs = rs'' := by
    rw [hw.eq, hnil, List.nil_append]
  refine ⟨hw.place, ?_⟩
  rw [hw.cmd, hnil]
  rfl

end Order

/-- A redirection with the file name that `runcmd` reads at its pointer. -/
def Redir.read (r : Redir (List UInt8)) : Redir (Option (List UInt8)) := r.map some

/-- The command that `runcmd` gets: the words are the strings at the pointers. -/
def readCmd (buf : List UInt8) (cmd : Cmd Span) (mem : Mem) : Cmd (Option (List UInt8)) :=
  cmd.map fun w => stringAt mem (buf.length + 1) w.1

variable {buf : List UInt8} {rs : List (Redir (List UInt8))} {inner : Cmd (List UInt8)}

lemma Redirected.parsecmd (hnul : 0 ∉ buf) (h : Redirected (tokens buf) rs inner) :
    ∃ cmd mem pos, (parsecmd buf).run 0 = .ok ((cmd, mem), pos) ∧
      readCmd buf cmd mem = (rs.map Redir.read).foldl redircmd (inner.map some) := by
  obtain ⟨⟨cmd, mem⟩, pos, hrun, htree⟩ := exists_run_of_wp (wp_parsecmd_complete hnul h.line)
  refine ⟨cmd, mem, pos, hrun, ?_⟩
  rw [readCmd, htree, map_foldl_redircmd]
  rfl

lemma Redirected.std (h : Redirected ts rs inner) :
    ((rs.map Redir.read).foldl redircmd (inner.map some)).Std := by
  have hstd := h.line.std.map some
  rwa [map_foldl_redircmd] at hstd

/-- `a>b`. -/
def once : List UInt8 := ['a', '>', 'b'].map Char.toUInt8

end Xv6.Sh
