import Xv6.ShLex

/-!
# The parser and the grammar

Each parsing function, started where the tokens begin with something that derives from its
nonterminal and go on with something that may follow it, takes just that and returns its
tree. Whatever it returns comes from a derivation, and it does not run out of calls.
-/
namespace Xv6.Sh

open Prog

section Trees

variable {V W : Type}

def Redir.map (f : V → W) (r : Redir V) : Redir W := { r with file := f r.file }

def Cmd.map (f : V → W) : Cmd V → Cmd W
  | .exec argv => .exec (argv.map f)
  | .redir cmd file mode fd => .redir (cmd.map f) (f file) mode fd
  | .pipe left right => .pipe (left.map f) (right.map f)
  | .list left right => .list (left.map f) (right.map f)
  | .back cmd => .back (cmd.map f)

/-- Every word of the command has the property. -/
def Cmd.All (P : W → Prop) : Cmd W → Prop
  | .exec argv => ∀ w ∈ argv, P w
  | .redir cmd file _ _ => cmd.All P ∧ P file
  | .pipe left right => left.All P ∧ right.All P
  | .list left right => left.All P ∧ right.All P
  | .back cmd => cmd.All P

lemma map_foldl_redircmd (f : V → W) (rs : List (Redir V)) (cmd : Cmd V) :
    (rs.foldl redircmd cmd).map f = (rs.map (Redir.map f)).foldl redircmd (cmd.map f) := by
  induction rs generalizing cmd with
  | nil => rfl
  | cons r rs ih => exact ih (redircmd cmd r)

lemma all_foldl_redircmd {P : W → Prop} {rs : List (Redir W)} {cmd : Cmd W} (hcmd : cmd.All P)
    (hrs : ∀ r ∈ rs, P r.file) : (rs.foldl redircmd cmd).All P := by
  induction rs generalizing cmd with
  | nil => exact hcmd
  | cons r rs ih =>
    obtain ⟨hr, hrs⟩ := List.forall_mem_cons.mp hrs
    have hall : (redircmd cmd r).All P := ⟨hcmd, hr⟩
    exact ih hall hrs

end Trees

/-- The tokens end or go on with one of these characters. -/
def Follow (cs : List Char) (ts : List Token) : Prop := ts = [] ∨ leads cs ts = true

variable {ts : List Token}

lemma leads_iff {cs : List Char} :
    leads cs ts = true ↔ ∃ t rest, ts = t :: rest ∧ ∃ c ∈ cs, t.lead = some c := by
  cases ts with
  | nil => simp [leads]
  | cons t rest => cases hl : t.lead <;> simp [leads, hl]

lemma Follow.not_leads {cs ds : List Char} (h : Follow cs ts) (hdisj : cs.all (· ∉ ds)) :
    leads ds ts = false := by
  rcases h with rfl | h
  · rfl
  · obtain ⟨t, rest, rfl, c, hc, hl⟩ := leads_iff.mp h
    rw [leads, hl]
    exact decide_eq_false (List.all_iff_forall_prop.mp hdisj c hc)

lemma Follow.mono {cs ds : List Char} (h : Follow cs ts) (hsub : cs ⊆ ds) : Follow ds ts := by
  refine h.imp_right fun h => ?_
  obtain ⟨t, rest, rfl, c, hc, hl⟩ := leads_iff.mp h
  exact leads_iff.mpr ⟨t, rest, rfl, c, hsub hc, hl⟩

lemma exists_op_of_leads (h : leads ['<', '>'] ts = true) : ∃ o rest, ts = .op o :: rest := by
  obtain ⟨t, rest, rfl, c, hc, hl⟩ := leads_iff.mp h
  cases t with
  | op o => exact ⟨o, rest, rfl⟩
  | word w => cases hl
  | _ =>
    cases hl
    exact absurd hc (by decide)

/-- The characters that begin one token only. -/
def single : List (Char × Token) :=
  [('|', .pipe), ('(', .lparen), (')', .rparen), (';', .semi), ('&', .amp)]

lemma exists_of_leads_single {c : Char} {t : Token} (ht : (c, t) ∈ single) (h : leads [c] ts = true) :
    ∃ rest, ts = t :: rest := by
  obtain ⟨u, rest, rfl, d, hd, hl⟩ := leads_iff.mp h
  obtain rfl : d = c := List.mem_singleton.mp hd
  have hsame : u = t := by
    unfold single at ht
    cases u with
    | word w => cases hl
    | op o => cases o <;> cases hl <;> simp at ht
    | _ =>
      cases hl
      simp only [List.mem_cons, Prod.mk.injEq, List.not_mem_nil, Char.reduceEq, true_and, false_and,
        false_or, or_false] at ht
      exact ht.symm
  exact ⟨rest, by rw [hsame]⟩

lemma exists_word_of_code {t : Token} (h : t.code = 'a'.toUInt8) : ∃ w, t = .word w := by
  cases t with
  | word w => exact ⟨w, rfl⟩
  | op o => cases o <;> exact absurd h (by decide)
  | _ => exact absurd h (by decide)

lemma Token.code_ne_zero (t : Token) : t.code ≠ 0 := by
  cases t with
  | word w =>
    show 'a'.toUInt8 ≠ 0
    decide
  | op o => cases o <;> decide
  | _ => decide

variable {buf : List UInt8} {s : ℕ}

/-- The redirections that were parsed are these, and their words are words of the string. -/
structure RedirsRead (buf : List UInt8) (rs : List (Redir Span)) (rs' : List (Redir (List UInt8))) :
    Prop where
  eq : rs.map (Redir.map (text buf)) = rs'
  spans : ∀ r ∈ rs, WordSpan buf r.file

lemma RedirsRead.nil : RedirsRead buf [] [] := ⟨rfl, fun _ h => absurd h List.not_mem_nil⟩

variable {rs' : List (Redir (List UInt8))}

lemma RedirsRead.cons {rs : List (Redir Span)} {o : Op} {w : Span} (hw : WordSpan buf w)
    (h : RedirsRead buf rs rs') :
    RedirsRead buf (redirOf (Token.op o).code w :: rs) (redirection o (text buf w) :: rs') := by
  have hfile : (redirOf (Token.op o).code w).file = w := by cases o <;> rfl
  have hmap : (redirOf (Token.op o).code w).map (text buf) = redirection o (text buf w) := by
    cases o <;> rfl
  refine ⟨?_, ?_⟩
  · rw [List.map_cons, hmap, h.eq]
  · rw [List.forall_mem_cons, hfile]
    exact ⟨hw, h.spans⟩

lemma RedirsRead.append {rs qs : List (Redir Span)} {rs' qs' : List (Redir (List UInt8))}
    (h : RedirsRead buf rs rs') (h' : RedirsRead buf qs qs') :
    RedirsRead buf (rs ++ qs) (rs' ++ qs') := by
  refine ⟨by rw [List.map_append, h.eq, h'.eq], ?_⟩
  intro r hr
  exact (List.mem_append.mp hr).elim (h.spans r) (h'.spans r)

/-- The command that was parsed has this tree, and its words are words of the string. -/
structure CmdRead (buf : List UInt8) (cmd : Cmd Span) (tree : Cmd (List UInt8)) : Prop where
  eq : cmd.map (text buf) = tree
  spans : cmd.All (WordSpan buf)

variable {tree : Cmd (List UInt8)}

lemma RedirsRead.foldl {rs : List (Redir Span)} {cmd : Cmd Span} (h : RedirsRead buf rs rs')
    (hcmd : CmdRead buf cmd tree) :
    CmdRead buf (rs.foldl redircmd cmd) (rs'.foldl redircmd tree) := by
  refine ⟨?_, all_foldl_redircmd hcmd.spans h.spans⟩
  rw [map_foldl_redircmd, h.eq, hcmd.eq]

/-- A position after `s`, with the tokens that are left. -/
structure At (buf : List UInt8) (s : ℕ) (rest : List Token) (s' : ℕ) : Prop where
  ge : s ≤ s'
  le : s' ≤ buf.length
  toks : toksAt buf s' = rest

section Programs

variable (hnul : 0 ∉ buf) (hs : s ≤ buf.length)
include hnul hs

theorem parseredirs_complete {k : ℕ} (hk : buf.length < s + k) {ts rest : List Token}
    (h : Redirs ts rs') (htoks : toksAt buf s = ts ++ rest) (hrest : leads ['<', '>'] rest = false) :
    wp (parseredirs buf k) s (fun rs s' => At buf s rest s' ∧ RedirsRead buf rs rs')
      (fun _ => False) := by
  induction k generalizing s ts rs' with
  | zero => omega
  | succ k ih =>
    rw [parseredirs, wp_bind]
    apply wp_peek hnul hs (by decide)
    intro s₁ h1 h2 h3 _
    rw [wp_ite]
    cases h with
    | nil =>
      rw [List.nil_append] at htoks
      rw [htoks, hrest, if_neg (by decide)]
      exact ⟨⟨h1, h2, h3.trans htoks⟩, .nil⟩
    | cons o w h =>
      have hlead : leads ['<', '>'] (toksAt buf s) = true := by
        rw [htoks]
        cases o <;> rfl
      rw [hlead, if_pos rfl, wp_bind]
      apply wp_gettoken_cons hnul h2 (h3.trans htoks)
      intro tok s₂ hlt₂ hle₂ htoks₂ hret₂ _
      rw [wp_bind]
      apply wp_gettoken_cons hnul hle₂ htoks₂
      intro tok' s₃ hlt₃ hle₃ htoks₃ hret₃ hword₃
      obtain ⟨hspan, htext⟩ := hword₃ w rfl
      rw [wp_ite, if_neg (show ¬ tok'.ret ≠ 'a'.toUInt8 from not_not.mpr hret₃), wp_bind]
      apply wp_call (ih hle₃ (by omega) h htoks₃)
      rintro rs s₄ ⟨hat, hread⟩
      refine ⟨⟨by have := hat.ge; omega, hat.le, hat.toks⟩, ?_⟩
      rw [hret₂, ← htext]
      exact hread.cons hspan

theorem parseredirs_sound {k : ℕ} (hk : buf.length < s + k) :
    wp (parseredirs buf k) s
      (fun rs s' => ∃ ts rs', toksAt buf s = ts ++ toksAt buf s' ∧ At buf s (toksAt buf s') s' ∧
        Redirs ts rs' ∧ RedirsRead buf rs rs')
      (· ≠ .fuel) := by
  induction k generalizing s with
  | zero => omega
  | succ k ih =>
    rw [parseredirs, wp_bind]
    apply wp_peek hnul hs (by decide)
    intro s₁ h1 h2 h3 _
    rw [wp_ite]
    split
    · next hlead =>
      obtain ⟨o, rest, htoks⟩ := exists_op_of_leads hlead
      rw [wp_bind]
      apply wp_gettoken_cons hnul h2 (h3.trans htoks)
      intro tok s₂ hlt₂ hle₂ htoks₂ hret₂ _
      rw [wp_bind]
      apply wp_gettoken hnul hle₂
      · intro _ tok' s₃ hret₃ _ _ _
        rw [wp_ite, if_pos (by rw [hret₃]; decide), wp_bind, wp_throw]
        decide
      · intro t rest₃ ht tok' s₃ hlt₃ hle₃ htoks₃ hret₃ hword₃
        rw [wp_ite]
        split
        · rw [wp_bind, wp_throw]
          decide
        · next hcode =>
          obtain ⟨w, rfl⟩ := exists_word_of_code (hret₃ ▸ not_not.mp hcode)
          obtain ⟨hspan, htext⟩ := hword₃ w rfl
          rw [wp_bind]
          apply wp_call (ih hle₃ (by omega))
          rintro rs s₄ ⟨ts, rs', hts, hat, hredirs, hread⟩
          refine ⟨.op o :: .word w :: ts, redirection o w :: rs', ?_, ?_, .cons o w hredirs, ?_⟩
          · rw [htoks, ← htoks₂, ht, ← htoks₃, hts]
            rfl
          · exact ⟨by have := hat.ge; omega, hat.le, rfl⟩
          · rw [hret₂, ← htext]
            exact hread.cons hspan
    · exact ⟨[], [], h3.symm, ⟨h1, h2, rfl⟩, .nil, .nil⟩

theorem argLoop_complete {k : ℕ} (hk : buf.length < s + k) {ts rest : List Token}
    {ws : List (List UInt8)} {rs' qs' : List (Redir (List UInt8))} (h : Args ts ws rs')
    (htoks : toksAt buf s = ts ++ rest) (hrest : Follow ['|', ')', '&', ';'] rest)
    {argv : List Span} (hargv : ∀ w ∈ argv, WordSpan buf w) (hmax : argv.length + ws.length < MAXARGS)
    {qs : List (Redir Span)} (hqs : RedirsRead buf qs qs') :
    wp (argLoop buf k argv qs) s
      (fun cmd s' => At buf s rest s' ∧
        CmdRead buf cmd ((qs' ++ rs').foldl redircmd (.exec (argv.map (text buf) ++ ws))))
      (fun _ => False) := by
  induction k generalizing s ts ws rs' qs' argv qs with
  | zero => omega
  | succ k ih =>
    rw [argLoop, wp_bind]
    apply wp_peek hnul hs (by decide)
    intro s₁ h1 h2 h3 _
    cases h with
    | nil =>
      rw [List.nil_append] at htoks
      have hread : CmdRead buf (qs.foldl redircmd (.exec argv))
          ((qs' ++ []).foldl redircmd (.exec (argv.map (text buf) ++ []))) := by
        rw [List.append_nil, List.append_nil]
        exact hqs.foldl ⟨rfl, hargv⟩
      rw [wp_ite]
      split
      · exact ⟨⟨h1, h2, h3.trans htoks⟩, hread⟩
      · next hlead =>
        have hnil : toksAt buf s = [] := by
          rcases hrest with hnil | hlead'
          · rw [htoks, hnil]
          · exact absurd (htoks ▸ hlead') hlead
        rw [wp_bind]
        apply wp_gettoken hnul h2
        · intro _ tok s₂ hret h4 h5 h6
          rw [wp_ite, if_pos hret]
          exact ⟨⟨by omega, h5, by rw [h6, ← htoks, hnil]⟩, hread⟩
        · intro t rest' ht
          rw [h3, hnil] at ht
          cases ht
    | cons w hr h =>
      rename_i ts us ws rs rs'
      have hlead : leads ['|', ')', '&', ';'] (toksAt buf s) = false := by
        rw [htoks]
        rfl
      rw [hlead, wp_ite, if_neg (by decide), wp_bind]
      apply wp_gettoken_cons hnul h2 (h3.trans htoks)
      intro tok s₂ hlt₂ hle₂ htoks₂ hret₂ hword₂
      obtain ⟨hspan, htext⟩ := hword₂ w rfl
      rw [List.length_cons] at hmax
      rw [wp_ite, if_neg (hret₂ ▸ Token.code_ne_zero _), wp_ite,
        if_neg (show ¬ tok.ret ≠ 'a'.toUInt8 from not_not.mpr hret₂), wp_ite,
        if_neg (by omega), wp_bind]
      have hnext : leads ['<', '>'] (us ++ rest) = false := by
        cases h with
        | nil => exact hrest.not_leads (by decide)
        | cons w hr h => rfl
      apply wp_call (parseredirs_complete hnul hle₂ (by omega) hr (htoks₂.trans (by simp)) hnext)
      rintro more s₃ ⟨hat, hmore⟩
      apply wp_call (ih hat.le (by have := hat.ge; omega) h hat.toks
        (List.forall_mem_append.mpr ⟨hargv, List.forall_mem_singleton.mpr hspan⟩)
        (by rw [List.length_append, List.length_singleton]; omega) (hqs.append hmore))
      rintro cmd s₄ ⟨hat', hcmd⟩
      refine ⟨⟨by have := hat.ge; have := hat'.ge; omega, hat'.le, hat'.toks⟩, ?_⟩
      rw [List.map_append, List.map_singleton, htext, List.append_assoc, List.append_assoc] at hcmd
      exact hcmd

theorem argLoop_sound {k : ℕ} (hk : buf.length < s + k) {qs' : List (Redir (List UInt8))}
    {argv : List Span} (hargv : ∀ w ∈ argv, WordSpan buf w) (hmax : argv.length < MAXARGS)
    {qs : List (Redir Span)} (hqs : RedirsRead buf qs qs') :
    wp (argLoop buf k argv qs) s
      (fun cmd s' => ∃ ts ws rs', toksAt buf s = ts ++ toksAt buf s' ∧ At buf s (toksAt buf s') s' ∧
        Args ts ws rs' ∧ argv.length + ws.length < MAXARGS ∧
        CmdRead buf cmd ((qs' ++ rs').foldl redircmd (.exec (argv.map (text buf) ++ ws))))
      (· ≠ .fuel) := by
  induction k generalizing s qs' argv qs with
  | zero => omega
  | succ k ih =>
    have hread : CmdRead buf (qs.foldl redircmd (.exec argv))
        ((qs' ++ []).foldl redircmd (.exec (argv.map (text buf) ++ []))) := by
      rw [List.append_nil, List.append_nil]
      exact hqs.foldl ⟨rfl, hargv⟩
    rw [argLoop, wp_bind]
    apply wp_peek hnul hs (by decide)
    intro s₁ h1 h2 h3 _
    rw [wp_ite]
    split
    · exact ⟨[], [], [], h3.symm, ⟨h1, h2, rfl⟩, .nil, hmax, hread⟩
    · rw [wp_bind]
      apply wp_gettoken hnul h2
      · intro hnil tok s₂ hret h4 h5 h6
        rw [wp_ite, if_pos hret]
        exact ⟨[], [], [], by rw [h6, ← h3, hnil]; rfl, ⟨by omega, h5, rfl⟩, .nil, hmax, hread⟩
      · intro t rest ht tok s₂ hlt₂ hle₂ htoks₂ hret₂ hword₂
        rw [wp_ite, if_neg (hret₂ ▸ Token.code_ne_zero _), wp_ite]
        split
        · rw [wp_bind, wp_throw]
          decide
        · next hcode =>
          obtain ⟨w, rfl⟩ := exists_word_of_code (hret₂ ▸ not_not.mp hcode)
          obtain ⟨hspan, htext⟩ := hword₂ w rfl
          rw [wp_ite]
          split
          · rw [wp_bind, wp_throw]
            decide
          · next hfew =>
            rw [wp_bind]
            apply wp_call (parseredirs_sound hnul hle₂ (by omega))
            rintro more s₃ ⟨ts, rs, hts, hat, hredirs, hmore⟩
            apply wp_call (ih hat.le (by have := hat.ge; omega)
              (List.forall_mem_append.mpr ⟨hargv, List.forall_mem_singleton.mpr hspan⟩)
              (by rw [List.length_append, List.length_singleton]; omega) (hqs.append hmore))
            rintro cmd s₄ ⟨us, ws, rs', hus, hat', hargs, hlen, hcmd⟩
            rw [List.length_append, List.length_singleton] at hlen
            refine ⟨.word w :: (ts ++ us), w :: ws, rs ++ rs', ?_, ?_, .cons w hredirs hargs, ?_, ?_⟩
            · rw [← h3, ht, ← htoks₂, hts, hus, List.cons_append, List.append_assoc]
            · exact ⟨by have := hat.ge; have := hat'.ge; omega, hat'.le, rfl⟩
            · rw [List.length_cons]
              omega
            · rw [List.map_append, List.map_singleton, htext, List.append_assoc,
                List.append_assoc] at hcmd
              exact hcmd

end Programs

/-- `line`, run where at least `k` calls are left, takes a line that is there. -/
def LineComplete (buf : List UInt8) (k : ℕ) (line : ShM (Cmd Span)) : Prop :=
  ∀ s ts tree rest, s ≤ buf.length → buf.length < s + k → Line ts tree → toksAt buf s = ts ++ rest →
    Follow [')'] rest →
    wp line s (fun cmd s' => At buf s rest s' ∧ CmdRead buf cmd tree) (fun _ => False)

/-- What `line` returns comes from a line that it has taken. -/
def LineSound (buf : List UInt8) (k : ℕ) (line : ShM (Cmd Span)) : Prop :=
  ∀ s, s ≤ buf.length → buf.length < s + k →
    wp line s (fun cmd s' => ∃ ts tree, toksAt buf s = ts ++ toksAt buf s' ∧
      At buf s (toksAt buf s') s' ∧ Line ts tree ∧ CmdRead buf cmd tree) (· ≠ .fuel)

section Commands

variable (hnul : 0 ∉ buf) (hs : s ≤ buf.length) {k : ℕ} (hk : buf.length ≤ s + k)
  {line : ShM (Cmd Span)}
include hnul hs hk

theorem parseblock_complete (hline : LineComplete buf k line) {ts us rest : List Token}
    {rs : List (Redir (List UInt8))} (h : Line ts tree) (hr : Redirs us rs)
    (htoks : toksAt buf s = .lparen :: (ts ++ .rparen :: us) ++ rest)
    (hrest : leads ['<', '>'] rest = false) : wp (parseblock buf line) s
      (fun cmd s' => At buf s rest s' ∧ CmdRead buf cmd (rs.foldl redircmd tree)) (fun _ => False) := by
  rw [parseblock, wp_bind]
  apply wp_peek hnul hs (by decide)
  intro s₁ h1 h2 h3 _
  have hlead : leads ['('] (toksAt buf s) = true := by
    rw [htoks]
    rfl
  rw [hlead, wp_ite, if_neg (by decide), wp_bind]
  apply wp_gettoken_cons hnul h2 (h3.trans htoks)
  intro _ s₂ hlt₂ hle₂ htoks₂ _ _
  rw [wp_bind]
  apply wp_call (hline s₂ ts tree (.rparen :: us ++ rest) hle₂ (by omega) h
    (htoks₂.trans (by simp)) (Or.inr rfl))
  rintro cmd s₃ ⟨hat₃, hcmd⟩
  have hge₃ := hat₃.ge
  rw [wp_bind]
  apply wp_peek hnul hat₃.le (by decide)
  intro s₄ h4 h5 h6 _
  have hlead₃ : leads [')'] (toksAt buf s₃) = true := by
    rw [hat₃.toks]
    rfl
  rw [hlead₃, wp_ite, if_neg (by decide), wp_bind]
  apply wp_gettoken_cons hnul h5 (h6.trans hat₃.toks)
  intro _ s₅ hlt₅ hle₅ htoks₅ _ _
  rw [wp_bind]
  apply wp_call (parseredirs_complete hnul hle₅ (by omega) hr htoks₅ hrest)
  rintro redirs s₆ ⟨hat₆, hredirs⟩
  have hge₆ := hat₆.ge
  exact ⟨⟨by omega, hat₆.le, hat₆.toks⟩, hredirs.foldl hcmd⟩

theorem parseblock_sound (hline : LineSound buf k line) {rest : List Token}
    (htoks : toksAt buf s = .lparen :: rest) :
    wp (parseblock buf line) s
      (fun cmd s' => ∃ ts tree, toksAt buf s = ts ++ toksAt buf s' ∧ At buf s (toksAt buf s') s' ∧
        Exec ts tree ∧ CmdRead buf cmd tree) (· ≠ .fuel) := by
  rw [parseblock, wp_bind]
  apply wp_peek hnul hs (by decide)
  intro s₁ h1 h2 h3 _
  have hlead : leads ['('] (toksAt buf s) = true := by
    rw [htoks]
    rfl
  rw [hlead, wp_ite, if_neg (by decide), wp_bind]
  apply wp_gettoken_cons hnul h2 (h3.trans htoks)
  intro _ s₂ hlt₂ hle₂ htoks₂ _ _
  rw [wp_bind]
  apply wp_call (hline s₂ hle₂ (by omega))
  rintro cmd s₃ ⟨ts, tree, hts, hat₃, hder, hcmd⟩
  have hge₃ := hat₃.ge
  rw [wp_bind]
  apply wp_peek hnul hat₃.le (by decide)
  intro s₄ h4 h5 h6 _
  rw [wp_ite]
  split
  · rw [wp_bind, wp_throw]
    decide
  · next hlead₃ =>
    obtain ⟨rest₃, htoks₃⟩ := exists_of_leads_single (t := .rparen) (by decide) (not_not.mp hlead₃)
    rw [wp_bind]
    apply wp_gettoken_cons hnul h5 (h6.trans htoks₃)
    intro _ s₅ hlt₅ hle₅ htoks₅ _ _
    rw [wp_bind]
    apply wp_call (parseredirs_sound hnul hle₅ (by omega))
    rintro redirs s₆ ⟨us, rs, hus, hat₆, hrs, hredirs⟩
    have hge₆ := hat₆.ge
    refine ⟨_, _, ?_, ⟨by omega, hat₆.le, rfl⟩, .block hder hrs, hredirs.foldl hcmd⟩
    rw [htoks, ← htoks₂, hts, htoks₃, ← htoks₅, hus]
    simp

theorem parseexec_complete (hline : LineComplete buf k line) {ts rest : List Token}
    (h : Exec ts tree) (htoks : toksAt buf s = ts ++ rest)
    (hrest : Follow ['|', ')', '&', ';'] rest) :
    wp (parseexec buf line) s (fun cmd s' => At buf s rest s' ∧ CmdRead buf cmd tree)
      (fun _ => False) := by
  rw [parseexec, wp_bind]
  apply wp_peek hnul hs (by decide)
  intro s₁ h1 h2 h3 _
  rw [wp_ite]
  cases h with
  | block h hr =>
    have hlead : leads ['('] (toksAt buf s) = true := by
      rw [htoks]
      rfl
    rw [hlead, if_pos rfl]
    apply wp_call (parseblock_complete hnul h2 (by omega) hline h hr (h3.trans htoks)
      (hrest.not_leads (by decide)))
    rintro cmd s₂ ⟨hat, hcmd⟩
    exact ⟨⟨h1.trans hat.ge, hat.le, hat.toks⟩, hcmd⟩
  | words hr h hmax =>
    rename_i ts us ws rs rs'
    have hargs (cs : List Char) (hcs : ['|', ')', '&', ';'].all (· ∉ cs)) :
        leads cs (us ++ rest) = false := by
      cases h with
      | nil => exact hrest.not_leads hcs
      | cons w hr h => rfl
    have hlead : leads ['('] (toksAt buf s) = false := by
      rw [htoks, List.append_assoc]
      cases hr with
      | nil => exact hargs ['('] (by decide)
      | cons o w hr => cases o <;> rfl
    rw [hlead, if_neg (by decide), wp_bind]
    rw [List.append_assoc] at htoks
    apply wp_call (parseredirs_complete hnul h2 (by omega) hr (h3.trans htoks)
      (hargs ['<', '>'] (by decide)))
    rintro redirs s₂ ⟨hat₂, hredirs⟩
    have hge₂ := hat₂.ge
    apply wp_call (argLoop_complete hnul hat₂.le (by omega) h hat₂.toks hrest
      (fun w hw => absurd hw List.not_mem_nil) (by rw [List.length_nil]; omega) hredirs)
    rintro cmd s₃ ⟨hat₃, hcmd⟩
    have hge₃ := hat₃.ge
    exact ⟨⟨by omega, hat₃.le, hat₃.toks⟩, hcmd⟩

theorem parseexec_sound (hline : LineSound buf k line) :
    wp (parseexec buf line) s
      (fun cmd s' => ∃ ts tree, toksAt buf s = ts ++ toksAt buf s' ∧ At buf s (toksAt buf s') s' ∧
        Exec ts tree ∧ CmdRead buf cmd tree) (· ≠ .fuel) := by
  rw [parseexec, wp_bind]
  apply wp_peek hnul hs (by decide)
  intro s₁ h1 h2 h3 _
  rw [wp_ite]
  split
  · next hlead =>
    obtain ⟨rest, htoks⟩ := exists_of_leads_single (t := .lparen) (by decide) hlead
    apply wp_call (parseblock_sound hnul h2 (by omega) hline (h3.trans htoks))
    rintro cmd s₂ ⟨ts, tree, hts, hat, hder, hcmd⟩
    exact ⟨ts, tree, h3 ▸ hts, ⟨h1.trans hat.ge, hat.le, rfl⟩, hder, hcmd⟩
  · rw [wp_bind]
    apply wp_call (parseredirs_sound hnul h2 (by omega))
    rintro redirs s₂ ⟨ts, rs, hts, hat₂, hrs, hredirs⟩
    have hge₂ := hat₂.ge
    apply wp_call (argLoop_sound hnul hat₂.le (by omega) (fun w hw => absurd hw List.not_mem_nil)
      (by decide) hredirs)
    rintro cmd s₃ ⟨us, ws, rs', hus, hat₃, hargs, hmax, hcmd⟩
    have hge₃ := hat₃.ge
    rw [List.length_nil, Nat.zero_add] at hmax
    refine ⟨ts ++ us, _, ?_, ⟨by omega, hat₃.le, rfl⟩, .words hrs hargs hmax, hcmd⟩
    rw [← h3, hts, hus, List.append_assoc]

theorem parsepipe_complete (hline : LineComplete buf k line) {m : ℕ} (hm : buf.length < s + m)
    {ts rest : List Token} (h : Pipe ts tree)
    (htoks : toksAt buf s = ts ++ rest) (hrest : Follow [')', '&', ';'] rest) :
    wp (parsepipe buf line m) s (fun cmd s' => At buf s rest s' ∧ CmdRead buf cmd tree)
      (fun _ => False) := by
  induction m generalizing s ts tree with
  | zero => omega
  | succ m ih =>
    rw [parsepipe, wp_bind]
    cases h with
    | last h =>
      apply wp_call (parseexec_complete hnul hs hk hline h htoks (hrest.mono (by decide)))
      rintro cmd s₁ ⟨hat, hcmd⟩
      rw [wp_bind]
      apply wp_peek hnul hat.le (by decide)
      intro s₂ h1 h2 h3 _
      rw [hat.toks, hrest.not_leads (by decide), wp_ite, if_neg (by decide)]
      exact ⟨⟨hat.ge.trans h1, h2, h3.trans hat.toks⟩, hcmd⟩
    | pipe h hr =>
      rename_i ts us left right
      rw [List.append_assoc] at htoks
      apply wp_call (parseexec_complete hnul hs hk hline h htoks (Or.inr rfl))
      rintro cmd s₁ ⟨hat, hcmd⟩
      have hge := hat.ge
      rw [wp_bind]
      apply wp_peek hnul hat.le (by decide)
      intro s₂ h1 h2 h3 _
      have hlead : leads ['|'] (toksAt buf s₁) = true := by
        rw [hat.toks]
        rfl
      rw [hlead, wp_ite, if_pos rfl, wp_bind]
      apply wp_gettoken_cons hnul h2 (h3.trans hat.toks)
      intro _ s₃ hlt₃ hle₃ htoks₃ _ _
      rw [wp_bind]
      apply wp_call (ih hle₃ (by omega) (by omega) hr htoks₃)
      rintro cmd' s₄ ⟨hat₄, hcmd'⟩
      have hge₄ := hat₄.ge
      refine ⟨⟨by omega, hat₄.le, hat₄.toks⟩, ?_, hcmd.spans, hcmd'.spans⟩
      rw [Cmd.map, hcmd.eq, hcmd'.eq]

theorem parsepipe_sound (hline : LineSound buf k line) {m : ℕ} (hm : buf.length < s + m) :
    wp (parsepipe buf line m) s
      (fun cmd s' => ∃ ts tree, toksAt buf s = ts ++ toksAt buf s' ∧ At buf s (toksAt buf s') s' ∧
        Pipe ts tree ∧ CmdRead buf cmd tree) (· ≠ .fuel) := by
  induction m generalizing s with
  | zero => omega
  | succ m ih =>
    rw [parsepipe, wp_bind]
    apply wp_call (parseexec_sound hnul hs hk hline)
    rintro cmd s₁ ⟨ts, tree, hts, hat, hder, hcmd⟩
    have hge := hat.ge
    rw [wp_bind]
    apply wp_peek hnul hat.le (by decide)
    intro s₂ h1 h2 h3 _
    rw [wp_ite]
    split
    · next hlead =>
      obtain ⟨rest, htoks⟩ := exists_of_leads_single (t := .pipe) (by decide) hlead
      rw [wp_bind]
      apply wp_gettoken_cons hnul h2 (h3.trans htoks)
      intro _ s₃ hlt₃ hle₃ htoks₃ _ _
      rw [wp_bind]
      apply wp_call (ih hle₃ (by omega) (by omega))
      rintro cmd' s₄ ⟨us, tree', hus, hat₄, hder', hcmd'⟩
      have hge₄ := hat₄.ge
      refine ⟨ts ++ .pipe :: us, .pipe tree tree', ?_, ⟨by omega, hat₄.le, rfl⟩, .pipe hder hder', ?_,
        hcmd.spans, hcmd'.spans⟩
      · rw [hts, htoks, ← htoks₃, hus, List.append_assoc, List.cons_append]
      · rw [Cmd.map, hcmd.eq, hcmd'.eq]
    · exact ⟨ts, tree, by rw [h3]; exact hts, ⟨hge.trans h1, h2, rfl⟩, .last hder, hcmd⟩

end Commands

section Lines

variable (hnul : 0 ∉ buf)
include hnul

theorem backLoop_complete (hs : s ≤ buf.length) {k n : ℕ} (hk : buf.length < s + k)
    {rest : List Token} {cmd : Cmd Span} (hcmd : CmdRead buf cmd tree)
    (htoks : toksAt buf s = List.replicate n .amp ++ rest) (hrest : leads ['&'] rest = false) :
    wp (backLoop buf k cmd) s (fun cmd s' => At buf s rest s' ∧ CmdRead buf cmd (backs n tree))
      (fun _ => False) := by
  induction k generalizing s n cmd tree with
  | zero => omega
  | succ k ih =>
    rw [backLoop, wp_bind]
    apply wp_peek hnul hs (by decide)
    intro s₁ h1 h2 h3 _
    rw [wp_ite]
    cases n with
    | zero =>
      rw [List.replicate_zero, List.nil_append] at htoks
      rw [htoks, hrest, if_neg (by decide)]
      exact ⟨⟨h1, h2, h3.trans htoks⟩, hcmd⟩
    | succ n =>
      rw [List.replicate_succ, List.cons_append] at htoks
      have hlead : leads ['&'] (toksAt buf s) = true := by
        rw [htoks]
        rfl
      rw [hlead, if_pos rfl, wp_bind]
      apply wp_gettoken_cons hnul h2 (h3.trans htoks)
      intro _ s₂ hlt₂ hle₂ htoks₂ _ _
      have hback : CmdRead buf (.back cmd) (.back tree) :=
        ⟨by rw [Cmd.map, hcmd.eq], hcmd.spans⟩
      apply wp_call (ih hle₂ (by omega) hback htoks₂)
      rintro cmd' s₃ ⟨hat, hcmd'⟩
      have hge := hat.ge
      exact ⟨⟨by omega, hat.le, hat.toks⟩, hcmd'⟩

theorem backLoop_sound (hs : s ≤ buf.length) {k : ℕ} (hk : buf.length < s + k) {cmd : Cmd Span}
    (hcmd : CmdRead buf cmd tree) : wp (backLoop buf k cmd) s
      (fun cmd s' => ∃ n, toksAt buf s = List.replicate n .amp ++ toksAt buf s' ∧
        At buf s (toksAt buf s') s' ∧ CmdRead buf cmd (backs n tree)) (· ≠ .fuel) := by
  induction k generalizing s cmd tree with
  | zero => omega
  | succ k ih =>
    rw [backLoop, wp_bind]
    apply wp_peek hnul hs (by decide)
    intro s₁ h1 h2 h3 _
    rw [wp_ite]
    split
    · next hlead =>
      obtain ⟨rest, htoks⟩ := exists_of_leads_single (t := .amp) (by decide) hlead
      rw [wp_bind]
      apply wp_gettoken_cons hnul h2 (h3.trans htoks)
      intro _ s₂ hlt₂ hle₂ htoks₂ _ _
      have hback : CmdRead buf (.back cmd) (.back tree) :=
        ⟨by rw [Cmd.map, hcmd.eq], hcmd.spans⟩
      apply wp_call (ih hle₂ (by omega) hback)
      rintro cmd' s₃ ⟨n, hn, hat, hcmd'⟩
      have hge := hat.ge
      refine ⟨n + 1, ?_, ⟨by omega, hat.le, rfl⟩, hcmd'⟩
      rw [htoks, ← htoks₂, hn, List.replicate_succ, List.cons_append]
    · exact ⟨0, h3.symm, ⟨h1, h2, rfl⟩, hcmd⟩

theorem parseline_complete (k : ℕ) : LineComplete buf k (parseline buf k) := by
  induction k with
  | zero =>
    intro s ts tree rest hs hk
    omega
  | succ k ih =>
    intro s ts tree rest hs hk h htoks hrest
    have hpipe (us vs : List Token) (n : ℕ) (tree : Cmd (List UInt8)) (h : Pipe us tree)
        (htoks : toksAt buf s = us ++ (List.replicate n .amp ++ vs)) (hvs : Follow [')', ';'] vs) :
        wp (parsepipe buf (parseline buf k) (k + 1)) s
          (fun cmd s' => wp (backLoop buf (k + 1) cmd) s'
            (fun cmd s' => At buf s vs s' ∧ CmdRead buf cmd (backs n tree)) (fun _ => False))
          (fun _ => False) := by
      have hfollow : Follow [')', '&', ';'] (List.replicate n .amp ++ vs) := by
        cases n with
        | zero => exact hvs.mono (by decide)
        | succ n => exact Or.inr rfl
      apply wp_call (parsepipe_complete hnul hs (by omega) ih (by omega) h htoks hfollow)
      rintro cmd s₁ ⟨hat, hcmd⟩
      have hge := hat.ge
      apply wp_call (backLoop_complete hnul hat.le (by omega) hcmd hat.toks (hvs.not_leads (by decide)))
      rintro cmd' s₂ ⟨hat₂, hcmd'⟩
      exact ⟨⟨hge.trans hat₂.ge, hat₂.le, hat₂.toks⟩, hcmd'⟩
    rw [parseline, wp_bind]
    simp only [wp_bind]
    cases h with
    | last h n =>
      rw [List.append_assoc] at htoks
      apply wp_call (hpipe _ _ n _ h htoks (hrest.mono (by decide)))
      intro cmd s₁ hback
      apply wp_call hback
      rintro cmd' s₂ ⟨hat, hcmd⟩
      apply wp_peek hnul hat.le (by decide)
      intro s₃ h1 h2 h3 _
      rw [hat.toks, hrest.not_leads (by decide), wp_ite, if_neg (by decide)]
      exact ⟨⟨hat.ge.trans h1, h2, h3.trans hat.toks⟩, hcmd⟩
    | list h n hr =>
      rename_i us vs left right
      rw [List.append_assoc, List.append_assoc, List.cons_append] at htoks
      apply wp_call (hpipe _ _ n _ h htoks (Or.inr rfl))
      intro cmd s₁ hback
      apply wp_call hback
      rintro cmd' s₂ ⟨hat, hcmd⟩
      have hge := hat.ge
      apply wp_peek hnul hat.le (by decide)
      intro s₃ h1 h2 h3 _
      have hlead : leads [';'] (toksAt buf s₂) = true := by
        rw [hat.toks]
        rfl
      rw [hlead, wp_ite, if_pos rfl, wp_bind]
      apply wp_gettoken_cons hnul h2 (h3.trans hat.toks)
      intro _ s₄ hlt₄ hle₄ htoks₄ _ _
      rw [wp_bind]
      apply wp_call (ih s₄ vs right rest hle₄ (by omega) hr htoks₄ hrest)
      rintro cmd₅ s₅ ⟨hat₅, hcmd₅⟩
      have hge₅ := hat₅.ge
      refine ⟨⟨by omega, hat₅.le, hat₅.toks⟩, ?_, hcmd.spans, hcmd₅.spans⟩
      rw [Cmd.map, hcmd.eq, hcmd₅.eq]

theorem parseline_sound (k : ℕ) : LineSound buf k (parseline buf k) := by
  induction k with
  | zero =>
    intro s hs hk
    omega
  | succ k ih =>
    intro s hs hk
    rw [parseline, wp_bind]
    apply wp_call (parsepipe_sound hnul hs (by omega) ih (by omega))
    rintro cmd s₁ ⟨ts, tree, hts, hat₁, hder, hcmd⟩
    have hge₁ := hat₁.ge
    rw [wp_bind]
    apply wp_call (backLoop_sound hnul hat₁.le (by omega) hcmd)
    rintro cmd₂ s₂ ⟨n, hn, hat₂, hcmd₂⟩
    have hge₂ := hat₂.ge
    rw [wp_bind]
    apply wp_peek hnul hat₂.le (by decide)
    intro s₃ h1 h2 h3 _
    rw [wp_ite]
    split
    · next hlead =>
      obtain ⟨rest, htoks⟩ := exists_of_leads_single (t := .semi) (by decide) hlead
      rw [wp_bind]
      apply wp_gettoken_cons hnul h2 (h3.trans htoks)
      intro _ s₄ hlt₄ hle₄ htoks₄ _ _
      rw [wp_bind]
      apply wp_call (ih s₄ hle₄ (by omega))
      rintro cmd₅ s₅ ⟨us, right, hus, hat₅, hder', hcmd₅⟩
      have hge₅ := hat₅.ge
      refine ⟨_, _, ?_, ⟨by omega, hat₅.le, rfl⟩, .list hder n hder', ?_, hcmd₂.spans, hcmd₅.spans⟩
      · rw [hts, hn, htoks, ← htoks₄, hus]
        simp
      · rw [Cmd.map, hcmd₂.eq, hcmd₅.eq]
    · refine ⟨_, _, ?_, ⟨by omega, h2, rfl⟩, .last hder n, hcmd₂⟩
      rw [hts, hn, h3, List.append_assoc]

end Lines

end Xv6.Sh
