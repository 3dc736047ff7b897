import Xv6.Find

/-!
# What `find` reports

A finite directory tree has files and devices at its leaves, each with a path. `find` handles
those whose last component is the target, in the order of the entries, and leaves the buffers
of the calls above it as they were.
-/
namespace Xv6.Find

open Function UserString Printf

/-- The name up to its NUL; a name of `DIRSIZ` characters has none. -/
def Dirent.text (de : Dirent) : Text := (List.ofFn de.name).takeWhile (· ≠ 0)

/-- The entries that `find` follows. -/
def Dirent.Followed (de : Dirent) : Prop :=
  de.inum ≠ 0 ∧ de.text ≠ [dot] ∧ de.text ≠ [dot, dot]

instance instDecidableFollowed (de : Dirent) : Decidable de.Followed :=
  inferInstanceAs (Decidable (_ ∧ _ ∧ _))

/-- What the paths of the entries begin with. No slash is added to the empty path, or to one
that ends in a slash. -/
def stem (path : Text) : Text :=
  if path = [] ∨ path.getLast? = some slash then path else path ++ [slash]

def join (path name : Text) : Text := stem path ++ name

def lastPart (path : Text) : Text := (path.reverse.takeWhile (· ≠ slash)).reverse

/-- A directory has a tree for each of its entries. -/
inductive Tree
  | file
  | device
  | dir (entries : List Dirent) (sub : ℕ → Tree)

def Tree.files : Tree → Text → List Text
  | .file, path => [path]
  | .device, path => [path]
  | .dir entries sub, path => entries.zipIdx.flatMap fun x =>
      if x.1.Followed then (sub x.2).files (join path x.1.text) else []

/-- The file system shows the tree at the path. Every `open` and `fstat` succeeds, and the path
of every directory leaves room for an entry. -/
def Tree.Shown (env : Env) : Tree → ℕ → Text → Prop
  | .file, d, path => env.opens d path = some .file ∧ env.fstat d path = true
  | .device, d, path => env.opens d path = some .device ∧ env.fstat d path = true
  | .dir entries sub, d, path =>
    (env.opens d path = some (.dir entries) ∧ env.fstat d path = true) ∧
      path.length + 1 + DIRSIZ + 1 ≤ PATH_SIZE ∧
      ∀ x ∈ entries.zipIdx, x.1.Followed → (sub x.2).Shown env (d + 1) (join path x.1.text)

theorem chars_text (de : Dirent) : StringAt de.chars 0 de.text := by
  have hchars : chars (List.ofFn de.name) = de.chars := by
    funext i
    rw [chars, Dirent.chars, List.getD_eq_getElem?_getD, List.getElem?_ofFn]
    split
    · rfl
    · rfl
  exact hchars ▸ stringAt_takeWhile (List.ofFn de.name)

theorem length_text (de : Dirent) : de.text.length ≤ DIRSIZ := by
  have hle := (List.takeWhile_sublist (· ≠ 0) (l := List.ofFn de.name)).length_le
  rwa [List.length_ofFn] at hle

theorem dirNameEqual_eq (de : Dirent) {target : Text} (h : 0 ∉ target) :
    dirNameEqual de target = decide (de.text = target) := by
  have hlt : de.text.length < DIRSIZ + 1 := Nat.lt_succ_of_le (length_text de)
  rw [dirNameEqual, strcmp_eq (chars_text de) (stringAt_chars h) hlt]
  simp

theorem isDotDirectory_eq (de : Dirent) :
    isDotDirectory de = decide (de.text = [dot] ∨ de.text = [dot, dot]) := by
  rw [isDotDirectory, dirNameEqual_eq de (by decide), dirNameEqual_eq de (by decide)]
  simp

theorem lastPart_append_slash (t : Text) : lastPart (t ++ [slash]) = [] := by
  simp [lastPart]

theorem lastPart_append {t : Text} {c : UInt8} (h : c ≠ slash) :
    lastPart (t ++ [c]) = lastPart t ++ [c] := by
  simp [lastPart, h]

/-- `base_name` points to the last component. -/
theorem baseName_at {s : ℕ → UInt8} (t u : Text) (h : StringAt s 0 (t ++ u)) :
    StringAt s (baseName s t.length) (lastPart t ++ u) := by
  induction t using List.reverseRecOn generalizing u with
  | nil => exact h
  | append_singleton t c ih =>
    rw [List.append_assoc] at h
    obtain ⟨hbytes, htail⟩ := stringAt_append.mp h
    obtain ⟨hc, -, hu⟩ := htail
    rw [Nat.zero_add] at hc hu
    rw [List.length_append, List.length_singleton, baseName, hc]
    by_cases hslash : c = slash
    · rw [if_neg (not_not.mpr hslash), hslash, lastPart_append_slash]
      exact hu
    · rw [if_pos hslash, lastPart_append hslash, List.append_assoc]
      exact ih _ h

/-- What is done with a match: the line, or the command with its words and the path. -/
def handled (words : Option (List Text)) (path : Text) : Event :=
  match words with
  | some words => .exec (words ++ [path])
  | none => .write (printLine (path.map UInt8.toNat))

theorem copyArgs_eq {words : List Text} {i : ℕ} (h : i + words.length ≤ MAXARG - 2) :
    copyArgs i words = some words := by
  induction words generalizing i with
  | nil => rfl
  | cons w ws ih =>
    rw [List.length_cons] at h
    rw [copyArgs, if_neg (by omega), ih (by omega)]
    rfl

/-- The words leave room for the path, and `fork` does not fail. -/
structure Runnable (env : Env) (words : Option (List Text)) : Prop where
  words : ∀ ws ∈ words, ws.length ≤ MAXARG - 2
  fork : ∀ n, env.fork n = true

theorem handleMatch_eq {env : Env} {words : Option (List Text)} (h : Runnable env words) (path : Text)
    (s : State) : handleMatch env path words s = s.emit (handled words path) := by
  cases words with
  | none => rfl
  | some ws =>
    have hws := h.words ws rfl
    rw [handleMatch, executeCommand, copyArgs_eq (by omega)]
    dsimp only
    rw [if_pos (h.fork _)]
    rfl

/-- A call that adds events and leaves the blocks up to `b`. -/
def Adds (b : ℕ) (s : State) (es : List Event) (o : Option State) : Prop :=
  ∃ mem', o = some { mem := mem', events := s.events ++ es } ∧ ∀ c ≤ b, mem' c = s.mem c

theorem stringAt_entry {buffer : ℕ → UInt8} {pre : Text} (h : BytesAt buffer 0 pre) (de : Dirent) :
    StringAt (update (memmove buffer pre.length de.chars DIRSIZ) (pre.length + DIRSIZ) 0) 0
      (pre ++ de.text) := by
  refine stringAt_append.mpr ⟨h.congr fun i _ hi => ?_, (chars_text de).move fun i hi => ?_⟩
  · rw [Nat.zero_add] at hi
    rw [update_of_ne (by omega), memmove, if_neg (by omega)]
  · have hle := hi.trans (length_text de)
    rw [Nat.zero_add, Nat.zero_add]
    by_cases hlast : i = DIRSIZ
    · rw [hlast, update_self]
      rfl
    · rw [update_of_ne (by omega), memmove, if_pos (by omega), Nat.add_sub_cancel_left]

theorem scan_adds {below : State → Option State} {b : ℕ} {pre : Text} {entries : List Dirent} {i : ℕ}
    {found : Dirent × ℕ → List Event}
    (hbelow : ∀ x ∈ entries.zipIdx i, x.1.Followed → ∀ s : State,
      StringAt (s.mem (b + 1)) 0 (pre ++ x.1.text) → Adds (b + 1) s (found x) (below s))
    {s : State} (hs : BytesAt (s.mem (b + 1)) 0 pre) :
    Adds b s ((entries.zipIdx i).flatMap fun x => if x.1.Followed then found x else [])
      (scan below (b + 1) pre.length entries s) := by
  induction entries generalizing i s with
  | nil => exact ⟨s.mem, by rw [scan]; simp, fun _ _ => rfl⟩
  | cons de es ih =>
    have hrest : ∀ x ∈ es.zipIdx (i + 1), x.1.Followed → ∀ s : State,
        StringAt (s.mem (b + 1)) 0 (pre ++ x.1.text) → Adds (b + 1) s (found x) (below s) :=
      fun x hx => hbelow x (by rw [List.zipIdx_cons]; exact List.mem_cons_of_mem _ hx)
    rw [List.zipIdx_cons, List.flatMap_cons]
    by_cases hfollowed : de.Followed
    · obtain ⟨hinum, hdot⟩ := hfollowed
      have hnodot : ¬ isDotDirectory de = true := by
        rw [isDotDirectory_eq, decide_eq_true_eq]
        exact fun h => h.elim hdot.1 hdot.2
      let buffer := update (memmove (s.mem (b + 1)) pre.length de.chars DIRSIZ) (pre.length + DIRSIZ) 0
      have hentry : StringAt buffer 0 (pre ++ de.text) := stringAt_entry hs de
      let s1 : State := { s with mem := update s.mem (b + 1) buffer }
      have hs1 : s1.mem (b + 1) = buffer := update_self ..
      obtain ⟨mem2, hcall, hmem2⟩ := hbelow (de, i) (by rw [List.zipIdx_cons]; exact List.mem_cons_self)
        ⟨hinum, hdot⟩ s1 (hs1.symm ▸ hentry)
      let s2 : State := { mem := mem2, events := s1.events ++ found (de, i) }
      have hs2 : BytesAt (s2.mem (b + 1)) 0 pre := by
        show BytesAt (mem2 (b + 1)) 0 pre
        rw [hmem2 (b + 1) le_rfl, hs1]
        exact (stringAt_append.mp hentry).1
      obtain ⟨mem3, hscan, hmem3⟩ := ih hrest hs2
      refine ⟨mem3, ?_, fun c hc => ?_⟩
      · rw [scan, if_neg hinum, if_neg hnodot]
        show (below s1).bind _ = _
        rw [hcall, Option.bind_some]
        dsimp only
        rw [if_pos ⟨hinum, hdot⟩, ← List.append_assoc]
        exact hscan
      · have hne : c ≠ b + 1 := by omega
        rw [hmem3 c hc]
        show mem2 c = _
        rw [hmem2 c (by omega)]
        exact update_of_ne hne ..
    · have hskip : scan below (b + 1) pre.length (de :: es) s = scan below (b + 1) pre.length es s := by
        rw [scan, isDotDirectory_eq]
        unfold Dirent.Followed at hfollowed
        by_cases hinum : de.inum = 0
        · rw [if_pos hinum]
        · rw [if_neg hinum, if_pos (by simp; tauto)]
      dsimp only
      rw [hskip, if_neg hfollowed, List.nil_append]
      exact ih hrest hs

section Tree

variable {env : Env} {words : Option (List Text)} {target path : Text} {goal : ℕ → UInt8} {d : ℕ}

def matched (words : Option (List Text)) (target : Text) (paths : List Text) : List Event :=
  (paths.filter (lastPart · = target)).map (handled words)

theorem lastPart_length_le (path : Text) : (lastPart path).length ≤ path.length := by
  have hle := (List.takeWhile_sublist (· ≠ slash) (l := path.reverse)).length_le
  rw [lastPart, List.length_reverse]
  exact hle.trans_eq List.length_reverse

theorem find_leaf (hrun : Runnable env words) (hgoal : StringAt goal 0 target) {f : File}
    (hf : f = .file ∨ f = .device) (hopen : env.opens d path = some f)
    (hstat : env.fstat d path = true) {fuel : ℕ} (hfuel : path.length < fuel) {s : State}
    (hs : StringAt (s.mem d) 0 path) :
    Adds d s (matched words target [path]) (find env goal words (fuel + 1) d s) := by
  have hlen : strlen (s.mem d) fuel 0 = some path.length := by
    rw [strlen_eq hs hfuel, Nat.zero_add]
  have hbase : StringAt (s.mem d) (baseName (s.mem d) path.length) (lastPart path) := by
    have h := baseName_at path [] (by rwa [List.append_nil])
    rwa [List.append_nil] at h
  have hcmp := strcmp_eq hbase hgoal ((lastPart_length_le path).trans_lt hfuel)
  have hfind : find env goal words (fuel + 1) d s =
      some (if lastPart path = target then handleMatch env path words s else s) := by
    rw [find]
    dsimp only
    rw [hlen, Option.bind_some, hs.text_eq, hopen]
    dsimp only
    rw [hstat, if_neg (by decide)]
    obtain rfl | rfl := hf
    · dsimp only
      rw [hcmp, Option.map_some]
      simp
    · dsimp only
      rw [hcmp, Option.map_some]
      simp
  rw [hfind, matched]
  by_cases heq : lastPart path = target
  · refine ⟨s.mem, ?_, fun _ _ => rfl⟩
    rw [if_pos heq, handleMatch_eq hrun, List.filter_cons_of_pos (by simpa using heq)]
    rfl
  · refine ⟨s.mem, ?_, fun _ _ => rfl⟩
    rw [if_neg heq, List.filter_cons_of_neg (by simpa using heq)]
    simp

theorem exists_bound {α : Type} {P : α → ℕ → Prop} {l : List α}
    (h : ∀ x ∈ l, ∃ k, ∀ fuel, k ≤ fuel → P x fuel) :
    ∃ k, ∀ fuel, k ≤ fuel → ∀ x ∈ l, P x fuel := by
  induction l with
  | nil => exact ⟨0, fun _ _ x hx => absurd hx List.not_mem_nil⟩
  | cons a l ih =>
    obtain ⟨k, hk⟩ := h a List.mem_cons_self
    obtain ⟨m, hm⟩ := ih fun x hx => h x (List.mem_cons_of_mem a hx)
    refine ⟨k + m, fun fuel hfuel x hx => ?_⟩
    obtain rfl | hx := List.mem_cons.mp hx
    · exact hk fuel (by omega)
    · exact hm fuel (by omega) x hx

theorem matched_dir (entries : List Dirent) (sub : ℕ → Tree) :
    matched words target ((Tree.dir entries sub).files path) =
      entries.zipIdx.flatMap fun x => if x.1.Followed then
        matched words target ((sub x.2).files (join path x.1.text)) else [] := by
  rw [matched, Tree.files, List.filter_flatMap, List.map_flatMap]
  congr 1
  funext x
  split
  · rfl
  · rfl

variable (words goal) in
/-- The buffer of a directory, with the place for the names. -/
theorem find_dir {entries : List Dirent} (hopen : env.opens d path = some (.dir entries))
    (hstat : env.fstat d path = true) (hroom : path.length + 1 + DIRSIZ + 1 ≤ PATH_SIZE) {fuel : ℕ}
    (hfuel : path.length < fuel) {s : State} (hs : StringAt (s.mem d) 0 path) :
    ∃ buffer, BytesAt buffer 0 (stem path) ∧ find env goal words (fuel + 1) d s =
      scan (find env goal words fuel (d + 1)) (d + 1) (stem path).length entries
        { s with mem := update s.mem (d + 1) buffer } := by
  have hlen : strlen (s.mem d) fuel 0 = some path.length := by
    rw [strlen_eq hs hfuel, Nat.zero_add]
  let copied : ℕ → UInt8 := fun i =>
    if 0 ≤ i ∧ i ≤ 0 + path.length then s.mem d i else s.mem (d + 1) i
  have hcopied : StringAt copied 0 path := hs.move fun i hi => if_pos ⟨Nat.zero_le _, by omega⟩
  have hlen' : strlen copied fuel 0 = some path.length := by
    rw [strlen_eq hcopied hfuel, Nat.zero_add]
  have hbytes : BytesAt copied 0 path := (stringAt_append.mp (by rwa [List.append_nil])).1
  have hslash : (path.length > 0 ∧ copied (path.length - 1) ≠ slash) ↔
      ¬ (path = [] ∨ path.getLast? = some slash) := by
    obtain rfl | ⟨t, c, rfl⟩ := List.eq_nil_or_concat path
    · simp
    · rw [List.concat_eq_append] at hbytes ⊢
      obtain ⟨hc, -⟩ := (bytesAt_append.mp hbytes).2
      rw [Nat.zero_add] at hc
      rw [List.length_append, List.length_singleton, Nat.add_sub_cancel, hc]
      simp
  have hfind : find env goal words (fuel + 1) d s =
      if path.length > 0 ∧ copied (path.length - 1) ≠ slash then
        scan (find env goal words fuel (d + 1)) (d + 1) (path.length + 1) entries
          { s with mem := update s.mem (d + 1) (update copied path.length slash) }
      else
        scan (find env goal words fuel (d + 1)) (d + 1) path.length entries
          { s with mem := update s.mem (d + 1) copied } := by
    rw [find]
    dsimp only
    rw [hlen, Option.bind_some, hs.text_eq, hopen]
    dsimp only
    rw [hstat, if_neg (by decide), if_neg (not_lt.mpr hroom), strcpy_eq hs hfuel, Option.bind_some]
    show (strlen copied fuel 0).bind _ = _
    rw [hlen', Option.bind_some]
  rw [hfind]
  by_cases hstem : path = [] ∨ path.getLast? = some slash
  · refine ⟨copied, ?_, ?_⟩
    · rwa [stem, if_pos hstem]
    · rw [if_neg (fun h => hslash.mp h hstem), stem, if_pos hstem]
  · refine ⟨update copied path.length slash, ?_, ?_⟩
    · rw [stem, if_neg hstem]
      refine bytesAt_append.mpr ⟨hbytes.congr fun i _ hi => ?_, ?_, by decide, trivial⟩
      · exact update_of_ne (by omega) ..
      · rw [Nat.zero_add, update_self]
    · rw [if_pos (hslash.mpr hstem), stem, if_neg hstem, List.length_append, List.length_singleton]

/-- `find` of a finite tree returns, and handles the matches. -/
theorem find_adds (hrun : Runnable env words) (hgoal : StringAt goal 0 target) {t : Tree}
    (hshown : t.Shown env d path) :
    ∃ k, ∀ fuel, k ≤ fuel → ∀ s : State, StringAt (s.mem d) 0 path →
      Adds d s (matched words target (t.files path)) (find env goal words fuel d s) := by
  induction t generalizing d path with
  | file | device =>
    obtain ⟨hopen, hstat⟩ := hshown
    refine ⟨path.length + 2, fun fuel hfuel s hs => ?_⟩
    obtain ⟨j, rfl⟩ : ∃ j, fuel = j + 1 := ⟨fuel - 1, by omega⟩
    exact find_leaf hrun hgoal (by simp) hopen hstat (by omega) hs
  | dir entries sub ih =>
    obtain ⟨⟨hopen, hstat⟩, hroom, hsub⟩ := hshown
    have hentries : ∀ x ∈ entries.zipIdx, ∃ k, ∀ fuel, k ≤ fuel → x.1.Followed → ∀ s : State,
        StringAt (s.mem (d + 1)) 0 (join path x.1.text) →
        Adds (d + 1) s (matched words target ((sub x.2).files (join path x.1.text)))
          (find env goal words fuel (d + 1) s) := by
      intro x hx
      by_cases hfollowed : x.1.Followed
      · obtain ⟨k, hk⟩ := ih x.2 (hsub x hx hfollowed)
        exact ⟨k, fun fuel hfuel _ => hk fuel hfuel⟩
      · exact ⟨0, fun _ _ h => absurd h hfollowed⟩
    obtain ⟨k, hk⟩ := exists_bound hentries
    refine ⟨k + path.length + 2, fun fuel hfuel s hs => ?_⟩
    obtain ⟨j, rfl⟩ : ∃ j, fuel = j + 1 := ⟨fuel - 1, by omega⟩
    obtain ⟨buffer, hbuffer, hfind⟩ := find_dir words goal hopen hstat hroom
      (show path.length < j by omega) hs
    rw [hfind, matched_dir]
    have hb : BytesAt (({ s with mem := update s.mem (d + 1) buffer } : State).mem (d + 1)) 0
        (stem path) := by
      show BytesAt (update s.mem (d + 1) buffer (d + 1)) 0 _
      rwa [update_self]
    obtain ⟨mem', hscan, hmem⟩ := scan_adds (hk j (by omega)) hb
    refine ⟨mem', hscan, fun c hc => (hmem c hc).trans ?_⟩
    have hne : c ≠ d + 1 := by omega
    exact update_of_ne hne ..

/-- `find` of a finite tree, from any memory: it returns, and it handles, in the order of the
entries, the files and devices whose last component is the target. -/
theorem find_handles_matches (hrun : Runnable env words) (hgoal : StringAt goal 0 target) {t : Tree}
    (hshown : t.Shown env 0 path) {mem : ℕ → ℕ → UInt8} (hpath : StringAt (mem 0) 0 path) :
    ∃ k, ∀ fuel, k ≤ fuel → ∃ mem', find env goal words fuel 0 ⟨mem, []⟩ =
      some ⟨mem', ((t.files path).filter (lastPart · = target)).map (handled words)⟩ := by
  obtain ⟨k, hk⟩ := find_adds hrun hgoal hshown
  refine ⟨k, fun fuel hfuel => ?_⟩
  obtain ⟨mem', hfind, -⟩ := hk fuel hfuel ⟨mem, []⟩ hpath
  exact ⟨mem', hfind⟩

end Tree

def entry (inum : ℕ) (name : Text) : Dirent := { inum := inum, name := fun i => name.getD i 0 }

/-- A directory `d` with itself, a free slot and the file `x`. -/
def smallDir : List Dirent := [entry 1 [dot], entry 0 [120], entry 2 [120]]

def smallEnv : Env where
  opens := fun _ path => if path = [100] then some (.dir smallDir) else some .file
  fstat := fun _ _ => true
  fork := fun _ => true

theorem smallDir_shown : (Tree.dir smallDir fun _ => .file).Shown smallEnv 0 [100] := by
  refine ⟨⟨rfl, rfl⟩, by decide, fun x hx hfollowed => ?_⟩
  have hne : join [100] x.1.text ≠ [100] := by
    intro h
    have hlen := congrArg List.length h
    rw [join, List.length_append] at hlen
    have hstem : (stem [100]).length = 2 := by decide
    rw [hstem, List.length_singleton] at hlen
    omega
  have hopen : smallEnv.opens 1 (join [100] x.1.text) = some .file := by
    unfold smallEnv
    dsimp only
    rw [if_neg hne]
  exact ⟨hopen, rfl⟩

/-- The command `e h` runs with the path `d/x`. -/
theorem find_handles_matches_small :
    ∃ k, ∀ fuel, k ≤ fuel → ∃ mem', find smallEnv (chars [120]) (some [[101], [104]]) fuel 0
      ⟨fun _ => chars [100], []⟩ = some ⟨mem', [.exec [[101], [104], [100, 47, 120]]]⟩ :=
  find_handles_matches ⟨fun ws hws => Option.some.inj hws ▸ (by decide), fun _ => rfl⟩ (stringAt_chars (by decide)) smallDir_shown
    (stringAt_chars (by decide))

/-- A directory that is opened by the empty path. -/
def emptyEnv : Env where
  opens := fun _ path => if path = [] then some (.dir [entry 2 [99]]) else some .file
  fstat := fun _ _ => true
  fork := fun _ => true

/-- With the empty path, the path of the entry `c` is `c` and not `/c`. When `fork` fails, a
match runs no command. -/
theorem find_empty_path :
    (find emptyEnv (chars [99]) none 9 0 ⟨fun _ => chars [], []⟩).map State.events =
        some [.write (printLine [99])] ∧
      printLine [99] ≠ printLine ([] ++ [slash.toNat] ++ [99]) ∧
      ∃ output, (find { smallEnv with fork := fun _ => false } (chars [120]) (some [[101]]) 9 0
        ⟨fun _ => chars [100], []⟩).map State.events = some [.write output] := by
  refine ⟨by decide +kernel, by decide, fprintf 2 "find: fork failed\n".toList ⟨fun _ => [], fun _ => 1⟩, ?_⟩
  decide +kernel

end Xv6.Find
