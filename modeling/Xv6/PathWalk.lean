import Xv6.Namex
import Xv6.DirMap
import Mathlib.Data.List.TakeWhile

/-!
# Paths

A path is the list of its components, the maximal parts without slashes, each cut
to `DIRSIZ` characters. `namei` follows them from the root or from the working
directory, and `nameiparent` stops before the last one.
-/
namespace Xv6.Fs

open Function Prog

/-- The maximal parts of a path without slashes. -/
def parts (path : List UInt8) : List Name := (path.splitOn slash).filter (· ≠ [])

def components (path : List UInt8) : List Name := (parts path).map (·.take DIRSIZ)

section Components

variable {path : List UInt8}

lemma parts_nil : parts [] = [] := rfl

lemma parts_slash (path : List UInt8) : parts (slash :: path) = parts path := by
  have hsplit : (slash :: path).splitOn slash = [] :: path.splitOn slash := by
    simp [List.splitOn_cons_eq_if_modifyHead]
  rw [parts, hsplit, List.filter_cons_of_neg (by simp), parts]

lemma parts_dropWhile (path : List UInt8) : parts (path.dropWhile (· = slash)) = parts path := by
  induction path with
  | nil => rfl
  | cons c path ih =>
    by_cases hc : c = slash
    · rw [List.dropWhile_cons_of_pos (by simpa using hc), ih, hc, parts_slash]
    · rw [List.dropWhile_cons_of_neg (by simpa using hc)]

lemma parts_word {c : UInt8} (hc : c ≠ slash) (path : List UInt8) :
    parts (c :: path) = (c :: path).takeWhile (· ≠ slash) ::
      parts ((c :: path).dropWhile (· ≠ slash)) := by
  have hword : slash ∉ (c :: path).takeWhile (· ≠ slash) := by
    intro hx
    simpa using List.mem_takeWhile_imp hx
  have hne : (c :: path).takeWhile (· ≠ slash) ≠ [] := by simp [hc]
  have happ := List.takeWhile_append_dropWhile (p := (· ≠ slash)) (l := c :: path)
  cases hd : (c :: path).dropWhile (· ≠ slash) with
  | nil =>
    rw [hd, List.append_nil] at happ
    have hsplit : (c :: path).splitOn slash = [(c :: path).takeWhile (· ≠ slash)] := by
      conv_lhs => rw [← happ]
      exact List.splitOn_eq_singleton hword
    rw [parts, hsplit, List.filter_cons_of_pos (by simpa using hne)]
    rfl
  | cons b rest =>
    have hb : b = slash := by
      have hhead := List.head?_dropWhile_not (· ≠ slash) (c :: path)
      rw [hd] at hhead
      simpa using hhead
    rw [hd, hb] at happ
    have hsplit : (c :: path).splitOn slash =
        (c :: path).takeWhile (· ≠ slash) :: rest.splitOn slash := by
      conv_lhs => rw [← happ]
      exact List.splitOn_append_cons_self_of_not_mem hword rest
    rw [parts, hsplit, List.filter_cons_of_pos (by simpa using hne), hb, parts_slash, parts]

lemma head_dropWhile {c : UInt8} {s : List UInt8} (h : path.dropWhile (· = slash) = c :: s) :
    c ≠ slash := by
  have hhead := List.head?_dropWhile_not (· = slash) path
  rw [h] at hhead
  simpa using hhead

/-- `skipelem` splits off the first component. -/
lemma components_skipelem : components path =
    (skipelem path).elim [] fun p => p.2 :: components p.1 := by
  have hdrop := parts_dropWhile path
  unfold skipelem
  cases hs : path.dropWhile (· = slash) with
  | nil =>
    rw [hs] at hdrop
    rw [components, ← hdrop]
    rfl
  | cons c s =>
    have hc := head_dropWhile hs
    rw [hs, parts_word hc] at hdrop
    simp only [reduceCtorEq, if_false, Option.elim_some]
    rw [components, ← hdrop, components, parts_dropWhile]
    rfl

lemma length_skipelem {p : List UInt8 × Name} (h : skipelem path = some p) :
    p.1.length < path.length := by
  unfold skipelem at h
  cases hs : path.dropWhile (· = slash) with
  | nil =>
    rw [hs] at h
    cases h
  | cons c s =>
    have hc := head_dropWhile hs
    rw [hs] at h
    simp only [reduceCtorEq, if_false, Option.some.injEq] at h
    subst h
    have h1 : (c :: s).length ≤ path.length := hs ▸ (List.dropWhile_sublist _).length_le
    have h2 : ((c :: s).dropWhile (· ≠ slash)).length ≤ s.length := by
      rw [List.dropWhile_cons_of_pos (by simpa using hc)]
      exact (List.dropWhile_sublist _).length_le
    have h3 := (List.dropWhile_sublist (· = slash) (l := (c :: s).dropWhile (· ≠ slash))).length_le
    rw [List.length_cons] at h1
    exact (h3.trans h2).trans_lt h1

/-- The loop of `namex` runs over the components. -/
theorem elements_eq_components {fuel : ℕ} (hfuel : path.length ≤ fuel) :
    elements fuel path = components path := by
  induction fuel generalizing path with
  | zero =>
    obtain rfl := List.length_eq_zero_iff.mp (Nat.le_zero.mp hfuel)
    rfl
  | succ fuel ih =>
    rw [elements, components_skipelem]
    cases h : skipelem path with
    | none => rfl
    | some p =>
      have hlt := length_skipelem h
      simp only [Option.elim_some]
      rw [ih (by omega)]

end Components

def follow (N : ℕ → Node) (i : ℕ) (name : Name) : Option ℕ :=
  if (N i).type = .dir then (N i).map (cstr DIRSIZ name) else none

/-- The inode reached from `i` by looking the components up one after the other. -/
def resolve (N : ℕ → Node) (i : ℕ) (names : List Name) : Option ℕ := names.foldlM (follow N) i

/-- The directory reached by all components but the last, and the last one. -/
def resolveParent (N : ℕ → Node) (i : ℕ) (names : List Name) : Option (ℕ × Name) :=
  names.getLast?.bind fun name => (resolve N i names.dropLast).bind fun j =>
    if (N j).type = .dir then some (j, name) else none

section Resolve

variable {N : ℕ → Node}

lemma resolve_cons (i : ℕ) (name : Name) (names : List Name) :
    resolve N i (name :: names) = (follow N i name).bind fun j => resolve N j names := by
  rw [resolve, List.foldlM_cons]
  rfl

lemma walk_eq_resolve (i : ℕ) (names : List Name) :
    walk N false i names = (resolve N i names).map fun j => (j, []) := by
  induction names generalizing i with
  | nil => rfl
  | cons name names ih =>
    rw [walk, resolve_cons, follow]
    by_cases hdir : (N i).type = .dir
    · rw [if_neg (by simpa using hdir), if_neg (by simp), if_pos hdir, ← target_eq_map]
      cases (N i).target name with
      | none => rfl
      | some j => exact ih j
    · rw [if_pos hdir, if_neg hdir]
      rfl

lemma walk_eq_resolveParent (i : ℕ) (names : List Name) :
    walk N true i names = resolveParent N i names := by
  induction names generalizing i with
  | nil => rfl
  | cons name names ih =>
    rw [walk]
    by_cases hdir : (N i).type = .dir
    · rw [if_neg (by simpa using hdir)]
      cases names with
      | nil =>
        rw [if_pos ⟨rfl, rfl⟩, resolveParent]
        simp [resolve, hdir]
      | cons name' names =>
        rw [if_neg (by simp), resolveParent, List.getLast?_cons_cons, List.dropLast_cons_of_ne_nil
          (by simp), resolve_cons, follow, if_pos hdir, ← target_eq_map]
        cases (N i).target name with
        | none => cases (name' :: names).getLast? <;> rfl
        | some j => exact ih j
    · rw [if_pos hdir, resolveParent]
      cases names with
      | nil => simp [resolve, hdir]
      | cons name' names =>
        rw [List.dropLast_cons_of_ne_nil (by simp), resolve_cons, follow, if_neg hdir]
        cases (name :: name' :: names).getLast? <;> rfl

end Resolve

/-- A file system between two calls: no lock is held, and every reference is to an
inode in use, as is every inode without links. -/
structure Calm (sb : Superblock) (T : FileType → Prop) (s : State) : Prop where
  inv : FsInv sb T s
  unlocked : ∀ jp, (s.itable jp).locked = false
  linked : NoOrphan sb (fun jp => (s.itable jp).ref) s
  held : ∀ jp, 0 < (s.itable jp).ref → Allocated sb s.dinode (s.itable jp).inum

lemma Calm.holds {sb : Superblock} {T : FileType → Prop} {s : State} (h : Calm sb T s) :
    Holds (fun jp => (s.itable jp).ref) [] [] s where
  refs _ := rfl
  locks jp := by
    rw [h.unlocked jp]
    simp

/-- A directory graph, seen from the working directory in slot `cwd`: directories
are lists of whole entries, and entries name inodes in use. -/
structure Walkable (sb : Superblock) (cwd : Ip) (s : State) : Prop where
  calm : Calm sb (· = .dir) s
  size : ∀ i, Allocated sb s.dinode i → (s.dinode i).type = .dir →
    (s.dinode i).size % DIRENT = 0
  named : ∀ (i k : ℕ) (de : Dirent), (nodes sb s i).entries[k]? = some de → de.inum ≠ 0 →
    Allocated sb s.dinode de.inum
  root : Allocated sb s.dinode ROOTINO
  cwd : 0 < (s.itable cwd).ref

/-- At most one slot of the inode table is free. -/
def Scarce (s : State) : Prop :=
  ∀ jp kp, (s.itable jp).ref = 0 → (s.itable kp).ref = 0 → jp = kp

/-- The disk is as before, no lock is held, and the references in `L` were added. -/
structure Settled (L : List Ip) (s s' : State) : Prop where
  bitmap : s'.bitmap = s.bitmap
  dinode : s'.dinode = s.dinode
  data : s'.data = s.data
  logged : s'.logged = s.logged
  refs : ∀ jp, (s'.itable jp).ref = (s.itable jp).ref + L.count jp
  unlocked : ∀ jp, (s'.itable jp).locked = false

/-- The inode that `namei` has to return: `w`, or nothing. -/
def NameiPost (w : Option ℕ) (s : State) (r : Option Ip) (s' : State) : Prop :=
  match w with
  | none => r = none ∧ Settled [] s s'
  | some i => ∃ ip, r = some ip ∧ (s'.itable ip).inum = i ∧ Settled [ip] s s'

/-- The directory and the name that `nameiparent` has to return, or nothing. -/
def NameiparentPost (w : Option (ℕ × Name)) (s : State) (r : Option (Ip × Name)) (s' : State) :
    Prop :=
  match w with
  | none => r = none ∧ Settled [] s s'
  | some (i, name) => ∃ ip, r = some (ip, name) ∧ (s'.itable ip).inum = i ∧ Settled [ip] s s'

section Resolution

variable {sb : Superblock} {s s' : State} {cwd : Ip}

lemma type_ne_free {i : ℕ} (hi : Allocated sb s.dinode i) : (nodes sb s i).type ≠ .free := by
  rw [nodes, if_pos hi]
  exact hi.2.2

lemma Walkable.walkSafe (h : Walkable sb cwd s) (parent : Bool) {i : ℕ}
    (hi : Allocated sb s.dinode i) (names : List Name) :
    WalkSafe (nodes sb s) parent i names := by
  induction names generalizing i with
  | nil => trivial
  | cons name names ih =>
    refine ⟨type_ne_free hi, fun _ _ j hj => ih ?_⟩
    rw [Node.target] at hj
    obtain ⟨k, hk, hj⟩ := Option.bind_eq_some_iff.mp hj
    obtain ⟨⟨de, hde, hm⟩, -⟩ := find_eq_some_iff.mp hk
    rw [hde] at hj
    cases hj
    exact h.named i k de hde hm.1

lemma Walkable.start (h : Walkable sb cwd s) (path : List UInt8) :
    Allocated sb s.dinode (startOf s cwd path) := by
  unfold startOf
  split
  · exact h.root
  · exact h.calm.held cwd h.cwd

lemma settled_of_quiet {L : List Ip} (q : Quiet (fun jp => (s.itable jp).ref) s s')
    (hh : Holds (fun jp => (s.itable jp).ref) L [] s') : Settled L s s' where
  bitmap := q.bitmap
  dinode := q.dinode
  data := q.data
  logged := q.logged
  refs := hh.refs
  unlocked jp := by
    rw [hh.locks jp]
    simp

/-- A walk ends as `walk` says, or for want of a slot of the inode table. -/
lemma Walkable.wp_walk (h : Walkable sb cwd s) (parent : Bool) (path : List UInt8) :
    wp (namex sb cwd path parent) s (NameiparentPost
      (walk (nodes sb s) parent (startOf s cwd path) (components path)) s)
      fun e => e = .igetNoInodes ∧ Scarce s := by
  have hel : elements path.length path = components path := elements_eq_components le_rfl
  refine wp_call (wp_namex (T := (· = .dir)) rfl parent path h.calm.inv ⟨?_, ?_⟩ h.calm.holds
    h.calm.linked h.cwd (Or.inr (h.walkSafe parent (h.start path) _))) fun r s' hw => ?_
  · intro i hi hdir hsize
    exact absurd (h.size i hi hdir) hsize
  · intro hfull
    exact ⟨rfl, hfull⟩
  · rw [hel] at hw
    cases r with
    | none =>
      obtain ⟨hnone, hh⟩ := hw.none rfl
      rw [hnone]
      exact ⟨rfl, settled_of_quiet hw.quiet hh⟩
    | some p =>
      obtain ⟨hsome, hh⟩ := hw.some p.1 p.2 rfl
      rw [hsome]
      exact ⟨p.1, rfl, rfl, settled_of_quiet hw.quiet hh⟩

/-- Path resolution is walking the list of components. The only way not to return is
a panic of `iget`, and only if fewer than two slots of the inode table are free. -/
theorem path_resolution (h : Walkable sb cwd s) (path : List UInt8) :
    (((namei sb cwd path).run s = .error .igetNoInodes ∧ Scarce s) ∨
      ∃ r s', (namei sb cwd path).run s = .ok (r, s') ∧
        NameiPost (resolve (nodes sb s) (startOf s cwd path) (components path)) s r s') ∧
    (((nameiparent sb cwd path).run s = .error .igetNoInodes ∧ Scarce s) ∨
      ∃ r s', (nameiparent sb cwd path).run s = .ok (r, s') ∧
        NameiparentPost (resolveParent (nodes sb s) (startOf s cwd path) (components path))
          s r s') := by
  constructor
  · have hw : wp (namei sb cwd path) s (NameiPost
        (resolve (nodes sb s) (startOf s cwd path) (components path)) s)
        fun e => e = .igetNoInodes ∧ Scarce s := by
      rw [namei, wp_bind]
      refine wp_call (h.wp_walk false path) fun r s' hr => ?_
      rw [walk_eq_resolve] at hr
      rw [wp_pure]
      cases hres : resolve (nodes sb s) (startOf s cwd path) (components path) with
      | none =>
        rw [hres] at hr
        obtain ⟨rfl, hs⟩ := hr
        exact ⟨rfl, hs⟩
      | some i =>
        rw [hres] at hr
        obtain ⟨ip, rfl, hi, hs⟩ := hr
        exact ⟨ip, rfl, hi, hs⟩
    exact outcome_of_wp hw
  · have hw := h.wp_walk true path
    rw [walk_eq_resolveParent] at hw
    exact outcome_of_wp hw

end Resolution

section Planned

variable {plan : ℕ → Planned} {table : Ip → Inode} {T : FileType → Prop}

/-- A plan whose entries name planned inodes, all with links, the root among them. -/
structure GraphOk (plan : ℕ → Planned) : Prop where
  ok : PlanOk plan
  named : ∀ i, ∀ de ∈ (plan i).entries, de.inum ≠ 0 → (plan de.inum).type ≠ .free
  linked : ∀ i, (plan i).type ≠ .free → (plan i).nlink ≠ 0
  root : (plan 1).type ≠ .free

lemma GraphOk.calm (h : GraphOk plan) (ht : TableOk plan table)
    (hu : ∀ jp, (table jp).locked = false)
    (hheld : ∀ jp, 0 < (table jp).ref → (plan (table jp).inum).type ≠ .free) :
    Calm plainSb T (plain plan table) where
  inv := plain_inv h.ok ht
  unlocked := hu
  linked i hi hz := absurd hz (h.linked i hi.2.2)
  held jp hl := ⟨(ht.inums jp hl).1, (ht.inums jp hl).2, hheld jp hl⟩

lemma GraphOk.walkable (h : GraphOk plan) (ht : TableOk plan table)
    (hu : ∀ jp, (table jp).locked = false)
    (hheld : ∀ jp, 0 < (table jp).ref → (plan (table jp).inum).type ≠ .free) {cwd : Ip}
    (hcwd : 0 < (table cwd).ref) : Walkable plainSb cwd (plain plan table) where
  calm := h.calm ht hu hheld
  size i _ _ := Nat.mul_mod_right ..
  named i k de hde h0 := by
    rw [nodes_plain h.ok] at hde
    split at hde
    · next hi =>
      simp only at hde
      split at hde
      · rw [List.getElem?_map] at hde
        obtain ⟨e, he, rfl⟩ := Option.map_eq_some_iff.mp hde
        have hmem := List.mem_of_getElem? he
        have hlt := h.ok.inums i e hmem
        have hmod : e.inum % 65536 = e.inum := Nat.mod_eq_of_lt (by omega)
        have hinum : (Dirent.padded e.inum e.name).inum = e.inum := hmod
        rw [hinum] at h0 ⊢
        exact ⟨Nat.pos_of_ne_zero h0, hlt, h.named i e hmem h0⟩
      · cases hde
    · cases hde
  root := ⟨le_rfl, by decide, h.root⟩
  cwd := hcwd

lemma graphOk_root {es : List Dirent} (hlen : es.length ≤ 768)
    (hes : ∀ de ∈ es, de.inum = 0 ∨ de.inum = 1) : GraphOk (rootPlan es) where
  ok := planOk_root hlen fun de hde => by
    have := hes de hde
    omega
  named i de hde h0 := by
    unfold rootPlan at hde
    split at hde
    · rw [(hes de hde).resolve_left h0, rootPlan, if_pos rfl]
      simp
    · exact absurd hde List.not_mem_nil
  linked i hi := by
    unfold rootPlan at hi ⊢
    split
    · simp
    · next hne =>
      rw [if_neg hne] at hi
      exact absurd rfl hi
  root := by simp [rootPlan]

end Planned

lemma rootFs_walkable : Walkable plainSb rootSlot rootFs := by
  refine (graphOk_root (by decide) (by decide)).walkable (tableOk_firstSlots (by simp [rootPlan]))
    (fun _ => rfl) (fun jp hl => ?_) (by decide)
  have hlt : jp.val < 1 := by
    by_contra hc
    simp [firstSlots, hc] at hl
  have hinum : (firstSlots (rootPlan rootEntries) 1 jp).inum = 1 := by
    simp only [firstSlots]
    omega
  rw [hinum]
  simp [rootPlan]

theorem path_resolution_root :
    ((namei plainSb rootSlot [47, 46]).run rootFs = .error .igetNoInodes ∧ Scarce rootFs) ∨
      ∃ r s', (namei plainSb rootSlot [47, 46]).run rootFs = .ok (r, s') ∧
        NameiPost (resolve (nodes plainSb rootFs) (startOf rootFs rootSlot [47, 46])
          (components [47, 46])) rootFs r s' :=
  (path_resolution rootFs_walkable [47, 46]).1

/-- A root directory with a file `x`, inode 60, and 50 other inodes in the table. -/
def crowdedPlan (i : ℕ) : Planned :=
  if i = 1 then
    { type := .dir, major := 0, nlink := 1, entries := rootEntries ++ [⟨60, [120]⟩] }
  else if 2 ≤ i ∧ i ≤ 60 then
    { type := .file, major := 0, nlink := 1, entries := [] }
  else
    .free

def crowdedFs : State := plain crowdedPlan (firstSlots crowdedPlan NINODE)

lemma crowdedPlan_entries {i : ℕ} {de : Dirent} (h : de ∈ (crowdedPlan i).entries) :
    de ∈ rootEntries ++ [⟨60, [120]⟩] := by
  unfold crowdedPlan at h
  split at h
  · exact h
  · split at h
    · exact absurd h List.not_mem_nil
    · exact absurd h List.not_mem_nil

lemma crowdedPlan_type {i : ℕ} (h1 : 1 ≤ i) (h60 : i ≤ 60) : (crowdedPlan i).type ≠ .free := by
  unfold crowdedPlan
  split
  · simp
  · rw [if_pos ⟨by omega, h60⟩]
    simp

lemma crowdedFs_walkable : Walkable plainSb rootSlot crowdedFs := by
  have hg : GraphOk crowdedPlan := by
    refine ⟨⟨fun i => ?_, fun i de hde => ?_⟩, fun i de hde h0 => ?_, fun i hi => ?_, by decide⟩
    · unfold crowdedPlan
      split
      · decide
      · split
        · exact Nat.zero_le _
        · exact Nat.zero_le _
    · have hall : ∀ e ∈ rootEntries ++ [⟨60, [120]⟩], e.inum < 300 := by decide
      exact hall de (crowdedPlan_entries hde)
    · have hall : ∀ e ∈ rootEntries ++ [⟨60, [120]⟩], 1 ≤ e.inum ∧ e.inum ≤ 60 := by decide
      obtain ⟨h1, h60⟩ := hall de (crowdedPlan_entries hde)
      exact crowdedPlan_type h1 h60
    · unfold crowdedPlan at hi ⊢
      split
      · simp
      · next hne =>
        rw [if_neg hne] at hi
        split
        · simp
        · next hne' =>
          rw [if_neg hne'] at hi
          exact absurd rfl hi
  refine hg.walkable (tableOk_firstSlots (by decide)) (fun _ => rfl) (fun jp _ => ?_) (by decide)
  have hlt := jp.isLt
  simp only [NINODE] at hlt
  exact crowdedPlan_type (by simp [firstSlots]) (by simp only [firstSlots]; omega)

/-- With a full inode table `namei` of a file that is there stops the machine. -/
theorem namei_stops_on_full_table :
    Walkable plainSb rootSlot crowdedFs ∧
    resolve (nodes plainSb crowdedFs) (startOf crowdedFs rootSlot [47, 120])
      (components [47, 120]) = some 60 ∧
    ((namei plainSb rootSlot [47, 120]).run crowdedFs).map Prod.fst = .error .igetNoInodes :=
  ⟨crowdedFs_walkable, by decide +kernel, by decide +kernel⟩

end Xv6.Fs
