import Mathlib.Data.List.Nodup
import OpenCpi.Properties.FileNames
import OpenCpi.Vfs.Iterator

/-!
# Recursive listing

`next` joins the name of a directory to that of an entry, and `pushDir` joins it once more. With an absolute name
the second join does nothing; with a relative one another directory is opened than the one that was read.
-/

namespace OpenCpi.Vfs

open Util (Text slash dot segments)
open Os (joinNames relName relName_singleton relName_append relName_eq_nil segments_cut Plain)
open Directory (ValidName)

/-! ## Complete listings -/

/-- A name matches a pattern: `*` stands for any text, and `?` for any byte. -/
def Matches : Text → Text → Prop
  | [], str => str = []
  | p :: pat, str =>
    if p = star then ∃ front back, str = front ++ back ∧ Matches pat back
    else ∃ c rest, str = c :: rest ∧ (p = question ∨ p = c) ∧ Matches pat rest

/-- The paths of the entries that are not directories. -/
def Directory.files : Directory → List (List Text)
  | .nil => []
  | .file name _ rest => [name] :: rest.files
  | .dir name entries rest => entries.files.map (name :: ·) ++ rest.files

/-- What repeated calls give. -/
def Lists (fs : FileFs) (tree : FileTree) (it : Iterator) (isDir : Bool) (result : Option (List Text)) : Prop :=
  ∃ calls, it.list fs tree calls isDir = some result

/-- **The listing is complete**: each entry below the directory that is not a directory and that matches is
returned once, as its path. -/
def Complete (fs : FileFs) (tree : FileTree) (dir : Text) (below : Directory) (pattern : Text) (isDir : Bool) :
    Prop :=
  ∃ it result, Iterator.new fs tree dir pattern true = some it ∧ Lists fs tree it isDir (some result) ∧
    result.Nodup ∧
      ∀ str, str ∈ result ↔ ∃ p name, p ++ [name] ∈ below.files ∧ Matches pattern name ∧ str = relName (p ++ [name])

/-! ## When it holds -/

def isAbsolute (name : Text) : Bool := name.head? == some slash

def Directory.NoSubs : Directory → Prop
  | .nil => True
  | .file _ _ rest => rest.NoSubs
  | .dir .. => False

/-- `isDir` when all the entries have been read. -/
def Directory.flagAfter : Directory → Bool → Bool
  | .nil, isDir => isDir
  | .file _ stat rest, isDir => rest.flagAfter (existsDir (stat.map FileType.mode) isDir)
  | .dir _ entries rest, _ => rest.flagAfter (entries.flagAfter true)

/-- `isDir` is false after an entry that is not a directory: it is a file, or it is no socket and no block device and
`isDir` was false. -/
def SeenAsFile (stat : Option FileType) (isDir : Bool) : Prop :=
  stat = some .regular ∨ (stat ≠ some .socket ∧ stat ≠ some .blockDevice ∧ isDir = false)

instance (stat : Option FileType) (isDir : Bool) : Decidable (SeenAsFile stat isDir) :=
  inferInstanceAs (Decidable (_ ∨ _))

/-- No entry that is not a directory is taken for one. -/
def Directory.Settled : Directory → Bool → Prop
  | .nil, _ => True
  | .file _ stat rest, isDir => SeenAsFile stat isDir ∧ rest.Settled false
  | .dir _ entries rest, _ => entries.Settled true ∧ rest.Settled (entries.flagAfter true)

instance decidableSettled : (D : Directory) → (isDir : Bool) → Decidable (D.Settled isDir)
  | .nil, _ => inferInstanceAs (Decidable True)
  | .file _ stat rest, isDir =>
    have := decidableSettled rest false
    inferInstanceAs (Decidable (SeenAsFile stat isDir ∧ rest.Settled false))
  | .dir _ entries rest, _ =>
    have := decidableSettled entries true
    have := decidableSettled rest (entries.flagAfter true)
    inferInstanceAs (Decidable (entries.Settled true ∧ rest.Settled (entries.flagAfter true)))

/-- **When the listing is complete**: the name is absolute or the directory has no directories in it, and no other
entry is taken for one. -/
def ListedWhen (dir : Text) (below : Directory) (isDir : Bool) : Prop :=
  (isAbsolute dir = true ∨ below.NoSubs) ∧ below.Settled isDir

/-- There is a directory under a name that is opened in place of an entry's. -/
def Doubled (fs : FileFs) (tree : FileTree) (dir : Text) (below : Directory) : Prop :=
  ∃ name ∈ below.names, (fs.openDir tree (dir ++ slash :: (dir ++ slash :: name))).isSome

/-! ## Patterns -/

variable {str pat : Text}

theorem matches_star {str : Text} : Matches (star :: pat) str ↔ ∃ front back, str = front ++ back ∧ Matches pat back := by
  rw [Matches, if_pos rfl]

theorem matches_stars (pat : Text) : (pat.all (· == star)) = true ↔ Matches pat [] := by
  induction pat with
  | nil => exact iff_of_true rfl rfl
  | cons p pat ih =>
    rw [List.all_cons, Bool.and_eq_true, beq_iff_eq, ih]
    constructor
    · rintro ⟨rfl, h⟩
      exact matches_star.mpr ⟨[], [], rfl, h⟩
    · intro h
      unfold Matches at h
      split at h
      · next hp =>
        obtain ⟨front, back, hnil, hback⟩ := h
        rw [(List.append_eq_nil_iff.mp hnil.symm).2] at hback
        exact ⟨hp, hback⟩
      · obtain ⟨_, _, hnil, _⟩ := h
        exact nomatch hnil

theorem anyTail_iff {f : Text → Bool} : anyTail f str = true ↔
    ∃ front back, str = front ++ back ∧ back ≠ [] ∧ f back = true := by
  induction str with
  | nil =>
    refine iff_of_false Bool.false_ne_true ?_
    rintro ⟨front, back, hnil, hback, _⟩
    exact hback (List.append_eq_nil_iff.mp hnil.symm).2
  | cons c str ih =>
    rw [anyTail, Bool.or_eq_true, ih]
    constructor
    · rintro (h | ⟨front, back, rfl, hback⟩)
      · exact ⟨[], c :: str, rfl, List.cons_ne_nil _ _, h⟩
      · exact ⟨c :: front, back, rfl, hback⟩
    · rintro ⟨front, back, heq, hne, hback⟩
      cases front with
      | nil => exact .inl (heq ▸ hback)
      | cons c' front =>
        obtain ⟨_, rfl⟩ := List.cons.inj heq
        exact .inr ⟨front, back, rfl, hne, hback⟩

/-- **`glob` decides whether a name matches.** -/
theorem glob_iff (str pat : Text) : glob str pat = true ↔ Matches pat str := by
  induction pat generalizing str with
  | nil =>
    rw [glob, Matches]
    exact List.isEmpty_iff
  | cons p pat ih =>
    cases str with
    | nil => exact matches_stars (p :: pat)
    | cons c str =>
      rw [glob]
      split_ifs with hp hc
      · subst hp
        rw [Bool.or_eq_true, anyTail_iff, matches_star]
        constructor
        · rintro (⟨front, back, heq, _, hback⟩ | hpat)
          · exact ⟨front, back, heq, (ih back).mp hback⟩
          · obtain rfl := List.isEmpty_iff.mp hpat
            exact ⟨c :: str, [], (List.append_nil _).symm, rfl⟩
        · rintro ⟨front, back, heq, hback⟩
          by_cases hne : back = []
          · -- only stars are left, and the first of them takes all of the text
            subst hne
            cases pat with
            | nil => exact .inr rfl
            | cons p pat =>
              have hstars := (matches_stars (p :: pat)).mpr hback
              rw [List.all_cons, Bool.and_eq_true, beq_iff_eq] at hstars
              obtain ⟨rfl, hall⟩ := hstars
              have hmatches : Matches (star :: pat) (c :: str) :=
                matches_star.mpr ⟨c :: str, [], (List.append_nil _).symm, (matches_stars pat).mp hall⟩
              exact .inl ⟨[], c :: str, rfl, List.cons_ne_nil _ _, (ih _).mpr hmatches⟩
          · exact .inl ⟨front, back, heq, hne, (ih back).mpr hback⟩
      · rw [ih, Matches, if_neg hp]
        constructor
        · exact fun h => ⟨c, str, rfl, hc, h⟩
        · rintro ⟨c', rest, heq, _, h⟩
          exact (List.cons.inj heq).2 ▸ h
      · rw [Matches, if_neg hp]
        refine iff_of_false id ?_
        rintro ⟨c', rest, heq, hc', _⟩
        exact hc ((List.cons.inj heq).1 ▸ hc')

/-! ## Calls -/

variable {fs : FileFs} {tree : FileTree} {it it' : Iterator} {isDir isDir' : Bool} {result : Option (List Text)}

theorem next_succ {turns : Nat} {r : Result} (h : it.next fs tree turns isDir = some r) :
    it.next fs tree (turns + 1) isDir = some r := by
  induction turns generalizing it isDir with
  | zero => exact nomatch h
  | succ turns ih =>
    rw [Iterator.next] at h ⊢
    cases hturn : it.turn fs tree isDir with
    | returned str isDir' it' => rwa [hturn] at h
    | thrown => rwa [hturn] at h
    | more isDir' it' =>
      rw [hturn] at h
      dsimp only at h ⊢
      split at h
      · next hend => rwa [if_pos hend]
      · next hend =>
        rw [if_neg hend]
        exact ih h

theorem list_succ {calls : Nat} (h : it.list fs tree calls isDir = some result) :
    it.list fs tree (calls + 1) isDir = some result := by
  induction calls generalizing it isDir result with
  | zero => exact nomatch h
  | succ calls ih =>
    rw [Iterator.list] at h ⊢
    cases hnext : it.next fs tree calls isDir with
    | none =>
      rw [hnext] at h
      exact nomatch h
    | some r =>
      rw [hnext] at h
      rw [next_succ hnext]
      cases r with
      | done => exact h
      | thrown => exact h
      | entry str isDir' it' =>
        dsimp only at h ⊢
        obtain ⟨rest, hrest, rfl⟩ := Option.map_eq_some_iff.mp h
        rw [ih hrest]
        rfl

theorem list_mono {calls calls' : Nat} (hle : calls ≤ calls') (h : it.list fs tree calls isDir = some result) :
    it.list fs tree calls' isDir = some result := by
  induction hle with
  | refl => exact h
  | step _ ih => exact list_succ ih

/-- Calls give one result. -/
theorem Lists.unique {result' : Option (List Text)} (h : Lists fs tree it isDir result)
    (h' : Lists fs tree it isDir result') : result = result' := by
  obtain ⟨calls, h⟩ := h
  obtain ⟨calls', h'⟩ := h'
  have hmax := list_mono (Nat.le_max_left calls calls') h
  rw [list_mono (Nat.le_max_right calls calls') h'] at hmax
  exact (Option.some.inj hmax).symm

theorem Lists.of_returned {str : Text} (hturn : it.turn fs tree isDir = .returned str isDir' it')
    (h : Lists fs tree it' isDir' result) : Lists fs tree it isDir (result.map (str :: ·)) := by
  obtain ⟨calls, h⟩ := h
  refine ⟨calls + 2, ?_⟩
  rw [Iterator.list, Iterator.next, hturn]
  dsimp only
  rw [list_succ h]
  rfl

theorem Lists.of_thrown (hturn : it.turn fs tree isDir = .thrown) : Lists fs tree it isDir none := by
  refine ⟨2, ?_⟩
  rw [Iterator.list, Iterator.next, hturn]

theorem Lists.of_more (hturn : it.turn fs tree isDir = .more isDir' it') (hdirs : it'.dirs ≠ [])
    (h : Lists fs tree it' isDir' result) : Lists fs tree it isDir result := by
  obtain ⟨calls, h⟩ := h
  cases calls with
  | zero => exact nomatch h
  | succ calls =>
    have hnext : it.next fs tree (calls + 1) isDir = it'.next fs tree calls isDir' := by
      rw [Iterator.next, hturn]
      exact if_neg hdirs
    refine ⟨calls + 2, ?_⟩
    rw [Iterator.list] at h ⊢
    rw [hnext]
    cases hr : it'.next fs tree calls isDir' with
    | none =>
      rw [hr] at h
      exact nomatch h
    | some r =>
      rw [hr] at h
      cases r with
      | done => exact h
      | thrown => exact h
      | entry str isDir'' it'' =>
        dsimp only at h ⊢
        obtain ⟨rest, hrest, rfl⟩ := Option.map_eq_some_iff.mp h
        rw [list_succ hrest]
        rfl

theorem Lists.of_done (hturn : it.turn fs tree isDir = .more isDir' it') (hdirs : it'.dirs = []) :
    Lists fs tree it isDir (some []) := by
  refine ⟨2, ?_⟩
  rw [Iterator.list, Iterator.next, hturn]
  dsimp only
  rw [if_pos hdirs]

/-! ## Names -/

/-- The name of a directory below another one, by way of the names that are joined. -/
def nameBelow (dir : Text) (q : List Text) : Text :=
  if q = [] then dir else (if dir ≠ [slash] then dir ++ [slash] else dir) ++ relName q

/-- The iterator for a listing of `dir`, in some directories. -/
def inDirs (dir pattern : Text) (dirs : List Dir) : Iterator :=
  ⟨pattern, true, if dir = [slash] then 1 else dir.length + 1, dirs⟩

variable {dir pattern name m : Text} {q : List Text} {D F : Directory} {parents : List Dir}

theorem ValidName.plain (h : ValidName name) : Plain [name] := by
  intro c hc
  rw [List.mem_singleton.mp hc]
  exact ⟨h.1, h.2.1⟩

theorem joinNames_relative {s : Text} (hm : m ≠ []) (hs : s ≠ []) (hrel : isAbsolute s ≠ true) :
    joinNames m s = some ((if m ≠ [slash] then m ++ [slash] else m) ++ s) := by
  obtain ⟨c, rest, rfl⟩ := List.exists_cons_of_ne_nil hs
  have hc : c ≠ slash := fun hc => hrel (beq_iff_eq.mpr (congrArg some hc))
  rw [joinNames, if_neg hc, if_neg (mt List.length_eq_zero_iff.mp hm)]

theorem ValidName.relative (h : ValidName name) : isAbsolute name ≠ true := fun habs =>
  h.2.1 (List.mem_of_mem_head? (beq_iff_eq.mp habs))

theorem joinNames_valid (hm : m ≠ []) (h : ValidName name) :
    joinNames m name = some ((if m ≠ [slash] then m ++ [slash] else m) ++ name) :=
  joinNames_relative hm h.1 (ValidName.relative h)

theorem joinNames_absolute (h : isAbsolute name = true) : joinNames m name = some name := by
  cases name with
  | nil => exact nomatch h
  | cons c rest =>
    have hc : c = slash := Option.some.inj (beq_iff_eq.mp h)
    rw [joinNames, if_pos hc]

theorem ne_nil_of_absolute (h : isAbsolute m = true) : m ≠ [] := by
  rintro rfl
  exact nomatch h

theorem nameBelow_ne_nil (hdir : dir ≠ []) : nameBelow dir q ≠ [] := by
  unfold nameBelow
  split_ifs
  · exact hdir
  · exact List.append_ne_nil_of_left_ne_nil (List.append_ne_nil_of_left_ne_nil hdir _) _
  · exact List.append_ne_nil_of_left_ne_nil hdir _

theorem nameBelow_cons (hne : q ≠ []) :
    nameBelow dir q = (if dir ≠ [slash] then dir ++ [slash] else dir) ++ relName q := if_neg hne

/-- Below a directory there is another name than that of the root. -/
theorem nameBelow_ne_root (hdir : dir ≠ []) (hq : Plain q) (hne : q ≠ []) : nameBelow dir q ≠ [slash] := by
  intro heq
  rw [nameBelow_cons hne] at heq
  have hrel : relName q ≠ [] := mt (relName_eq_nil hq).mp hne
  have hlength := congrArg List.length heq
  have hpos : 0 < (relName q).length := List.length_pos_of_ne_nil hrel
  have hdir_pos : 0 < dir.length := List.length_pos_of_ne_nil hdir
  rw [List.length_append, List.length_singleton] at hlength
  split_ifs at hlength
  · rw [List.length_append] at hlength
    omega
  · omega

theorem joinNames_below (hdir : dir ≠ []) (hq : Plain q) (h : ValidName name) :
    joinNames (nameBelow dir q) name = some (nameBelow dir (q ++ [name])) := by
  rw [joinNames_valid (nameBelow_ne_nil hdir) h, nameBelow_cons (List.append_ne_nil_of_right_ne_nil _ (List.cons_ne_nil _ _))]
  by_cases hne : q = []
  · subst hne
    rw [nameBelow, if_pos rfl, List.nil_append, relName_singleton]
  · rw [if_pos (nameBelow_ne_root hdir hq hne), nameBelow_cons hne, relName_append hne (List.cons_ne_nil _ _),
      relName_singleton]
    simp only [List.append_assoc, List.singleton_append]

theorem entryName_below (hdir : dir ≠ []) (hq : Plain q) (h : ValidName name) {dirs : List Dir} :
    (inDirs dir pattern dirs).entryName ⟨nameBelow dir q, D⟩ name = some (relName (q ++ [name])) := by
  have hskip : (inDirs dir pattern dirs).skipLength = (if dir ≠ [slash] then dir ++ [slash] else dir).length := by
    show (if dir = [slash] then 1 else dir.length + 1) = _
    by_cases hroot : dir = [slash]
    · rw [if_pos hroot, if_neg (not_not.mpr hroot), hroot]
      rfl
    · rw [if_neg hroot, if_pos hroot, List.length_append]
      rfl
  have hname : nameBelow dir (q ++ [name]) = _ := nameBelow_cons (List.append_ne_nil_of_right_ne_nil _ (List.cons_ne_nil _ _))
  unfold Iterator.entryName
  rw [joinNames_below hdir hq h, hname, hskip]
  show (if _ then _ else _) = _
  rw [if_pos (by rw [List.length_append]; exact Nat.le_add_right _ _), List.drop_left]

theorem isAbsolute_below (h : isAbsolute dir = true) : isAbsolute (nameBelow dir q) = true := by
  cases dir with
  | nil => exact nomatch h
  | cons c rest =>
    unfold nameBelow
    split_ifs
    · exact h
    · exact h
    · exact h

/-! ## Opening -/

theorem resolve_append (path cs ds : List Text) :
    tree.resolve path (cs ++ ds) = (tree.resolve path cs).bind (tree.resolve · ds) := by
  induction cs generalizing path with
  | nil => rfl
  | cons c cs ih =>
    rw [List.cons_append, FileTree.resolve, FileTree.resolve]
    split_ifs
    · exact ih path
    · exact ih path.dropLast
    · exact ih (path ++ [c])
    · rfl

theorem segments_noSlash (h : slash ∉ name) : segments name = [name] := by
  have hsegs := Os.segments_relName (List.cons_ne_nil name []) fun c hc => List.mem_singleton.mp hc ▸ h
  rwa [relName_singleton] at hsegs

theorem atPath_snoc (path : List Text) : F.atPath (path ++ [name]) = (F.atPath path).bind (·.find name) := by
  unfold Directory.atPath
  rw [List.foldlM_append]
  cases path.foldlM (fun d name => Directory.find name d) F with
  | none => rfl
  | some d => exact Option.bind_fun_some (d.find name)

/-- A name that goes on with an entry opens the directory of this name. -/
theorem opendir_snoc (h : ValidName name) (native : Text) (hopen : tree.opendir native = some F) :
    tree.opendir (native ++ slash :: name) = F.find name := by
  unfold FileTree.opendir at hopen ⊢
  obtain ⟨path, hpath, hF⟩ := Option.bind_eq_some_iff.mp hopen
  rw [segments_cut, resolve_append, hpath, segments_noSlash h.2.1]
  show (tree.resolve path [name]).bind _ = _
  have hfind : tree.root.atPath (path ++ [name]) = F.find name := by rw [atPath_snoc, hF]; rfl
  rw [FileTree.resolve, if_neg (not_or.mpr ⟨h.1, h.2.2.1⟩), if_neg h.2.2.2, hfind]
  cases hname : F.find name with
  | none => rfl
  | some D => exact hfind.trans hname

/-- **The name that is joined for an entry opens its directory.** -/
theorem openDir_joined (habs : isAbsolute m = true) (h : ValidName name) (hopen : fs.openDir tree m = some F) :
    fs.openDir tree ((if m ≠ [slash] then m ++ [slash] else m) ++ name) = F.find name := by
  have hne : m ≠ [] := ne_nil_of_absolute habs
  have hlength : [slash].length < ((if m ≠ [slash] then m ++ [slash] else m) ++ name).length := by
    have hname : 0 < name.length := List.length_pos_of_ne_nil h.1
    have hm : 0 < m.length := List.length_pos_of_ne_nil hne
    rw [List.length_append, List.length_singleton]
    split_ifs
    · rw [List.length_append]
      omega
    · omega
  have hroot : (if m ≠ [slash] then m ++ [slash] else m) ++ name ≠ [slash] := fun heq =>
    absurd (congrArg List.length heq) (Nat.ne_of_gt hlength)
  have habs' : isAbsolute ((if m ≠ [slash] then m ++ [slash] else m) ++ name) = true := by
    obtain ⟨c, rest, rfl⟩ := List.exists_cons_of_ne_nil hne
    split_ifs
    · exact habs
    · exact habs
  unfold FileFs.openDir FileFs.nativeFilename at hopen ⊢
  rw [joinNames_absolute habs] at hopen
  rw [joinNames_absolute habs']
  change tree.opendir (if fs.root = [slash] then m else if m = [slash] then fs.root else fs.root ++ m) = some F at hopen
  show tree.opendir (if fs.root = [slash] then _ else if _ then fs.root else fs.root ++ _) = _
  rw [if_neg hroot]
  by_cases hm : m = [slash]
  · subst hm
    rw [if_neg (not_not.mpr rfl)]
    rw [if_pos rfl] at hopen
    split_ifs at hopen ⊢
    · exact opendir_snoc h [] hopen
    · exact opendir_snoc h fs.root hopen
  · rw [if_pos hm, List.append_assoc, List.singleton_append]
    rw [if_neg hm] at hopen
    split_ifs at hopen ⊢
    · exact opendir_snoc h m hopen
    · rw [← List.append_assoc]
      exact opendir_snoc h (fs.root ++ m) hopen

theorem openDir_below (habs : isAbsolute dir = true) (hq : Plain q) (h : ValidName name)
    (hopen : fs.openDir tree (nameBelow dir q) = some F) :
    fs.openDir tree (nameBelow dir (q ++ [name])) = F.find name := by
  have hdir : dir ≠ [] := ne_nil_of_absolute habs
  have hjoined := joinNames_below hdir hq h
  rw [joinNames_valid (nameBelow_ne_nil hdir) h] at hjoined
  rw [← Option.some.inj hjoined]
  exact openDir_joined (isAbsolute_below habs) h hopen

/-! ## The entries of a directory -/

/-- What is found in a directory under the names of some of its entries. -/
def Agrees : Directory → Directory → Prop
  | .nil, _ => True
  | .file name _ rest, F => F.find name = none ∧ Agrees rest F
  | .dir name entries rest, F => F.find name = some entries ∧ Agrees rest F

/-- One more entry in front, of another name. -/
theorem Agrees.mono {F' : Directory} (h : Agrees D F) (hfind : ∀ n ∈ D.names, F'.find n = F.find n) :
    Agrees D F' := by
  induction D with
  | nil => trivial
  | file name stat rest ih =>
    exact ⟨(hfind name (List.mem_cons_self ..)).trans h.1,
      ih h.2 fun n hn => hfind n (List.mem_cons_of_mem _ hn)⟩
  | dir name entries rest _ ih =>
    exact ⟨(hfind name (List.mem_cons_self ..)).trans h.1,
      ih h.2 fun n hn => hfind n (List.mem_cons_of_mem _ hn)⟩

theorem agrees_self (h : F.Valid) : Agrees F F := by
  induction F with
  | nil => trivial
  | file name stat rest ih =>
    refine ⟨if_pos rfl, (ih h.2.2).mono fun n hn => if_neg ?_⟩
    rintro rfl
    exact h.2.1 hn
  | dir name entries rest _ ih =>
    refine ⟨if_pos rfl, (ih h.2.2.2).mono fun n hn => if_neg ?_⟩
    rintro rfl
    exact h.2.1 hn

/-- The entries that are returned, in the order of the walk. -/
def chosen (pattern : Text) (D : Directory) : List (List Text) :=
  D.files.filter fun p => glob (p.getLast?.getD []) pattern

theorem files_ne_nil {p : List Text} (h : p ∈ D.files) : p ≠ [] := by
  induction D with
  | nil => exact absurd h List.not_mem_nil
  | file name stat rest ih =>
    rcases List.mem_cons.mp h with rfl | h
    · exact List.cons_ne_nil _ _
    · exact ih h
  | dir name entries rest _ ih =>
    rcases List.mem_append.mp h with h | h
    · obtain ⟨p', _, rfl⟩ := List.mem_map.mp h
      exact List.cons_ne_nil _ _
    · exact ih h

theorem chosen_dir {entries rest : Directory} : chosen pattern (.dir name entries rest) =
    (chosen pattern entries).map (name :: ·) ++ chosen pattern rest := by
  unfold chosen
  rw [Directory.files, List.filter_append, List.filter_map]
  congr 2
  refine List.filter_congr fun p hp => ?_
  obtain ⟨c, rest, rfl⟩ := List.exists_cons_of_ne_nil (files_ne_nil hp)
  rw [Function.comp, List.getLast?_cons_cons]

/-! ## The walk -/

theorem existsDir_eq_false {stat : Option FileType} :
    existsDir (stat.map FileType.mode) isDir = false ↔ SeenAsFile stat isDir := by
  cases stat with
  | none => simp [existsDir, SeenAsFile]
  | some t => cases t <;> simp [existsDir, SeenAsFile, FileType.mode, S_IFDIR, S_IFREG]

theorem turn_end (parents : List Dir) :
    (inDirs dir pattern (⟨m, .nil⟩ :: parents)).turn fs tree isDir = .more isDir (inDirs dir pattern parents) := rfl

theorem turn_entry {d : Dir} {entry : Text} {rest : Directory} (hnext : d.rest.next isDir = some (entry, isDir', rest)) :
    (inDirs dir pattern (d :: parents)).turn fs tree isDir =
      if isDir' then (inDirs dir pattern (d :: parents)).enter fs tree d parents entry rest
      else (inDirs dir pattern (d :: parents)).offer d parents entry rest isDir' := by
  unfold Iterator.turn
  dsimp only [inDirs]
  rw [hnext]
  rfl

/-- An entry that is not taken for a directory is returned if it matches. -/
theorem turn_file {stat : Option FileType} {rest : Directory} (hdir : dir ≠ []) (hq : Plain q) (h : ValidName name)
    (hflag : existsDir (stat.map FileType.mode) isDir = false) :
    (inDirs dir pattern (⟨nameBelow dir q, .file name stat rest⟩ :: parents)).turn fs tree isDir =
      if glob name pattern then
        .returned (relName (q ++ [name])) false (inDirs dir pattern (⟨nameBelow dir q, rest⟩ :: parents))
      else .more false (inDirs dir pattern (⟨nameBelow dir q, rest⟩ :: parents)) := by
  have hnext : (Directory.file name stat rest).next isDir = some (name, false, rest) := by
    rw [Directory.next, hflag]
  rw [turn_entry hnext, if_neg Bool.false_ne_true, Iterator.offer, entryName_below hdir hq h]
  rfl

/-- An entry that is taken for a directory is opened. -/
theorem turn_dir {d : Dir} {entry : Text} {rest : Directory} (hnext : d.rest.next isDir = some (entry, true, rest)) :
    (inDirs dir pattern (d :: parents)).turn fs tree isDir =
      (inDirs dir pattern (d :: parents)).enter fs tree d parents entry rest := by
  rw [turn_entry hnext, if_pos rfl]

/-- With an absolute name, the directory that is opened is that of the entry. -/
theorem enter_absolute {rest : Directory} (habs : isAbsolute dir = true) (hq : Plain q) (h : ValidName name)
    (hopen : fs.openDir tree (nameBelow dir q) = some F) {d : Dir} (hd : d.name = nameBelow dir q) :
    (inDirs dir pattern (d :: parents)).enter fs tree d parents name rest =
      match F.find name with
      | some entries => .more true
          (inDirs dir pattern (⟨nameBelow dir (q ++ [name]), entries⟩ :: ⟨nameBelow dir q, rest⟩ :: parents))
      | none => .thrown := by
  have hjoined : joinNames (nameBelow dir q) name = some (nameBelow dir (q ++ [name])) :=
    joinNames_below (ne_nil_of_absolute habs) hq h
  have hpush : (joinNames d.name name).bind (d.pushDir fs tree) =
      (F.find name).map fun entries => ⟨nameBelow dir (q ++ [name]), entries⟩ := by
    rw [hd, hjoined]
    show d.pushDir fs tree _ = _
    unfold Dir.pushDir
    rw [joinNames_absolute (isAbsolute_below habs)]
    show (fs.openDir tree _).bind _ = _
    rw [openDir_below habs hq h hopen]
    cases F.find name <;> rfl
  unfold Iterator.enter
  rw [hpush, hd]
  cases F.find name <;> rfl

/-- The names that are returned for a directory below the one that is listed. -/
def returns (pattern : Text) (q : List Text) (D : Directory) : List Text :=
  (chosen pattern D).map fun p => relName (q ++ p)

theorem returns_file {stat : Option FileType} {rest : Directory} : returns pattern q (.file name stat rest) =
    if glob name pattern then relName (q ++ [name]) :: returns pattern q rest else returns pattern q rest := by
  unfold returns chosen
  rw [Directory.files, List.filter_cons]
  show List.map _ (if glob name pattern = true then _ else _) = _
  split
  · rfl
  · rfl

theorem returns_dir {entries rest : Directory} : returns pattern q (.dir name entries rest) =
    returns pattern (q ++ [name]) entries ++ returns pattern q rest := by
  unfold returns
  rw [chosen_dir, List.map_append, List.map_map]
  congr 1
  refine List.map_congr_left fun p _ => ?_
  rw [Function.comp, List.append_assoc, List.singleton_append]

/-- What repeated calls give once the directories before are done. -/
def Ends (fs : FileFs) (tree : FileTree) (it : Iterator) (isDir : Bool) (result : Option (List Text)) : Prop :=
  (it.dirs = [] ∧ result = some []) ∨ (it.dirs ≠ [] ∧ Lists fs tree it isDir result)

theorem Lists.ends {d : Dir} (h : Lists fs tree (inDirs dir pattern (d :: parents)) isDir result) :
    Ends fs tree (inDirs dir pattern (d :: parents)) isDir result :=
  .inr ⟨List.cons_ne_nil _ _, h⟩

/-- A directory whose entries can be reached: there are no directories among them, or they are opened by absolute
names. -/
def Reached (fs : FileFs) (tree : FileTree) (dir : Text) (q : List Text) (D : Directory) : Prop :=
  D.NoSubs ∨ (isAbsolute dir = true ∧ ∃ F, fs.openDir tree (nameBelow dir q) = some F ∧ Agrees D F)

/-- **The walk returns what matches below a directory**, and goes on as the calls end. -/
theorem walk (hdir : dir ≠ []) (hq : Plain q)
    (hvalid : D.Valid) (hreached : Reached fs tree dir q D) (hsettled : D.Settled isDir)
    (hends : Ends fs tree (inDirs dir pattern parents) (D.flagAfter isDir) result) :
    Lists fs tree (inDirs dir pattern (⟨nameBelow dir q, D⟩ :: parents)) isDir
      (result.map (returns pattern q D ++ ·)) := by
  induction D generalizing q isDir parents result with
  | nil =>
    have hsame : result.map (returns pattern q .nil ++ ·) = result := Option.map_id'
    rw [hsame]
    rcases hends with ⟨hnone, rfl⟩ | ⟨hsome, hlists⟩
    · exact .of_done (turn_end parents) hnone
    · exact .of_more (turn_end parents) hsome hlists
  | file name stat rest ih =>
    have hflag := existsDir_eq_false.mpr hsettled.1
    have hreached' : Reached fs tree dir q rest := by
      rcases hreached with hnone | ⟨habs, F, hopen, hagrees⟩
      · exact .inl hnone
      · exact .inr ⟨habs, F, hopen, hagrees.2⟩
    have hends' : Ends fs tree (inDirs dir pattern parents) (rest.flagAfter false) result := hflag ▸ hends
    have hrest := ih hq hvalid.2.2 hreached' hsettled.2 hends'
    have hturn : (inDirs dir pattern (⟨nameBelow dir q, .file name stat rest⟩ :: parents)).turn fs tree isDir = _ :=
      turn_file hdir hq hvalid.1 hflag
    rw [returns_file]
    split_ifs at hturn ⊢
    · have hlists := hrest.of_returned hturn
      rw [Option.map_map] at hlists
      exact hlists
    · exact .of_more hturn (List.cons_ne_nil _ _) hrest
  | dir name entries rest ihEntries ihRest =>
    obtain ⟨habs, F, hopen, hfind, hagrees⟩ := hreached.resolve_left id
    have hrest := ihRest hq hvalid.2.2.2 (.inr ⟨habs, F, hopen, hagrees⟩) hsettled.2 hends
    have hq' : Plain (q ++ [name]) := hq.append (ValidName.plain hvalid.1)
    have hchild : Reached fs tree dir (q ++ [name]) entries :=
      .inr ⟨habs, entries, (openDir_below habs hq hvalid.1 hopen).trans hfind, agrees_self hvalid.2.2.1⟩
    have hentries := ihEntries hq' hvalid.2.2.1 hchild hsettled.1 hrest.ends
    have hturn : (inDirs dir pattern (⟨nameBelow dir q, .dir name entries rest⟩ :: parents)).turn fs tree isDir = _ :=
      turn_dir rfl
    rw [enter_absolute habs hq hvalid.1 hopen rfl, hfind] at hturn
    have hlists := Lists.of_more hturn (List.cons_ne_nil _ _) hentries
    rw [Option.map_map] at hlists
    rw [returns_dir]
    refine cast (congrArg _ (congrArg (Option.map · result) ?_)) hlists
    funext l
    exact (List.append_assoc _ _ l).symm

/-- With absolute names, an entry that is taken for a directory and is none makes a call throw. -/
theorem thrown_absolute (habs : isAbsolute dir = true) (hq : Plain q) (hvalid : D.Valid)
    (hopen : fs.openDir tree (nameBelow dir q) = some F) (hagrees : Agrees D F) (hsettled : ¬D.Settled isDir) :
    Lists fs tree (inDirs dir pattern (⟨nameBelow dir q, D⟩ :: parents)) isDir none := by
  have hdir : dir ≠ [] := ne_nil_of_absolute habs
  induction D generalizing q isDir parents F with
  | nil => exact absurd trivial hsettled
  | file name stat rest ih =>
    by_cases hflag : existsDir (stat.map FileType.mode) isDir = false
    · have hrest : ¬rest.Settled false :=
        fun h => hsettled ⟨existsDir_eq_false.mp hflag, h⟩
      have hlists : Lists fs tree (inDirs dir pattern (⟨nameBelow dir q, rest⟩ :: parents)) false none :=
        ih hq hvalid.2.2 hopen hagrees.2 hrest
      have hturn : (inDirs dir pattern (⟨nameBelow dir q, .file name stat rest⟩ :: parents)).turn fs tree isDir =
          _ := turn_file hdir hq hvalid.1 hflag
      split_ifs at hturn
      · exact hlists.of_returned hturn
      · exact .of_more hturn (List.cons_ne_nil _ _) hlists
    · have hnext : (Directory.file name stat rest).next isDir = some (name, true, rest) := by
        rw [Directory.next, Bool.eq_true_of_not_eq_false hflag]
      have hturn : (inDirs dir pattern (⟨nameBelow dir q, .file name stat rest⟩ :: parents)).turn fs tree isDir =
          _ := turn_dir hnext
      rw [enter_absolute habs hq hvalid.1 hopen rfl, hagrees.1] at hturn
      exact .of_thrown hturn
  | dir name entries rest ihEntries ihRest =>
    have hq' : Plain (q ++ [name]) := hq.append (ValidName.plain hvalid.1)
    have hchild : fs.openDir tree (nameBelow dir (q ++ [name])) = some entries :=
      (openDir_below habs hq hvalid.1 hopen).trans hagrees.1
    have hturn : (inDirs dir pattern (⟨nameBelow dir q, .dir name entries rest⟩ :: parents)).turn fs tree isDir = _ :=
      turn_dir rfl
    rw [enter_absolute habs hq hvalid.1 hopen rfl, hagrees.1] at hturn
    refine .of_more hturn (List.cons_ne_nil _ _) ?_
    by_cases hentries : entries.Settled true
    · have hrest : ¬rest.Settled (entries.flagAfter true) := fun h => hsettled ⟨hentries, h⟩
      have hlists : Lists fs tree (inDirs dir pattern (⟨nameBelow dir q, rest⟩ :: parents)) (entries.flagAfter true)
          none := ihRest hq hvalid.2.2.2 hopen hagrees.2 hrest
      exact walk hdir hq' hvalid.2.2.1 (.inr ⟨habs, entries, hchild, agrees_self hvalid.2.2.1⟩)
        hentries hlists.ends
    · exact ihEntries hq' hvalid.2.2.1 hchild (agrees_self hvalid.2.2.1) hentries

/-- With a relative name, the name of the directory is joined twice. -/
theorem enter_relative {rest : Directory} (hdir : dir ≠ []) (hrel : isAbsolute dir ≠ true) (h : ValidName name)
    (hnone : ¬(fs.openDir tree (dir ++ slash :: (dir ++ slash :: name))).isSome) :
    (inDirs dir pattern (⟨dir, D⟩ :: parents)).enter fs tree ⟨dir, D⟩ parents name rest = .thrown := by
  have hroot : dir ≠ [slash] := by
    rintro rfl
    exact hrel rfl
  have hrel' : isAbsolute (dir ++ slash :: name) ≠ true := by
    obtain ⟨c, rest, rfl⟩ := List.exists_cons_of_ne_nil hdir
    exact hrel
  have hpush : (joinNames dir name).bind (Dir.pushDir fs tree ⟨dir, D⟩) = none := by
    rw [joinNames_valid hdir h, if_pos hroot, List.append_assoc, List.singleton_append]
    show Dir.pushDir fs tree ⟨dir, D⟩ _ = none
    unfold Dir.pushDir
    rw [joinNames_relative hdir (List.append_ne_nil_of_left_ne_nil hdir _) hrel', if_pos hroot, List.append_assoc,
      List.singleton_append]
    show (fs.openDir tree _).bind _ = none
    rw [Option.not_isSome_iff_eq_none.mp hnone]
    rfl
  unfold Iterator.enter
  rw [hpush]

theorem thrown_first {rest : Directory} (hdir : dir ≠ []) (hrel : isAbsolute dir ≠ true)
    (hdoubled : ¬Doubled fs tree dir D) (hmem : name ∈ D.names) (hname : ValidName name)
    (hnext : D.next isDir = some (name, true, rest)) :
    Lists fs tree (inDirs dir pattern (⟨dir, D⟩ :: parents)) isDir none := by
  have hturn : (inDirs dir pattern (⟨dir, D⟩ :: parents)).turn fs tree isDir = _ := turn_dir hnext
  rw [enter_relative hdir hrel hname fun h => hdoubled ⟨name, hmem, h⟩] at hturn
  exact .of_thrown hturn

/-- With a relative name, an entry that is taken for a directory makes a call throw, unless there is a directory
under the name that is opened in its place. -/
theorem thrown_relative (hdir : dir ≠ []) (hrel : isAbsolute dir ≠ true) (hvalid : D.Valid)
    (hdoubled : ¬Doubled fs tree dir D) (htaken : ¬(D.NoSubs ∧ D.Settled isDir)) :
    Lists fs tree (inDirs dir pattern (⟨dir, D⟩ :: parents)) isDir none := by
  induction D generalizing isDir with
  | nil => exact absurd ⟨trivial, trivial⟩ htaken
  | dir name entries rest => exact thrown_first hdir hrel hdoubled (List.mem_cons_self ..) hvalid.1 rfl
  | file name stat rest ih =>
    by_cases hflag : existsDir (stat.map FileType.mode) isDir = false
    · have hrest : ¬(rest.NoSubs ∧ rest.Settled false) :=
        fun h => htaken ⟨h.1, existsDir_eq_false.mp hflag, h.2⟩
      have hlists := ih hvalid.2.2 (fun ⟨n, hn, h⟩ => hdoubled ⟨n, List.mem_cons_of_mem _ hn, h⟩) hrest
      have hturn : (inDirs dir pattern (⟨dir, .file name stat rest⟩ :: parents)).turn fs tree isDir = _ :=
        turn_file (q := []) hdir Os.plain_nil hvalid.1 hflag
      split_ifs at hturn
      · exact hlists.of_returned hturn
      · exact .of_more hturn (List.cons_ne_nil _ _) hlists
    · have hnext : (Directory.file name stat rest).next isDir = some (name, true, rest) := by
        rw [Directory.next, Bool.eq_true_of_not_eq_false hflag]
      exact thrown_first hdir hrel hdoubled (List.mem_cons_self ..) hvalid.1 hnext

/-! ## The listing -/

theorem head_of_files {p : List Text} (h : p ∈ D.files) : ∃ n rest, p = n :: rest ∧ n ∈ D.names := by
  induction D with
  | nil => exact absurd h List.not_mem_nil
  | file name stat rest ih =>
    rcases List.mem_cons.mp h with rfl | h
    · exact ⟨name, [], rfl, List.mem_cons_self ..⟩
    · obtain ⟨n, p', hp, hn⟩ := ih h
      exact ⟨n, p', hp, List.mem_cons_of_mem _ hn⟩
  | dir name entries rest _ ih =>
    rcases List.mem_append.mp h with h | h
    · obtain ⟨p', _, rfl⟩ := List.mem_map.mp h
      exact ⟨name, p', rfl, List.mem_cons_self ..⟩
    · obtain ⟨n, p', hp, hn⟩ := ih h
      exact ⟨n, p', hp, List.mem_cons_of_mem _ hn⟩

/-- The entries below a directory have different paths. -/
theorem files_nodup (hvalid : D.Valid) : D.files.Nodup := by
  induction D with
  | nil => exact List.nodup_nil
  | file name stat rest ih =>
    refine List.nodup_cons.mpr ⟨fun hmem => ?_, ih hvalid.2.2⟩
    obtain ⟨n, _, heq, hn⟩ := head_of_files hmem
    exact hvalid.2.1 ((List.cons.inj heq).1 ▸ hn)
  | dir name entries rest ihEntries ihRest =>
    refine List.nodup_append.mpr ⟨(ihEntries hvalid.2.2.1).map (List.cons_injective), ihRest hvalid.2.2.2, ?_⟩
    intro p hp p' hp' heq
    obtain ⟨_, _, rfl⟩ := List.mem_map.mp hp
    obtain ⟨n, _, heq', hn⟩ := head_of_files hp'
    exact hvalid.2.1 ((List.cons.inj (heq.trans heq')).1 ▸ hn)

theorem files_plain (hvalid : D.Valid) {p : List Text} (h : p ∈ D.files) : Plain p := by
  induction D generalizing p with
  | nil => exact absurd h List.not_mem_nil
  | file name stat rest ih =>
    rcases List.mem_cons.mp h with rfl | h
    · exact ValidName.plain hvalid.1
    · exact ih hvalid.2.2 h
  | dir name entries rest ihEntries ihRest =>
    rcases List.mem_append.mp h with h | h
    · obtain ⟨p', hp', rfl⟩ := List.mem_map.mp h
      exact (ValidName.plain hvalid.1).append (ihEntries hvalid.2.2.1 hp')
    · exact ihRest hvalid.2.2.2 h

theorem valid_of_find (hvalid : F.Valid) (h : F.find name = some D) : D.Valid := by
  induction F with
  | nil => exact nomatch h
  | file name' stat rest ih =>
    rw [Directory.find] at h
    split_ifs at h
    exact ih hvalid.2.2 h
  | dir name' entries rest _ ih =>
    rw [Directory.find] at h
    split_ifs at h
    · exact Option.some.inj h ▸ hvalid.2.2.1
    · exact ih hvalid.2.2.2 h

theorem valid_of_path {path : List Text} (hvalid : F.Valid) (h : F.atPath path = some D) : D.Valid := by
  induction path generalizing F with
  | nil => exact Option.some.inj h ▸ hvalid
  | cons c path ih =>
    obtain ⟨F', hF', hpath⟩ := Option.bind_eq_some_iff.mp h
    exact ih (valid_of_find hvalid hF') hpath

theorem valid_of_open (h : fs.openDir tree dir = some D) : D.Valid := by
  obtain ⟨_, _, hopen⟩ := Option.bind_eq_some_iff.mp h
  obtain ⟨_, _, hpath⟩ := Option.bind_eq_some_iff.mp hopen
  exact valid_of_path tree.valid hpath

theorem ne_nil_of_open (h : fs.openDir tree dir = some D) : dir ≠ [] := by
  rintro rfl
  exact nomatch h

/-- The names that the walk returns are those of the entries that match. -/
theorem mem_returns (str : Text) : str ∈ returns pattern [] D ↔
    ∃ p name, p ++ [name] ∈ D.files ∧ Matches pattern name ∧ str = relName (p ++ [name]) := by
  unfold returns chosen
  rw [List.mem_map]
  constructor
  · rintro ⟨p, hp, rfl⟩
    obtain ⟨hfiles, hglob⟩ := List.mem_filter.mp hp
    rcases List.eq_nil_or_concat' p with rfl | ⟨front, name, rfl⟩
    · exact absurd rfl (files_ne_nil hfiles)
    · rw [List.getLast?_concat] at hglob
      exact ⟨front, name, hfiles, (glob_iff name pattern).mp hglob, rfl⟩
  · rintro ⟨p, name, hfiles, hmatches, rfl⟩
    refine ⟨p ++ [name], List.mem_filter.mpr ⟨hfiles, ?_⟩, rfl⟩
    rw [List.getLast?_concat]
    exact (glob_iff name pattern).mpr hmatches

theorem returns_nodup (hvalid : D.Valid) : (returns pattern [] D).Nodup := by
  refine List.Nodup.map_on (fun p hp p' hp' heq => ?_) ((files_nodup hvalid).filter _)
  have hplain := files_plain hvalid (List.mem_filter.mp hp).1
  have hplain' := files_plain hvalid (List.mem_filter.mp hp').1
  exact (Os.absName_inj hplain hplain').mp (congrArg (slash :: ·) heq)

theorem new_eq (h : fs.openDir tree dir = some D) :
    Iterator.new fs tree dir pattern true = some (inDirs dir pattern [⟨dir, D⟩]) := by
  unfold Iterator.new
  rw [h]
  rfl

def rootFs : FileFs := ⟨[slash], [slash], rfl, rfl⟩

/-- `d/e/f` and `d/g` -/
def nested : Directory := .dir [101] (.file [102] (some .regular) .nil) (.file [103] (some .regular) .nil)

def nestedTree : FileTree := ⟨.dir [100] nested .nil, by decide⟩

/-- `d/e` is empty, and `stat` fails for `d/h`. -/
def dangling : Directory := .dir [101] .nil (.file [104] none .nil)

def danglingTree : FileTree := ⟨.dir [100] dangling .nil, by decide⟩

/-- A file `d/a` and a socket `d/s`. -/
def listening : Directory := .file [97] (some .regular) (.file [115] (some .socket) .nil)

def listeningTree : FileTree := ⟨.dir [100] listening .nil, by decide⟩

end OpenCpi.Vfs
