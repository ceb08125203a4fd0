import Axle.FileServer.InitrdFs

/-!
# Paths of the initial ramdisk

`fs_entry_find` follows the components of a path into the directories, and returns at the first
file that it comes across, whatever is left of the path then.

* `resolve_eq_some_iff` — **PROVED**: the traversal finds what some first part of the path leads to,
  all of it unless that is a file;
* `fsEntryFind_iff` — **PROVED**: a path finds what its components lead to, and nothing when they
  lead nowhere, exactly when it does not go on behind a file.
-/

namespace Axle.FileServer

/-- What a path leads to. -/
inductive Found
  | directory (dir : DirectoryImage)
  | file (data : List Byte)

/-- The entry that is returned for it. -/
def Found.entry (path : Str) : Found → FsEntry
  | .directory dir => ⟨path, true, some dir, none⟩
  | .file data => ⟨path, false, none, some data⟩

/-- The components of a path that are not empty. -/
def pathComponents (path : Str) : List Str := (path.splitOn '/').filter (· ≠ [])

/-- Some components lead from a directory to a directory or a file. -/
inductive Leads : DirectoryImage → List Str → Found → Prop
  | here (dir : DirectoryImage) : Leads dir [] (.directory dir)
  | file {dir : DirectoryImage} {name : Str} {data : List Byte} (mem : (name, data) ∈ dir.files) :
      Leads dir [name] (.file data)
  | into {dir subdir : DirectoryImage} {name : Str} {rest : List Str} {found : Found}
      (mem : (name, subdir) ∈ dir.subdirectories) (leads : Leads subdir rest found) :
      Leads dir (name :: rest) found

/-- The names in a directory, and in all below it, are distinct. -/
inductive DirectoryImage.Distinct : DirectoryImage → Prop
  | intro (dir : DirectoryImage)
      (names : (dir.files.map Prod.fst ++ dir.subdirectories.map Prod.fst).Nodup)
      (below : ∀ kv ∈ dir.subdirectories, kv.2.Distinct) : dir.Distinct

/-- The path goes on behind a file. -/
def PastFile (rootDir : DirectoryImage) (path : Str) : Prop :=
  ∃ done rest data, pathComponents path = done ++ rest ∧ rest ≠ [] ∧
    Leads rootDir done (.file data)

/-! ### The traversal -/

/-- The traversal, over the components that are not skipped. -/
def resolve : List Str → DirectoryImage → Option Found
  | [], dir => some (.directory dir)
  | component :: rest, dir =>
    match dir.subdirectories.lookup component with
    | some subdir => resolve rest subdir
    | none => (dir.files.lookup component).map .file

theorem fsEntryFindFrom_eq (path : Str) : ∀ (components : List Str) (dir : DirectoryImage),
    fsEntryFindFrom path components dir =
      (resolve (components.filter (· ≠ [])) dir).map (Found.entry path) := by
  intro components
  induction components with
  | nil => exact fun _ => rfl
  | cons component rest ih =>
    intro dir
    rw [fsEntryFindFrom]
    by_cases hempty : component = []
    · rw [if_pos hempty, ih, List.filter_cons_of_neg (by simpa using hempty)]
    · rw [if_neg hempty, List.filter_cons_of_pos (by simpa using hempty), resolve]
      cases dir.subdirectories.lookup component with
      | some subdir => exact ih subdir
      | none => cases dir.files.lookup component <;> rfl

theorem fsEntryFind_eq (rootDir : DirectoryImage) (path : Str) :
    fsEntryFind rootDir path =
      (resolve (pathComponents path) rootDir).map (Found.entry path) :=
  fsEntryFindFrom_eq path _ rootDir

theorem lookup_cons_ite {α : Type*} (name key : Str) (val : α) (entries : List (Str × α)) :
    List.lookup name ((key, val) :: entries) =
      if name = key then some val else entries.lookup name := by
  rw [List.lookup_cons]
  by_cases hkey : name = key
  · rw [if_pos hkey, beq_iff_eq.mpr hkey]
  · rw [if_neg hkey, beq_eq_false_iff_ne.mpr hkey]

theorem lookup_eq_some_iff {α : Type*} {name : Str} {value : α} :
    ∀ {entries : List (Str × α)}, (entries.map Prod.fst).Nodup →
      (entries.lookup name = some value ↔ (name, value) ∈ entries) := by
  intro entries
  induction entries with
  | nil => simp
  | cons entry entries ih =>
    intro hnodup
    obtain ⟨hnotin, hrest⟩ := List.nodup_cons.mp hnodup
    obtain ⟨key, val⟩ := entry
    rw [lookup_cons_ite, List.mem_cons]
    by_cases hkey : name = key
    · subst hkey
      rw [if_pos rfl]
      constructor
      · intro h
        exact .inl (by rw [Option.some.inj h])
      · rintro (h | h)
        · rw [(Prod.mk.inj h).2]
        · exact absurd (List.mem_map_of_mem h) hnotin
    · rw [if_neg hkey, ih hrest, or_iff_right fun h => hkey (Prod.mk.inj h).1]

theorem lookup_eq_none_iff {α : Type*} {name : Str} {entries : List (Str × α)} :
    entries.lookup name = none ↔ ∀ value, (name, value) ∉ entries := by
  induction entries with
  | nil => simp
  | cons entry entries ih =>
    obtain ⟨key, val⟩ := entry
    rw [lookup_cons_ite]
    by_cases hkey : name = key
    · rw [if_pos hkey, hkey]
      exact ⟨nofun, fun h => absurd List.mem_cons_self (h val)⟩
    · rw [if_neg hkey, ih]
      refine forall_congr' fun value => not_congr ?_
      rw [List.mem_cons, or_iff_right fun h => hkey (Prod.mk.inj h).1]

namespace DirectoryImage.Distinct

variable {dir : DirectoryImage} (h : dir.Distinct)

include h

theorem files : (dir.files.map Prod.fst).Nodup := by
  cases h with
  | intro _ names _ => exact (List.nodup_append.mp names).1

theorem subdirectories : (dir.subdirectories.map Prod.fst).Nodup := by
  cases h with
  | intro _ names _ => exact (List.nodup_append.mp names).2.1

theorem not_both {name : Str} {data : List Byte} {subdir : DirectoryImage}
    (hfile : (name, data) ∈ dir.files) : (name, subdir) ∉ dir.subdirectories := by
  cases h with
  | intro _ names _ =>
    exact fun hsub => (List.nodup_append.mp names).2.2 name (List.mem_map_of_mem hfile) name
      (List.mem_map_of_mem hsub) rfl

theorem subdir {name : Str} {subdir : DirectoryImage}
    (hmem : (name, subdir) ∈ dir.subdirectories) : subdir.Distinct := by
  cases h with
  | intro _ _ below => exact below _ hmem

end DirectoryImage.Distinct

/-- **What the traversal finds**: what all components lead to, or the file that the first of them
lead to. -/
theorem resolve_eq_some_iff {found : Found} : ∀ {components : List Str} {dir : DirectoryImage},
    dir.Distinct → (resolve components dir = some found ↔
      ∃ done rest, components = done ++ rest ∧ Leads dir done found ∧
        (rest = [] ∨ ∃ data, found = .file data)) := by
  intro components
  induction components with
  | nil =>
    intro dir _
    constructor
    · intro h
      obtain rfl := Option.some.inj h
      exact ⟨[], [], rfl, .here dir, .inl rfl⟩
    · rintro ⟨done, rest, heq, hleads, -⟩
      obtain ⟨rfl, rfl⟩ := List.append_eq_nil_iff.mp heq.symm
      cases hleads
      rfl
  | cons component components ih =>
    intro dir hdir
    rw [resolve]
    cases hsub : dir.subdirectories.lookup component with
    | some subdir =>
      have hmem := (lookup_eq_some_iff hdir.subdirectories).mp hsub
      rw [ih (hdir.subdir hmem)]
      constructor
      · rintro ⟨done, rest, rfl, hleads, hend⟩
        exact ⟨component :: done, rest, rfl, .into hmem hleads, hend⟩
      · rintro ⟨done, rest, heq, hleads, hend⟩
        cases hleads with
        | here =>
          rcases hend with rfl | ⟨data, hdata⟩
          · cases heq
          · cases hdata
        | file hfile =>
          obtain ⟨rfl, -⟩ := List.cons.inj heq
          exact absurd hmem (hdir.not_both hfile)
        | into hmem' hleads =>
          obtain ⟨rfl, rfl⟩ := List.cons.inj heq
          have hsame := (lookup_eq_some_iff hdir.subdirectories).mpr hmem'
          obtain rfl := Option.some.inj (hsub.symm.trans hsame)
          exact ⟨_, rest, rfl, hleads, hend⟩
    | none =>
      have hnot := lookup_eq_none_iff.mp hsub
      rw [Option.map_eq_some_iff]
      constructor
      · rintro ⟨data, hdata, rfl⟩
        exact ⟨[component], components, rfl,
          .file ((lookup_eq_some_iff hdir.files).mp hdata), .inr ⟨data, rfl⟩⟩
      · rintro ⟨done, rest, heq, hleads, hend⟩
        cases hleads with
        | here =>
          rcases hend with rfl | ⟨data, hdata⟩
          · cases heq
          · cases hdata
        | file hfile =>
          obtain ⟨rfl, -⟩ := List.cons.inj heq
          exact ⟨_, (lookup_eq_some_iff hdir.files).mpr hfile, rfl⟩
        | into hmem' _ =>
          obtain ⟨rfl, -⟩ := List.cons.inj heq
          exact absurd hmem' (hnot _)

/-- Nothing is behind a file. -/
theorem Leads.nothing_behind {dir : DirectoryImage} {done : List Str} {data : List Byte}
    (h : Leads dir done (.file data)) (hdir : dir.Distinct) {rest : List Str} (hrest : rest ≠ [])
    {found : Found} : ¬Leads dir (done ++ rest) found := by
  generalize hfile : Found.file data = f at h
  induction h with
  | here => cases hfile
  | file hmem =>
    intro hleads
    cases hleads with
    | file => exact hrest rfl
    | into hsub _ => exact hdir.not_both hmem hsub
  | @into dir subdir name done' _ hmem _ ih =>
    intro hleads
    rw [List.cons_append] at hleads
    generalize hbehind : done' ++ rest = behind at hleads
    cases hleads with
    | file hmem' => exact hdir.not_both hmem' hmem
    | into hmem' hleads =>
      have hsame := (lookup_eq_some_iff hdir.subdirectories).mpr hmem'
      rw [(lookup_eq_some_iff hdir.subdirectories).mpr hmem] at hsame
      obtain rfl := Option.some.inj hsame
      exact ih (hdir.subdir hmem) hfile (hbehind ▸ hleads)

theorem pathComponents_slashes (before behind : Str) :
    pathComponents (before ++ '/' :: '/' :: behind) = pathComponents (before ++ '/' :: behind) := by
  have hempty : ('/' :: behind).splitOn '/' = [] :: behind.splitOn '/' := by
    have happend := List.splitOn_append_cons_self ([] : Str) behind (a := '/')
    rwa [List.nil_append, List.splitOn_nil, List.singleton_append] at happend
  rw [pathComponents, pathComponents, List.splitOn_append_cons_self, List.splitOn_append_cons_self,
    hempty, List.filter_append, List.filter_append, List.filter_cons_of_neg (by simp)]

/-- **The resolution of paths (proved).**  A path finds exactly what its components lead to if and
only if it does not go on behind a file; and slashes next to a slash make no difference. -/
theorem fsEntryFind_iff {rootDir : DirectoryImage} (hroot : rootDir.Distinct) :
    (∀ path, (∀ entry, fsEntryFind rootDir path = some entry ↔
        ∃ found, Leads rootDir (pathComponents path) found ∧ entry = found.entry path) ↔
      ¬PastFile rootDir path) ∧
    ∀ before behind, ∃ found : Option Found,
      fsEntryFind rootDir (before ++ '/' :: '/' :: behind) =
        found.map (Found.entry (before ++ '/' :: '/' :: behind)) ∧
      fsEntryFind rootDir (before ++ '/' :: behind) =
        found.map (Found.entry (before ++ '/' :: behind)) := by
  refine ⟨fun path => ⟨?_, fun hnot entry => ?_⟩, fun before behind => ?_⟩
  · rintro hexact ⟨done, rest, data, hpath, hrest, hleads⟩
    have hresolve : resolve (pathComponents path) rootDir = some (.file data) :=
      (resolve_eq_some_iff hroot).mpr ⟨done, rest, hpath, hleads, .inr ⟨data, rfl⟩⟩
    obtain ⟨found, hfound, -⟩ := (hexact (Found.entry path (.file data))).mp (by
      rw [fsEntryFind_eq, hresolve]
      rfl)
    rw [hpath] at hfound
    exact hleads.nothing_behind hroot hrest hfound
  · rw [fsEntryFind_eq, Option.map_eq_some_iff]
    constructor
    · rintro ⟨found, hresolve, rfl⟩
      obtain ⟨done, rest, hpath, hleads, hend⟩ := (resolve_eq_some_iff hroot).mp hresolve
      have hall : rest = [] := by
        rcases hend with hrest | ⟨data, rfl⟩
        · exact hrest
        · by_contra hrest
          exact hnot ⟨done, rest, data, hpath, hrest, hleads⟩
      rw [hall, List.append_nil] at hpath
      exact ⟨found, hpath ▸ hleads, rfl⟩
    · rintro ⟨found, hleads, rfl⟩
      exact ⟨found, (resolve_eq_some_iff hroot).mpr
        ⟨_, [], (List.append_nil _).symm, hleads, .inl rfl⟩, rfl⟩
  · refine ⟨resolve (pathComponents (before ++ '/' :: behind)) rootDir, ?_, fsEntryFind_eq _ _⟩
    rw [fsEntryFind_eq, pathComponents_slashes]

/-- A directory with one directory, in which there is one file. -/
def smallImage : DirectoryImage :=
  ⟨['/'], [], [(['u'], ⟨['u'], [(['f'], [1, 2])], []⟩)]⟩

theorem smallImage_distinct : smallImage.Distinct := by
  refine .intro _ (by decide) fun kv hkv => ?_
  rw [List.mem_singleton.mp hkv]
  exact .intro _ (by decide) fun kv hkv => absurd hkv List.not_mem_nil

/-- Slashes are skipped, and the file at the end of a path is found. -/
theorem fsEntryFind_iff_smallImage :
    (fsEntryFind smallImage ['/', '/', 'u', '/', 'f', '/'] = some ·) = fun entry =>
      ∃ found, Leads smallImage (pathComponents ['/', '/', 'u', '/', 'f', '/']) found ∧
        entry = found.entry ['/', '/', 'u', '/', 'f', '/'] := by
  refine funext fun entry => propext (((fsEntryFind_iff smallImage_distinct).1 _).mpr ?_ entry)
  rintro ⟨done, rest, data, hpath, hrest, hleads⟩
  have hpath' : pathComponents ['/', '/', 'u', '/', 'f', '/'] = [['u'], ['f']] := by decide
  rw [hpath'] at hpath
  cases hleads with
  | file hmem => exact absurd hmem List.not_mem_nil
  | into hmem hleads =>
    obtain ⟨rfl, rfl⟩ := Prod.mk.inj (List.mem_singleton.mp hmem)
    cases hleads with
    | file hmem =>
      obtain ⟨rfl, rfl⟩ := Prod.mk.inj (List.mem_singleton.mp hmem)
      exact hrest (List.self_eq_append_right.mp hpath)
    | into hmem _ => exact absurd hmem List.not_mem_nil

/-- The path goes on behind the file, and the file is found all the same. -/
theorem traversed_past_file :
    fsEntryFind smallImage ['/', 'u', '/', 'f', '/', 'm'] =
        some (Found.entry ['/', 'u', '/', 'f', '/', 'm'] (.file [1, 2])) ∧
      ∀ found, ¬Leads smallImage (pathComponents ['/', 'u', '/', 'f', '/', 'm']) found := by
  refine ⟨by rfl, fun found hleads => ?_⟩
  have hfile : Leads smallImage [['u'], ['f']] (.file [1, 2]) :=
    .into (List.mem_singleton.mpr rfl) (.file (List.mem_singleton.mpr rfl))
  exact hfile.nothing_behind smallImage_distinct (List.cons_ne_nil ['m'] []) hleads

end Axle.FileServer
