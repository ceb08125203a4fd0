import Axle.Kernel.ArrayM
import Mathlib.Algebra.Ring.Nat
import Mathlib.Data.List.Infix

/-!
# Paths in the virtual file system

`vfs_find_node_by_path` and `vfs_path_for_node` of `file_manager/vfs.c`, `str_split` of
`file_manager/util.c`.  A string is the list of its characters before the NUL; a failing assertion is
`none`, and a NULL that is returned is `some none`.

* `vfsFindNodeByPath`, `vfsPathForNode` — the functions;
* `paths_iff` — **PROVED**: which paths are looked up right, and which nodes are found again.
-/

namespace Axle.FileManager.Vfs

open Axle.Kernel (ArrayM)

abbrev Byte := BitVec 8

abbrev Str := List Byte

def slash : Byte := 0x2f

/-! ### The tree -/

/-- `fs_base_node_t`, with pointers to nodes of type `α`. -/
structure FsBaseNode (α : Type) where
  name : Str
  parent : Option α
  isDirectory : Bool
  children : List α

/-- A tree of the nodes of type `α` with distinct names in each directory, under the root that `main`
creates. -/
structure FileTree (α : Type) where
  node : α → FsBaseNode α
  root : α
  depth : α → ℕ
  root_name : (node root).name = [slash]
  root_parent : (node root).parent = none
  parent_of_ne : ∀ a, a ≠ root → ∃ p, (node a).parent = some p
  mem_children : ∀ p a, a ∈ (node p).children ↔ (node a).parent = some p
  directory : ∀ p a, a ∈ (node p).children → (node p).isDirectory = true
  distinct : ∀ p, ∀ a ∈ (node p).children, ∀ b ∈ (node p).children,
    (node a).name = (node b).name → a = b
  depth_parent : ∀ a p, (node a).parent = some p → depth p < depth a

variable {α : Type}

/-! ### Splitting a path -/

/-- `!strncmp(s, t, n)` for strings without their NUL. -/
def strncmpEqual (s t : Str) (n : ℕ) : Bool := s.take n == t.take n

/-- The first loop of `str_split`: how many delimiters there are, and where the last one is. -/
def countDelims (delim : Byte) : Str → ℕ → ℕ × Option ℕ → ℕ × Option ℕ
  | [], _, counted => counted
  | c :: tmp, i, (count, lastDelim) =>
    countDelims delim tmp (i + 1) (if delim = c then (count + 1, some i) else (count, lastDelim))

/-- The size of the array: "space for trailing token" if the last delimiter, or NULL, is before the
last character. -/
def splitCapacity (str : Str) (delim : Byte) : ℕ :=
  let (count, lastDelim) := countDelims delim str 0 (0, none)
  count + if lastDelim.all fun i => i + 1 < str.length then 1 else 0

/-- What `strtok` returns one after the other, from the characters of a token that are behind. -/
def strtokTokens (delim : Byte) : Str → Str → List Str
  | token, [] => if token = [] then [] else [token]
  | token, c :: str =>
    if c = delim then
      if token = [] then strtokTokens delim [] str else token :: strtokTokens delim [] str
    else strtokTokens delim (token ++ [c]) str

def insertAll (array : ArrayM Str) : List Str → Option (ArrayM Str)
  | [] => some array
  | token :: tokens => (array.insert token).bind fun array => insertAll array tokens

def strSplit (str : Str) (delim : Byte) : Option (ArrayM Str) :=
  insertAll (ArrayM.create (splitCapacity str delim)) (strtokTokens delim [] str)

/-! ### Looking a path up -/

def vfsMaxPathLength : ℕ := 128

/-- The loop over the children of a directory for the first component; `recurse` looks the rest up. -/
def searchChildren (t : FileTree α) (component : Str) (last : Bool)
    (recurse : α → Option (Option α)) : List α → Option (Option α)
  | [] => some none
  | node :: nodes =>
    if strncmpEqual component (t.node node).name vfsMaxPathLength then
      if last then some (some node)
      else if (t.node node).isDirectory then recurse node
      else searchChildren t component last recurse nodes
    else searchChildren t component last recurse nodes

/-- `vfs_find_node_by_path_components_in_directory`.  Without components, the first child makes
`array_lookup` fail; else the rest goes into an array of its size. -/
def findInDirectory (t : FileTree α) : List Str → α → Option (Option α)
  | [], directory =>
    match (t.node directory).children with
    | [] => some none
    | _ :: _ => none
  | component :: rest, directory =>
    searchChildren t component rest.isEmpty (findInDirectory t rest) (t.node directory).children

def vfsFindNodeByPath (t : FileTree α) (path : Str) : Option (Option α) :=
  if strncmpEqual path (t.node t.root).name vfsMaxPathLength then some (some t.root)
  else (strSplit path slash).bind fun components => findInDirectory t components.items t.root

/-! ### The path of a node -/

/-- The loop over the parents. -/
def collectNames (t : FileTree α) (tmp : α) (components : ArrayM Str) : Option (ArrayM Str) :=
  match _h : (t.node tmp).parent with
  | none => some components
  | some parent =>
    (components.insert (t.node tmp).name).bind fun components => collectNames t parent components
termination_by t.depth tmp
decreasing_by exact t.depth_parent tmp parent _h

/-- `snprintf(constructed_path, VFS_MAX_PATH_LENGTH, "%s/%s", constructed_path, component)` -/
def appendComponent (constructedPath component : Str) : Str :=
  (constructedPath ++ slash :: component).take (vfsMaxPathLength - 1)

def vfsPathForNode [DecidableEq α] (t : FileTree α) (node : α) : Option Str :=
  if node = t.root then some [slash]
  else (collectNames t node (ArrayM.create 64)).map fun components =>
    components.items.reverse.foldl appendComponent []

/-! ### What they are for -/

/-- The node reached from a node by following these names. -/
inductive Follows (t : FileTree α) : α → List Str → α → Prop
  | here (a : α) : Follows t a [] a
  | child {a b c : α} {names : List Str} (hb : b ∈ (t.node a).children)
    (h : Follows t b names c) : Follows t a ((t.node b).name :: names) c

/-- The non-empty components of a path. -/
def components (path : Str) : List Str := (path.splitOn slash).filter (· ≠ [])

/-- No assertion fails, and the node that the components lead to is returned, or NULL. -/
def LookedUp (t : FileTree α) (path : Str) : Prop :=
  ∃ result, vfsFindNodeByPath t path = some result ∧
    ∀ a, result = some a ↔ Follows t t.root (components path) a

/-- Looking the path of a node up returns the node. -/
def FoundAgain [DecidableEq α] (t : FileTree α) (node : α) : Prop :=
  ∃ path, vfsPathForNode t node = some path ∧ vfsFindNodeByPath t path = some (some node)

/-- The names with a slash before each, and the NUL, fit the buffer. -/
def PathFits (names : List Str) : Prop :=
  (names.map fun name => name.length + 1).sum < vfsMaxPathLength

/-! ### Components -/

theorem components_append (front back : Str) :
    components (front ++ slash :: back) = components front ++ components back := by
  rw [components, List.splitOn_append_cons_self, List.filter_append]
  rfl

theorem components_slash (path : Str) : components (slash :: path) = components path :=
  components_append [] path

theorem mem_splitOn {str name : Str} {delim : Byte} (h : name ∈ str.splitOn delim) :
    delim ∉ name ∧ name.length ≤ str.length := by
  induction str generalizing name with
  | nil =>
    rw [List.splitOn_nil, List.mem_singleton] at h
    rw [h]
    exact ⟨List.not_mem_nil, Nat.le_refl _⟩
  | cons c str ih =>
    rw [List.splitOn_cons_eq_if_modifyHead] at h
    split at h
    · rcases List.mem_cons.mp h with rfl | h
      · exact ⟨List.not_mem_nil, Nat.zero_le _⟩
      · exact ⟨(ih h).1, Nat.le_succ_of_le (ih h).2⟩
    · rename_i hc
      obtain ⟨first, rest, hsplit⟩ := List.exists_cons_of_ne_nil (List.splitOn_ne_nil delim str)
      rw [hsplit] at h ih
      rcases List.mem_cons.mp h with rfl | h
      · obtain ⟨hfirst, hlength⟩ := ih List.mem_cons_self
        rw [List.mem_cons, not_or, List.length_cons]
        exact ⟨⟨fun heq => hc (by simp [heq]), hfirst⟩, Nat.succ_le_succ hlength⟩
      · exact ⟨(ih (.tail _ h)).1, Nat.le_succ_of_le (ih (.tail _ h)).2⟩

variable {name path component : Str} {a c node : α} {t : FileTree α} {names : List Str}

theorem mem_components (h : name ∈ components path) : name ≠ [] ∧ slash ∉ name := by
  obtain ⟨hmem, hne⟩ := List.mem_filter.mp h
  exact ⟨by simpa using hne, (mem_splitOn hmem).1⟩

theorem components_name (hne : name ≠ []) (hslash : slash ∉ name) : components name = [name] := by
  rw [components, List.splitOn_eq_singleton hslash]
  simp [hne]

theorem strtokTokens_eq (str : Str) : ∀ token : Str, slash ∉ token →
    strtokTokens slash token str = components (token ++ str) := by
  induction str with
  | nil =>
    intro token htoken
    rw [strtokTokens, List.append_nil]
    split
    · rename_i hnil
      rw [hnil]
      rfl
    · rename_i hne
      rw [components_name hne htoken]
  | cons c str ih =>
    intro token htoken
    rw [strtokTokens]
    split
    · rename_i hc
      rw [hc, components_append]
      split
      · rename_i hnil
        rw [hnil, ih [] List.not_mem_nil]
        rfl
      · rename_i hne
        rw [components_name hne htoken, ih [] List.not_mem_nil]
        rfl
    · rename_i hc
      have hmore : slash ∉ token ++ [c] := by
        simpa [htoken] using fun h => hc h.symm
      rw [ih _ hmore, List.append_assoc, List.singleton_append]

/-! ### The array of the components -/

theorem insertAll_eq_some {tokens : List Str} : ∀ {array array' : ArrayM Str},
    insertAll array tokens = some array' → array'.items = array.items ++ tokens := by
  induction tokens with
  | nil =>
    rintro array _ ⟨⟩
    rw [List.append_nil]
  | cons token tokens ih =>
    intro array array' h
    obtain ⟨next, hnext, h⟩ := Option.bind_eq_some_iff.mp h
    rw [ih h, (ArrayM.insert_eq_some.mp hnext).2.1, List.append_assoc, List.singleton_append]

theorem exists_insertAll (tokens : List Str) : ∀ array : ArrayM Str,
    array.items.length + tokens.length ≤ array.maxSize →
    ∃ array', insertAll array tokens = some array' := by
  induction tokens with
  | nil => exact fun array _ => ⟨array, rfl⟩
  | cons token tokens ih =>
    intro array hroom
    rw [List.length_cons] at hroom
    obtain ⟨next, hnext, hitems, hmax⟩ := ArrayM.exists_insert (a := array) token (by omega)
    obtain ⟨array', harray'⟩ := ih next (by
      rw [hitems, hmax, List.length_append, List.length_singleton]
      omega)
    exact ⟨array', Option.bind_eq_some_iff.mpr ⟨next, hnext, harray'⟩⟩

/-- What the first loop counts: the delimiters, and whether the last character is one. -/
theorem countDelims_spec (delim : Byte) (str : Str) : ∀ (front : Str) (lastDelim : Option ℕ),
    (lastDelim.all (fun i => i + 1 < front.length) = true ↔ front.getLast? ≠ some delim) →
    (∀ i ∈ lastDelim, i < front.length) →
    (countDelims delim str front.length (front.count delim, lastDelim)).1 =
        (front ++ str).count delim ∧
      ((countDelims delim str front.length (front.count delim, lastDelim)).2.all
          (fun i => i + 1 < (front ++ str).length) = true ↔
        (front ++ str).getLast? ≠ some delim) := by
  induction str with
  | nil =>
    intro front lastDelim hlast _
    rw [List.append_nil]
    exact ⟨rfl, hlast⟩
  | cons c str ih =>
    intro front lastDelim hlast hbound
    have hfront : front ++ c :: str = (front ++ [c]) ++ str := by simp
    have hlength : (front ++ [c]).length = front.length + 1 := by simp
    rw [hfront, countDelims, ← hlength]
    split
    · rename_i hc
      have hcount : (front ++ [c]).count delim = front.count delim + 1 := by simp [hc]
      rw [← hcount]
      exact ih (front ++ [c]) (some front.length) (by simp [hc]) (by simp)
    · rename_i hc
      have hcount : (front ++ [c]).count delim = front.count delim := by
        simp [Ne.symm hc]
      rw [← hcount]
      refine ih (front ++ [c]) lastDelim ?_ fun i hi => ?_
      · refine iff_of_true ?_ (by simpa using fun h => hc h.symm)
        rw [Option.all_eq_true]
        intro i hi
        simpa using hbound i hi
      · have hlt := hbound i hi
        omega

theorem splitCapacity_eq (str : Str) (delim : Byte) :
    splitCapacity str delim = str.count delim + if str.getLast? = some delim then 0 else 1 := by
  obtain ⟨hcount, hlast⟩ := countDelims_spec delim str [] none (by simp) (by simp)
  rw [List.nil_append] at hcount hlast
  change (countDelims delim str 0 (0, none)).1 + _ = _
  change (countDelims delim str 0 (0, none)).1 = _ at hcount
  change (countDelims delim str 0 (0, none)).2.all _ = true ↔ _ at hlast
  rw [hcount]
  by_cases hdelim : str.getLast? = some delim
  · rw [if_pos hdelim, if_neg fun h => hlast.mp h hdelim]
  · rw [if_neg hdelim, if_pos (hlast.mpr hdelim)]

theorem length_splitOn (str : Str) (delim : Byte) :
    (str.splitOn delim).length = str.count delim + 1 := by
  induction str with
  | nil => rfl
  | cons c str ih =>
    rw [List.splitOn_cons_eq_if_modifyHead, List.count_cons]
    split
    · rw [List.length_cons, ih]
    · rw [List.length_modifyHead, ih, Nat.add_zero]

/-- **The array is large enough** for the components. -/
theorem components_length_le (path : Str) :
    (components path).length ≤ splitCapacity path slash := by
  rw [splitCapacity_eq]
  split
  · rename_i hlast
    obtain ⟨front, rfl⟩ := List.getLast?_eq_some_iff.mp hlast
    rw [components_append, List.length_append, List.count_append]
    have hle := List.length_filter_le (· ≠ []) (front.splitOn slash)
    rw [length_splitOn] at hle
    simpa [components] using hle
  · have hle := List.length_filter_le (· ≠ []) (path.splitOn slash)
    rwa [length_splitOn] at hle

theorem exists_strSplit (path : Str) :
    ∃ array, strSplit path slash = some array ∧ array.items = components path := by
  have htokens : strtokTokens slash [] path = components path :=
    strtokTokens_eq path [] List.not_mem_nil
  rw [strSplit, htokens]
  obtain ⟨array, harray⟩ := exists_insertAll (components path)
    (ArrayM.create (splitCapacity path slash)) (by
      rw [ArrayM.create_items, ArrayM.create_maxSize, List.length_nil, Nat.zero_add]
      exact components_length_le path)
  exact ⟨array, harray, insertAll_eq_some harray⟩

/-! ### Looking components up -/

theorem strncmpEqual_iff (h : component.length < vfsMaxPathLength) :
    strncmpEqual component name vfsMaxPathLength = true ↔ component = name := by
  rw [strncmpEqual, List.take_of_length_le h.le, beq_iff_eq]
  constructor
  · intro heq
    have hlength := congrArg List.length heq
    rw [List.length_take] at hlength
    rw [heq]
    exact List.take_of_length_le (by omega)
  · rintro rfl
    exact (List.take_of_length_le h.le).symm

/-- The loop goes to the child of this name, unless the child is a file and more is to come. -/
theorem searchChildren_cases (t : FileTree α) (hcomponent : component.length < vfsMaxPathLength)
    (last : Bool) (recurse : α → Option (Option α)) : ∀ nodes : List α,
    (∃ b ∈ nodes, (t.node b).name = component ∧ searchChildren t component last recurse nodes =
      if last then some (some b) else recurse b) ∨
    (searchChildren t component last recurse nodes = some none ∧
      ∀ b ∈ nodes, (t.node b).name = component → last = false ∧ (t.node b).isDirectory = false)
  | [] => .inr ⟨rfl, fun _ h => by cases h⟩
  | node :: nodes => by
    rw [searchChildren]
    by_cases hname : component = (t.node node).name
    · rw [if_pos ((strncmpEqual_iff hcomponent).mpr hname)]
      by_cases hgoes : last = true ∨ (t.node node).isDirectory = true
      · refine .inl ⟨node, List.mem_cons_self, hname.symm, ?_⟩
        rcases hgoes with hlast | hdirectory
        · rw [if_pos hlast, if_pos hlast]
        · rw [if_pos hdirectory]
      · obtain ⟨hlast, hdirectory⟩ := not_or.mp hgoes
        rw [if_neg hlast, if_neg hdirectory]
        obtain ⟨b, hb, hbname, hsearch⟩ | ⟨hsearch, hnone⟩ :=
          searchChildren_cases t hcomponent last recurse nodes
        · exact .inl ⟨b, .tail _ hb, hbname, hsearch.trans (by rw [if_neg hlast])⟩
        · refine .inr ⟨hsearch, List.forall_mem_cons.mpr ⟨fun _ => ?_, hnone⟩⟩
          exact ⟨by simpa using hlast, by simpa using hdirectory⟩
    · rw [if_neg (mt (strncmpEqual_iff hcomponent).mp hname)]
      obtain ⟨b, hb, hbname, hsearch⟩ | ⟨hsearch, hnone⟩ :=
        searchChildren_cases t hcomponent last recurse nodes
      · exact .inl ⟨b, .tail _ hb, hbname, hsearch⟩
      · exact .inr ⟨hsearch, List.forall_mem_cons.mpr ⟨fun h => absurd h.symm hname, hnone⟩⟩

theorem follows_nil_iff : Follows t a [] c ↔ a = c :=
  ⟨fun h => by cases h; rfl, fun h => h ▸ .here a⟩

theorem follows_cons_iff :
    Follows t a (name :: names) c ↔
      ∃ b ∈ (t.node a).children, (t.node b).name = name ∧ Follows t b names c := by
  constructor
  · intro h
    cases h with
    | child hb h => exact ⟨_, hb, rfl, h⟩
  · rintro ⟨b, hb, rfl, h⟩
    exact .child hb h

theorem follows_child_iff {a b c : α} (hb : b ∈ (t.node a).children) :
    Follows t a ((t.node b).name :: names) c ↔ Follows t b names c := by
  rw [follows_cons_iff]
  constructor
  · rintro ⟨b', hb', hname, h⟩
    rwa [t.distinct a b' hb' b hb hname] at h
  · exact fun h => ⟨b, hb, rfl, h⟩

/-- **Looking components up** returns the node they lead to, or NULL. -/
theorem findInDirectory_spec (t : FileTree α) : ∀ {names : List Str}, names ≠ [] →
    (∀ name ∈ names, name.length < vfsMaxPathLength) → ∀ directory : α,
    ∃ result, findInDirectory t names directory = some result ∧
      ∀ a, result = some a ↔ Follows t directory names a
  | [], hne, _, _ => absurd rfl hne
  | name :: names, _, hshort, directory => by
    obtain ⟨hname, hrest⟩ := List.forall_mem_cons.mp hshort
    rw [findInDirectory]
    obtain ⟨b, hb, rfl, hsearch⟩ | ⟨hsearch, hnone⟩ := searchChildren_cases t hname names.isEmpty
      (findInDirectory t names) (t.node directory).children
    · rw [hsearch]
      cases names with
      | nil =>
        refine ⟨some b, rfl, fun a => ?_⟩
        rw [follows_child_iff hb, follows_nil_iff, Option.some.injEq]
      | cons next names =>
        obtain ⟨result, hresult, hfollows⟩ := findInDirectory_spec t
          (List.cons_ne_nil next names) hrest b
        refine ⟨result, hresult, fun a => ?_⟩
        rw [follows_child_iff hb]
        exact hfollows a
    · refine ⟨none, hsearch, fun a => iff_of_false (by simp) ?_⟩
      rw [follows_cons_iff]
      rintro ⟨b, hb, hbname, h⟩
      obtain ⟨hlast, hdirectory⟩ := hnone b hb hbname
      cases names with
      | nil => cases hlast
      | cons next names =>
        obtain ⟨c, hc, -⟩ := follows_cons_iff.mp h
        rw [t.directory b c hc] at hdirectory
        cases hdirectory

theorem component_length_lt (hpath : path.length < vfsMaxPathLength) (h : name ∈ components path) :
    name.length < vfsMaxPathLength :=
  (mem_splitOn (List.mem_of_mem_filter h)).2.trans_lt hpath

theorem vfsFindNodeByPath_spec (t : FileTree α) (hpath : path.length < vfsMaxPathLength)
    (hne : components path ≠ []) :
    ∃ result, vfsFindNodeByPath t path = some result ∧
      ∀ a, result = some a ↔ Follows t t.root (components path) a := by
  obtain ⟨array, harray, hitems⟩ := exists_strSplit path
  have hroot : ¬path = (t.node t.root).name := by
    rw [t.root_name]
    rintro rfl
    exact hne rfl
  rw [vfsFindNodeByPath, if_neg (mt (strncmpEqual_iff hpath).mp hroot), harray, Option.bind_some,
    hitems]
  exact findInDirectory_spec t hne (fun name h => component_length_lt hpath h) t.root

/-- Without components, the lookup in the root fails or returns NULL. -/
theorem vfsFindNodeByPath_degenerate (t : FileTree α) (hpath : path.length < vfsMaxPathLength)
    (hne : path ≠ [slash]) (hnil : components path = []) (a : α) :
    vfsFindNodeByPath t path ≠ some (some a) := by
  have hroot : ¬path = (t.node t.root).name := by rwa [t.root_name]
  obtain ⟨array, harray, hitems⟩ := exists_strSplit path
  rw [vfsFindNodeByPath, if_neg (mt (strncmpEqual_iff hpath).mp hroot), harray, Option.bind_some,
    hitems, hnil, findInDirectory]
  split <;> simp

/-- A path without components is right only if it is the name of the root. -/
theorem lookedUp_iff (t : FileTree α) (hpath : path.length < vfsMaxPathLength) :
    LookedUp t path ↔ path = [slash] ∨ components path ≠ [] := by
  by_cases hne : components path = []
  · rw [or_iff_left (not_not.mpr hne)]
    constructor
    · rintro ⟨result, hresult, hfollows⟩
      by_contra hslash
      have hroot : result = some t.root := (hfollows t.root).mpr (by rw [hne]; exact .here _)
      rw [hroot] at hresult
      exact vfsFindNodeByPath_degenerate t hpath hslash hne t.root hresult
    · rintro rfl
      refine ⟨some t.root, ?_, fun a => ?_⟩
      · rw [vfsFindNodeByPath, if_pos ((strncmpEqual_iff hpath).mpr t.root_name.symm)]
      · rw [hne, follows_nil_iff, Option.some.injEq]
  · exact iff_of_true (vfsFindNodeByPath_spec t hpath hne) (.inr hne)

/-! ### The path of a node -/

theorem follows_concat_iff : ∀ {names : List Str} {a : α},
    Follows t a (names ++ [name]) c ↔
      ∃ b, Follows t a names b ∧ c ∈ (t.node b).children ∧ (t.node c).name = name
  | [], a => by
    rw [List.nil_append, follows_cons_iff]
    constructor
    · rintro ⟨b, hb, hname, h⟩
      obtain rfl := follows_nil_iff.mp h
      exact ⟨a, .here a, hb, hname⟩
    · rintro ⟨b, h, hc, hname⟩
      obtain rfl := follows_nil_iff.mp h
      exact ⟨c, hc, hname, .here c⟩
  | first :: names, a => by
    rw [List.cons_append, follows_cons_iff]
    constructor
    · rintro ⟨d, hd, hname, h⟩
      obtain ⟨b, hb, hc⟩ := follows_concat_iff.mp h
      exact ⟨b, follows_cons_iff.mpr ⟨d, hd, hname, hb⟩, hc⟩
    · rintro ⟨b, h, hc⟩
      obtain ⟨d, hd, hname, hb⟩ := follows_cons_iff.mp h
      exact ⟨d, hd, hname, follows_concat_iff.mpr ⟨b, hb, hc⟩⟩

theorem exists_follows (t : FileTree α) (node : α) : ∃ names, Follows t t.root names node := by
  induction hdepth : t.depth node using Nat.strongRecOn generalizing node with
  | ind depth ih =>
    by_cases hroot : node = t.root
    · exact ⟨[], hroot ▸ .here _⟩
    · obtain ⟨parent, hparent⟩ := t.parent_of_ne node hroot
      obtain ⟨names, hnames⟩ := ih _ (hdepth ▸ t.depth_parent node parent hparent) parent rfl
      exact ⟨_, follows_concat_iff.mpr ⟨parent, hnames, (t.mem_children _ _).mpr hparent, rfl⟩⟩

/-- The loop over the parents goes back where the names came from. -/
theorem collectNames_eq : ∀ {node : α},
    Follows t t.root names node → ∀ array : ArrayM Str,
    collectNames t node array = insertAll array names.reverse := by
  induction names using List.reverseRecOn with
  | nil =>
    intro node h array
    obtain rfl := follows_nil_iff.mp h
    rw [collectNames]
    split
    · rfl
    · rename_i hparent
      rw [t.root_parent] at hparent
      cases hparent
  | append_singleton names name ih =>
    intro node h array
    obtain ⟨parent, hfollows, hmem, rfl⟩ := follows_concat_iff.mp h
    have hparent := (t.mem_children parent node).mp hmem
    rw [collectNames]
    split
    · rename_i hnone
      rw [hparent] at hnone
      cases hnone
    · rename_i parent' hparent'
      obtain rfl : parent = parent' := Option.some.inj (hparent.symm.trans hparent')
      rw [List.reverse_append, List.reverse_singleton, List.singleton_append, insertAll]
      exact congrArg _ (funext fun array => ih hfollows array)

/-- A node is in one place. -/
theorem follows_unique {names names' : List Str} (h : Follows t t.root names node)
    (h' : Follows t t.root names' node) : names = names' := by
  obtain ⟨array, harray⟩ := exists_insertAll names.reverse
    (ArrayM.create names.length) (by simp)
  have hitems := insertAll_eq_some harray
  rw [← collectNames_eq h, collectNames_eq h'] at harray
  exact List.reverse_injective (List.append_cancel_left (hitems.symm.trans (insertAll_eq_some harray)))

/-- The names with a slash before each. -/
def joined (names : List Str) : Str := names.flatMap (slash :: ·)

section

variable (names : List Str)

theorem joined_length : (joined names).length = (names.map fun name => name.length + 1).sum := by
  rw [joined, List.length_flatMap]
  rfl

theorem foldl_appendComponent : ∀ front : Str,
    front.length + (joined names).length < vfsMaxPathLength →
    names.foldl appendComponent front = front ++ joined names := by
  induction names with
  | nil => exact fun front _ => (List.append_nil front).symm
  | cons name names ih =>
    intro front hfits
    have hcons : joined (name :: names) = slash :: name ++ joined names := List.flatMap_cons
    rw [hcons, List.length_append] at hfits
    have happend : appendComponent front name = front ++ slash :: name := by
      refine List.take_of_length_le ?_
      rw [List.length_append]
      omega
    rw [List.foldl_cons, happend, ih _ (by rw [List.length_append]; omega), hcons,
      List.append_assoc]

theorem components_joined : components (joined names) = names.flatMap components := by
  induction names with
  | nil => rfl
  | cons name names ih =>
    have hcons : joined (name :: names) = slash :: (name ++ joined names) := List.flatMap_cons
    rw [hcons, components_slash, List.flatMap_cons, ← ih]
    cases names with
    | nil =>
      change components (name ++ []) = components name ++ []
      rw [List.append_nil, List.append_nil]
    | cons next names =>
      have hnext : joined (next :: names) = slash :: (next ++ joined names) := List.flatMap_cons
      rw [hnext, components_append, components_slash]

theorem components_joined_eq_iff :
    components (joined names) = names ↔ ∀ name ∈ names, name ≠ [] ∧ slash ∉ name := by
  constructor
  · intro h name hname
    rw [← h] at hname
    exact mem_components hname
  · intro h
    rw [components_joined]
    induction names with
    | nil => rfl
    | cons name names ih =>
      obtain ⟨⟨hne, hslash⟩, hrest⟩ := List.forall_mem_cons.mp h
      rw [List.flatMap_cons, components_name hne hslash, ih hrest, List.singleton_append]

end

theorem length_le_of_fits (h : ∀ name ∈ names, name ≠ []) :
    2 * names.length ≤ (names.map fun name => name.length + 1).sum := by
  induction names with
  | nil => exact Nat.le_refl _
  | cons name names ih =>
    obtain ⟨hne, hrest⟩ := List.forall_mem_cons.mp h
    have hpos := List.length_pos_of_ne_nil hne
    have hle := ih hrest
    rw [List.length_cons, List.map_cons, List.sum_cons]
    omega

/-- **A node is found again** exactly when the names above it can be told apart in a path. -/
theorem foundAgain_iff [DecidableEq α] (h : Follows t t.root names node) (hfits : PathFits names) :
    FoundAgain t node ↔ ∀ name ∈ names, name ≠ [] ∧ slash ∉ name := by
  by_cases hroot : node = t.root
  · subst hroot
    obtain rfl : names = [] := follows_unique h (.here _)
    refine iff_of_true ⟨[slash], by rw [vfsPathForNode, if_pos rfl], ?_⟩ fun _ h => by cases h
    rw [vfsFindNodeByPath, t.root_name]
    rfl
  · have hlength : (joined names).length < vfsMaxPathLength := by rwa [joined_length]
    have hpath : vfsPathForNode t node =
        (insertAll (ArrayM.create 64) names.reverse).map fun _ => joined names := by
      rw [vfsPathForNode, if_neg hroot, collectNames_eq h]
      cases harray : insertAll (ArrayM.create 64) names.reverse with
      | none => rfl
      | some array =>
        have hitems : array.items = names.reverse := insertAll_eq_some harray
        have hjoined := foldl_appendComponent names [] (by simpa using hlength)
        rw [Option.map_some, Option.map_some, hitems, List.reverse_reverse, hjoined,
          List.nil_append]
    constructor
    · rintro ⟨path, hjoined, hfound⟩
      rw [hpath] at hjoined
      obtain ⟨-, -, rfl⟩ := Option.map_eq_some_iff.mp hjoined
      have hlooked : LookedUp t (joined names) := by
        rw [lookedUp_iff t hlength]
        by_contra hdegenerate
        obtain ⟨hslash, hnil⟩ := not_or.mp hdegenerate
        exact vfsFindNodeByPath_degenerate t hlength hslash (not_not.mp hnil) node hfound
      obtain ⟨result, hresult, hfollows⟩ := hlooked
      rw [hfound] at hresult
      obtain rfl := Option.some.inj hresult
      exact (components_joined_eq_iff names).mp (follows_unique ((hfollows node).mp rfl) h)
    · intro hnames
      have hcomponents := (components_joined_eq_iff names).mpr hnames
      have hne : names ≠ [] := by
        rintro rfl
        exact hroot (follows_nil_iff.mp h).symm
      obtain ⟨array, harray⟩ := exists_insertAll names.reverse
        (ArrayM.create 64) (by
          have hle := length_le_of_fits fun name hname => (hnames name hname).1
          have hsum := hfits
          rw [PathFits, vfsMaxPathLength] at hsum
          rw [ArrayM.create_items, ArrayM.create_maxSize, List.length_reverse]
          simp only [List.length_nil]
          omega)
      obtain ⟨result, hresult, hfollows⟩ :=
        vfsFindNodeByPath_spec t hlength (by rwa [hcomponents])
      refine ⟨joined names, by rw [hpath, harray]; rfl, ?_⟩
      rw [hcomponents] at hfollows
      rw [hresult, (hfollows node).mpr h]

/-- **Paths.**  A path is looked up right exactly when it is `/` or has a component, and a node whose
path fits is found again exactly when the names on its path are not empty and have no slash. -/
theorem paths_iff [DecidableEq α] (t : FileTree α) :
    (∀ path : Str, path.length < vfsMaxPathLength →
      (LookedUp t path ↔ path = [slash] ∨ components path ≠ [])) ∧
    ∀ node, ∃ names, Follows t t.root names node ∧
      (PathFits names →
        (FoundAgain t node ↔ ∀ name ∈ names, name ≠ [] ∧ slash ∉ name)) := by
  refine ⟨fun path hpath => lookedUp_iff t hpath, fun node => ?_⟩
  obtain ⟨names, hnames⟩ := exists_follows t node
  exact ⟨names, hnames, foundAgain_iff hnames⟩

/-- A root with one file, `a`. -/
def smallTree : FileTree Bool where
  node
    | false => ⟨[slash], none, true, [true]⟩
    | true => ⟨[0x61], some false, false, []⟩
  root := false
  depth a := a.toNat
  root_name := rfl
  root_parent := rfl
  parent_of_ne := by decide
  mem_children := by decide
  directory := by decide
  distinct := by decide
  depth_parent := by decide

theorem paths_smallTree : LookedUp smallTree [slash, slash, 0x61, slash] :=
  ((paths_iff smallTree).1 [slash, slash, 0x61, slash] (by decide)).mpr (by decide)

/-- Two slashes, or no character at all, instead of the root. -/
theorem lookup_without_components :
    vfsFindNodeByPath smallTree [slash, slash] = none ∧ vfsFindNodeByPath smallTree [] = none ∧
      Follows smallTree smallTree.root (components [slash, slash]) smallTree.root ∧
      ¬LookedUp smallTree [slash, slash] := by
  have hlookup : vfsFindNodeByPath smallTree [slash, slash] = none := by decide
  refine ⟨hlookup, by decide, .here _, ?_⟩
  rintro ⟨result, hresult, -⟩
  cases hresult

end Axle.FileManager.Vfs
