import Axle.Lib.StepRun
import Mathlib.Tactic

/-!
# The file server of the initial ramdisk

`initrd_fs` answers requests about a directory image that never changes.  All handlers look a path
up with `fs_entry_find`, whose result has the directory or the file, and use the one they expect.
Offsets and lengths come as the client has sent them.

Strings are lists of characters here; what is cut off at a number of bytes has to end between two
characters, or the program panics.  The server is built without overflow checks.

* `handle` — the handlers, where `none` is a panic and `some none` that nothing is sent;
* `survives_iff` — **PROVED**: a server answers all requests, and every `ReadFilePart` with the
  bytes asked for, if and only if each of them is `Served`;
* `handle_readFile`, `handle_checkFileExists_file` — **PROVED**: the other answers about files.
-/

namespace Axle.FileServer

open Axle.Lib.StepRun

/-! ### Strings in messages -/

/-- A string of the source. -/
abbrev Str := List Char

abbrev Byte := BitVec 8

def nul : Char := Char.ofNat 0

/-- The length in bytes. -/
def byteLen (s : Str) : ℕ := (s.map Char.utf8Size).sum

/-- `s[..n]`, which panics inside a character. -/
def takeBytes : Str → ℕ → Option Str
  | _, 0 => some []
  | [], _ + 1 => none
  | c :: s, n + 1 =>
    if c.utf8Size ≤ n + 1 then (takeBytes s (n + 1 - c.utf8Size)).map (c :: ·) else none

/-- What the slice gets, up to the terminator.  `CString::new` fails on a zero inside. -/
def copyStrIntoSizedSlice (size : ℕ) (s : Str) : Option Str :=
  (takeBytes s (min (byteLen s) (size - 1))).bind fun trimmed =>
    if nul ∈ trimmed then none else some trimmed

/-- The size of every path and name field. -/
def fieldSize : ℕ := 64

/-- A path field of a request: what stands before the first zero, if there is one. -/
structure RequestPath where
  chars : Str
  noNul : nul ∉ chars
  fits : byteLen chars ≤ fieldSize

/-! ### The directory image -/

structure DirectoryImage where
  name : Str
  files : List (Str × List Byte)
  subdirectories : List (Str × DirectoryImage)

structure FsEntry where
  path : Str
  isDir : Bool
  dirImage : Option DirectoryImage
  fileData : Option (List Byte)

/-- The traversal: the components still to go. -/
def fsEntryFindFrom (path : Str) : List Str → DirectoryImage → Option FsEntry
  | [], dir => some ⟨path, true, some dir, none⟩
  | component :: rest, dir =>
    if component = [] then fsEntryFindFrom path rest dir
    else
      match dir.subdirectories.lookup component with
      | some subdir => fsEntryFindFrom path rest subdir
      | none =>
        match dir.files.lookup component with
        | none => none
        | some file => some ⟨path, false, none, some file⟩

def fsEntryFind (rootDir : DirectoryImage) (path : Str) : Option FsEntry :=
  fsEntryFindFrom path (path.splitOn '/') rootDir

/-! ### Messages -/

structure DirectoryEntry where
  name : Str
  isDirectory : Bool
  deriving DecidableEq, Repr

def DirectoryEntry.new (name : Str) (isDirectory : Bool) : Option DirectoryEntry :=
  (copyStrIntoSizedSlice fieldSize name).map fun name => ⟨name, isDirectory⟩

inductive Request where
  | readDirectory (dir : RequestPath)
  | readFile (path : RequestPath)
  | readFilePart (path : RequestPath) (offset len : BitVec 64)
  | checkFileExists (path : RequestPath)

inductive Response where
  | directoryContents (entries : List DirectoryEntry)
  | readFile (path : Str) (len : ℕ) (data : List Byte)
  | readFilePart (path : Str) (dataLen : ℕ) (data : List Byte)
  | checkFileExists (path : Str) (found : Bool) (fileSize : ℕ)
  deriving DecidableEq, Repr

/-! ### The handlers -/

/-- The entries of a directory: the directories in it, then the files. -/
def DirectoryImage.entries (dir : DirectoryImage) : List (Str × Bool) :=
  dir.subdirectories.map (fun kv => (kv.1, true)) ++ dir.files.map fun kv => (kv.1, false)

/-- The number of entries of a `DirectoryContents`. -/
def maxEntries : ℕ := 128

/-- The two loops of `from_dir_image`, with the entries filled in so far. -/
def fillEntries : List (Str × Bool) → List DirectoryEntry → Option (List DirectoryEntry)
  | [], filled => some filled
  | (name, isDirectory) :: rest, filled =>
    (DirectoryEntry.new name isDirectory).bind fun entry =>
      if filled.length < maxEntries then fillEntries rest (filled ++ [entry]) else none

def fromDirImage (dir : DirectoryImage) : Option (List DirectoryEntry) :=
  fillEntries dir.entries []

def readDirectory (rootDir : DirectoryImage) (dir : RequestPath) : Option (Option Response) :=
  match fsEntryFind rootDir dir.chars with
  | none => some none
  | some entry =>
    if entry.isDir then
      entry.dirImage.bind fun image =>
        (fromDirImage image).map fun entries => some (.directoryContents entries)
    else some none

def readFile (rootDir : DirectoryImage) (path : RequestPath) : Option (Option Response) :=
  match fsEntryFind rootDir path.chars with
  | none => some none
  | some entry =>
    -- "Can't read directories"
    if entry.isDir then some none
    else
      entry.fileData.bind fun data =>
        (copyStrIntoSizedSlice fieldSize entry.path).map fun sent =>
          some (.readFile sent data.length data)

/-- `&data[start..end]` -/
def slice (data : List Byte) (start stop : ℕ) : Option (List Byte) :=
  if start ≤ stop ∧ stop ≤ data.length then some ((data.take stop).drop start) else none

def readFilePart (rootDir : DirectoryImage) (path : RequestPath) (offset len : BitVec 64) :
    Option (Option Response) :=
  match fsEntryFind rootDir path.chars with
  | none => some none
  | some entry =>
    if entry.isDir then some none
    else
      entry.fileData.bind fun data =>
        let endIdx := min (offset + len).toNat data.length
        (slice data offset.toNat endIdx).bind fun part =>
          (copyStrIntoSizedSlice fieldSize entry.path).map fun sent =>
            some (.readFilePart sent part.length part)

def checkFileExists (rootDir : DirectoryImage) (path : RequestPath) : Option (Option Response) :=
  let maybeFsEntry := fsEntryFind rootDir path.chars
  let fileSize :=
    match maybeFsEntry with
    | none => some 0
    | some entry => entry.fileData.map List.length
  fileSize.bind fun fileSize =>
    (copyStrIntoSizedSlice fieldSize path.chars).map fun sent =>
      some (.checkFileExists sent maybeFsEntry.isSome fileSize)

def handle (rootDir : DirectoryImage) : Request → Option (Option Response)
  | .readDirectory dir => readDirectory rootDir dir
  | .readFile path => readFile rootDir path
  | .readFilePart path offset len => readFilePart rootDir path offset len
  | .checkFileExists path => checkFileExists rootDir path

/-- The loop of the server, with the answers so far. -/
def serve (rootDir : DirectoryImage) (answers : List (Option Response)) (request : Request) :
    Option (List (Option Response)) :=
  (handle rootDir request).map fun answer => answers ++ [answer]

/-! ### What the server must do -/

/-- A part of a file is answered with the bytes from `min(offset, n)` to `min(offset + len, n)`. -/
def AnswerExact (rootDir : DirectoryImage) : Request → Option Response → Prop
  | .readFilePart path offset len, answer =>
    ∀ entry ∈ fsEntryFind rootDir path.chars, ∀ data ∈ entry.fileData, ∃ sent part,
      answer = some (.readFilePart sent part.length part) ∧
        part = (data.take (min (offset.toNat + len.toNat) data.length)).drop
          (min offset.toNat data.length)
  | _, _ => True

/-- What fits a field: the first 63 bytes end between two characters and have no zero. -/
def FitsField (s : Str) : Prop :=
  ∃ t, t <+: s ∧ byteLen t = min (byteLen s) (fieldSize - 1) ∧ nul ∉ t

/-- What a request needs.  A directory must have at most 128 entries, whose names fit; a part of a
file must begin in the file and end below 2^64; a file that is asked about must not be a directory;
a path that is sent back must fit. -/
def Served (rootDir : DirectoryImage) : Request → Prop
  | .readDirectory dir =>
    ∀ entry ∈ fsEntryFind rootDir dir.chars, ∀ image ∈ entry.dirImage,
      image.entries.length ≤ maxEntries ∧ ∀ e ∈ image.entries, FitsField e.1
  | .readFile path =>
    ∀ entry ∈ fsEntryFind rootDir path.chars, entry.isDir = false → FitsField path.chars
  | .readFilePart path offset len =>
    ∀ entry ∈ fsEntryFind rootDir path.chars, ∀ data ∈ entry.fileData,
      offset.toNat ≤ data.length ∧ offset.toNat + len.toNat < 2 ^ 64 ∧ FitsField path.chars
  | .checkFileExists path =>
    (∀ entry ∈ fsEntryFind rootDir path.chars, entry.isDir = false) ∧ FitsField path.chars

/-! ### Strings -/

theorem byteLen_cons (c : Char) (s : Str) : byteLen (c :: s) = c.utf8Size + byteLen s := rfl

theorem takeBytes_eq_some_iff (s : Str) : ∀ {n : ℕ} {t : Str},
    takeBytes s n = some t ↔ t <+: s ∧ byteLen t = n := by
  induction s with
  | nil =>
    intro n t
    cases n with
    | zero =>
      rw [takeBytes, Option.some.injEq, List.prefix_nil]
      exact ⟨fun h => h ▸ ⟨rfl, rfl⟩, fun h => h.1.symm⟩
    | succ n =>
      rw [takeBytes, List.prefix_nil]
      constructor
      · exact fun h => absurd h (by simp)
      · rintro ⟨rfl, h⟩
        exact absurd h (by simp [byteLen])
  | cons c s ih =>
    intro n t
    cases n with
    | zero =>
      rw [takeBytes, Option.some.injEq]
      constructor
      · rintro rfl
        exact ⟨List.nil_prefix, rfl⟩
      · rintro ⟨hstarts, hlen⟩
        cases t with
        | nil => rfl
        | cons a t =>
          have := Char.utf8Size_pos a
          rw [byteLen_cons] at hlen
          omega
    | succ n =>
      rw [takeBytes]
      constructor
      · intro h
        split at h
        · obtain ⟨rest, hrest, rfl⟩ := Option.map_eq_some_iff.mp h
          obtain ⟨hstarts, hlen⟩ := ih.mp hrest
          refine ⟨List.cons_prefix_cons.mpr ⟨rfl, hstarts⟩, ?_⟩
          rw [byteLen_cons, hlen]
          omega
        · exact absurd h (by simp)
      · rintro ⟨hstarts, hlen⟩
        cases t with
        | nil => exact absurd hlen (by simp [byteLen])
        | cons a t =>
          obtain ⟨rfl, htail⟩ := List.cons_prefix_cons.mp hstarts
          rw [byteLen_cons] at hlen
          have hlen' : byteLen t = n + 1 - a.utf8Size := by omega
          rw [if_pos (by omega), ih.mpr ⟨htail, hlen'⟩]
          rfl

/-- **When a string can be copied into a field (proved).** -/
theorem exists_copyStr_iff (s : Str) :
    (∃ sent, copyStrIntoSizedSlice fieldSize s = some sent) ↔ FitsField s := by
  constructor
  · rintro ⟨sent, h⟩
    obtain ⟨t, ht, hsent⟩ := Option.bind_eq_some_iff.mp h
    split at hsent
    · exact absurd hsent (by simp)
    · rename_i hnul
      obtain ⟨hstarts, hlen⟩ := (takeBytes_eq_some_iff s).mp ht
      exact ⟨t, hstarts, hlen, hnul⟩
  · rintro ⟨t, hstarts, hlen, hnul⟩
    refine ⟨t, Option.bind_eq_some_iff.mpr ⟨t, (takeBytes_eq_some_iff s).mpr ⟨hstarts, hlen⟩, ?_⟩⟩
    rw [if_neg hnul]

/-! ### Looking up a path -/

/-- An entry has exactly the field of its kind. -/
theorem fsEntryFindFrom_kind {path : Str} : ∀ {components : List Str} {dir : DirectoryImage}
    {entry : FsEntry}, fsEntryFindFrom path components dir = some entry →
    entry.path = path ∧
      ((entry.isDir = true ∧ (∃ image, entry.dirImage = some image) ∧ entry.fileData = none) ∨
        (entry.isDir = false ∧ entry.dirImage = none ∧ ∃ data, entry.fileData = some data)) := by
  intro components
  induction components with
  | nil =>
    intro dir entry h
    rw [fsEntryFindFrom, Option.some.injEq] at h
    subst h
    exact ⟨rfl, .inl ⟨rfl, ⟨dir, rfl⟩, rfl⟩⟩
  | cons component rest ih =>
    intro dir entry h
    rw [fsEntryFindFrom] at h
    split at h
    · exact ih h
    · split at h
      · exact ih h
      · split at h
        · exact absurd h (by simp)
        · rename_i file _
          rw [Option.some.injEq] at h
          subst h
          exact ⟨rfl, .inr ⟨rfl, rfl, file, rfl⟩⟩

theorem fsEntryFind_kind {rootDir : DirectoryImage} {path : Str} {entry : FsEntry}
    (h : fsEntryFind rootDir path = some entry) :
    entry.path = path ∧
      ((entry.isDir = true ∧ (∃ image, entry.dirImage = some image) ∧ entry.fileData = none) ∨
        (entry.isDir = false ∧ entry.dirImage = none ∧ ∃ data, entry.fileData = some data)) :=
  fsEntryFindFrom_kind h

/-! ### Filling a directory message -/

theorem exists_entry_new_iff (name : Str) (isDirectory : Bool) :
    (∃ entry, DirectoryEntry.new name isDirectory = some entry) ↔ FitsField name := by
  rw [← exists_copyStr_iff]
  constructor
  · rintro ⟨entry, h⟩
    obtain ⟨sent, hsent, _⟩ := Option.map_eq_some_iff.mp h
    exact ⟨sent, hsent⟩
  · rintro ⟨sent, hsent⟩
    exact ⟨⟨sent, isDirectory⟩, Option.map_eq_some_iff.mpr ⟨sent, hsent, rfl⟩⟩

/-- The loops run through if there is room for the rest and its names fit. -/
theorem exists_fillEntries_iff : ∀ (rest : List (Str × Bool)) (filled : List DirectoryEntry),
    filled.length ≤ maxEntries →
    ((∃ entries, fillEntries rest filled = some entries) ↔
      filled.length + rest.length ≤ maxEntries ∧ ∀ e ∈ rest, FitsField e.1) := by
  intro rest
  induction rest with
  | nil =>
    intro filled hfilled
    exact ⟨fun _ => ⟨hfilled, fun e he => absurd he List.not_mem_nil⟩, fun _ => ⟨filled, rfl⟩⟩
  | cons e rest ih =>
    intro filled hfilled
    obtain ⟨name, isDirectory⟩ := e
    rw [List.forall_mem_cons, ← exists_entry_new_iff name isDirectory, List.length_cons]
    have hnext : ∀ entry : DirectoryEntry, (filled ++ [entry]).length = filled.length + 1 :=
      fun entry => by rw [List.length_append, List.length_singleton]
    constructor
    · rintro ⟨entries, h⟩
      obtain ⟨entry, hentry, hrest⟩ := Option.bind_eq_some_iff.mp h
      split at hrest
      · rename_i hroom
        have hall := (ih (filled ++ [entry]) (by rw [hnext]; exact hroom)).mp ⟨entries, hrest⟩
        rw [hnext] at hall
        exact ⟨by omega, ⟨entry, hentry⟩, hall.2⟩
      · exact absurd hrest (by simp)
    · rintro ⟨hroom, ⟨entry, hentry⟩, hfits⟩
      obtain ⟨entries, h⟩ := (ih (filled ++ [entry]) (by rw [hnext]; omega)).mpr
        ⟨by rw [hnext]; omega, hfits⟩
      refine ⟨entries, ?_⟩
      rw [fillEntries, hentry, Option.bind_some, if_pos (by omega)]
      exact h

theorem exists_fromDirImage_iff (dir : DirectoryImage) :
    (∃ entries, fromDirImage dir = some entries) ↔
      dir.entries.length ≤ maxEntries ∧ ∀ e ∈ dir.entries, FitsField e.1 := by
  have h := exists_fillEntries_iff dir.entries [] (Nat.zero_le _)
  rw [List.length_nil, Nat.zero_add] at h
  exact h

/-! ### The handlers -/

section Handlers

variable {rootDir : DirectoryImage} {path : RequestPath}

theorem exists_readDirectory_iff :
    (∃ answer, readDirectory rootDir path = some answer) ↔
      Served rootDir (.readDirectory path) := by
  unfold readDirectory Served
  cases hentry : fsEntryFind rootDir path.chars with
  | none => simp [hentry]
  | some entry =>
    obtain ⟨_, ⟨hdir, ⟨image, himage⟩, _⟩ | ⟨hdir, himage, _⟩⟩ := fsEntryFind_kind hentry
    · simp [hentry, hdir, himage, ← exists_fromDirImage_iff, -Prod.forall]
    · simp [hentry, hdir, himage]

theorem exists_readFile_iff :
    (∃ answer, readFile rootDir path = some answer) ↔ Served rootDir (.readFile path) := by
  unfold readFile Served
  cases hentry : fsEntryFind rootDir path.chars with
  | none => simp [hentry]
  | some entry =>
    obtain ⟨hpath, ⟨hdir, _, _⟩ | ⟨hdir, _, data, hdata⟩⟩ := fsEntryFind_kind hentry
    · simp [hentry, hdir]
    · simp [hentry, hdir, hdata, hpath, ← exists_copyStr_iff]

theorem exists_checkFileExists_iff :
    (∃ answer, checkFileExists rootDir path = some answer) ↔
      Served rootDir (.checkFileExists path) := by
  unfold checkFileExists Served
  cases hentry : fsEntryFind rootDir path.chars with
  | none => simp [hentry, ← exists_copyStr_iff]
  | some entry =>
    obtain ⟨_, ⟨hdir, _, hdata⟩ | ⟨hdir, _, data, hdata⟩⟩ := fsEntryFind_kind hentry
    · simp [hentry, hdir, hdata]
    · simp [hentry, hdir, hdata, ← exists_copyStr_iff]

/-- A sum that wraps around is below the offset, so there is no slice then either. -/
theorem slice_eq_some_iff {data part : List Byte} {offset len : BitVec 64} :
    slice data offset.toNat (min (offset + len).toNat data.length) = some part ↔
      (offset.toNat ≤ data.length ∧ offset.toNat + len.toNat < 2 ^ 64) ∧
        part = (data.take (min (offset.toNat + len.toNat) data.length)).drop
          (min offset.toNat data.length) := by
  unfold slice
  rw [BitVec.toNat_add]
  by_cases hwrap : offset.toNat + len.toNat < 2 ^ 64
  · rw [Nat.mod_eq_of_lt hwrap]
    by_cases hin : offset.toNat ≤ data.length
    · rw [if_pos ⟨le_min (Nat.le_add_right _ _) hin, Nat.min_le_right _ _⟩, min_eq_left hin,
        Option.some.injEq]
      exact ⟨fun h => ⟨⟨hin, hwrap⟩, h.symm⟩, fun h => h.2.symm⟩
    · rw [if_neg fun h => hin (h.1.trans (Nat.min_le_right _ _))]
      exact ⟨fun h => absurd h (by simp), fun h => absurd h.1.1 hin⟩
  · have hsum : (offset.toNat + len.toNat) % 2 ^ 64 < offset.toNat := by omega
    rw [if_neg fun h => absurd (h.1.trans (Nat.min_le_left _ _)) (Nat.not_le.mpr hsum)]
    exact ⟨fun h => absurd h (by simp), fun h => absurd h.1.2 hwrap⟩

theorem readFilePart_file {entry : FsEntry} {data : List Byte} (offset len : BitVec 64)
    (hentry : fsEntryFind rootDir path.chars = some entry) (hdir : entry.isDir = false)
    (hdata : entry.fileData = some data) :
    readFilePart rootDir path offset len =
      (slice data offset.toNat (min (offset + len).toNat data.length)).bind fun part =>
        (copyStrIntoSizedSlice fieldSize path.chars).map fun sent =>
          some (.readFilePart sent part.length part) := by
  simp [readFilePart, hentry, hdir, hdata, (fsEntryFind_kind hentry).1]

theorem exists_readFilePart_iff (offset len : BitVec 64) :
    (∃ answer, readFilePart rootDir path offset len = some answer ∧
        AnswerExact rootDir (.readFilePart path offset len) answer) ↔
      Served rootDir (.readFilePart path offset len) := by
  cases hentry : fsEntryFind rootDir path.chars with
  | none => simp [readFilePart, Served, AnswerExact, hentry]
  | some entry =>
    obtain ⟨_, ⟨hdir, _, hdata⟩ | ⟨hdir, _, data, hdata⟩⟩ := fsEntryFind_kind hentry
    · simp [readFilePart, Served, AnswerExact, hentry, hdir, hdata]
    · have hserved : Served rootDir (.readFilePart path offset len) ↔
          offset.toNat ≤ data.length ∧ offset.toNat + len.toNat < 2 ^ 64 ∧
            ∃ sent, copyStrIntoSizedSlice fieldSize path.chars = some sent := by
        simp [Served, hentry, hdata, ← exists_copyStr_iff]
      rw [hserved, readFilePart_file offset len hentry hdir hdata]
      constructor
      · rintro ⟨answer, h, _⟩
        obtain ⟨part, hpart, h⟩ := Option.bind_eq_some_iff.mp h
        obtain ⟨sent, hsent, _⟩ := Option.map_eq_some_iff.mp h
        obtain ⟨⟨hin, hwrap⟩, _⟩ := slice_eq_some_iff.mp hpart
        exact ⟨hin, hwrap, sent, hsent⟩
      · rintro ⟨hin, hwrap, sent, hsent⟩
        rw [slice_eq_some_iff.mpr ⟨⟨hin, hwrap⟩, rfl⟩, Option.bind_some, hsent]
        refine ⟨_, rfl, fun e he d hd => ⟨sent, _, rfl, ?_⟩⟩
        rw [hentry, Option.mem_some_iff] at he
        subst he
        rw [hdata, Option.mem_some_iff] at hd
        rw [hd]

theorem exists_handle_iff (request : Request) :
    (∃ answer, handle rootDir request = some answer ∧ AnswerExact rootDir request answer) ↔
      Served rootDir request := by
  cases request with
  | readDirectory dir => simpa [handle, AnswerExact] using exists_readDirectory_iff
  | readFile path => simpa [handle, AnswerExact] using exists_readFile_iff
  | readFilePart path offset len => exact exists_readFilePart_iff offset len
  | checkFileExists path => simpa [handle, AnswerExact] using exists_checkFileExists_iff

end Handlers

/-! ### The loop -/

theorem run_serve (rootDir : DirectoryImage) : ∀ (requests : List Request)
    (answers answers' : List (Option Response)),
    run (serve rootDir) answers requests = some answers' ↔
      ∃ new, answers' = answers ++ new ∧
        List.Forall₂ (fun request answer => handle rootDir request = some answer) requests new := by
  intro requests
  induction requests with
  | nil =>
    intro answers answers'
    rw [run_nil, Option.some.injEq]
    constructor
    · rintro rfl
      exact ⟨[], (List.append_nil _).symm, .nil⟩
    · rintro ⟨new, rfl, hnew⟩
      rw [List.forall₂_nil_left_iff.mp hnew, List.append_nil]
  | cons request requests ih =>
    intro answers answers'
    rw [run_cons_eq_some]
    constructor
    · rintro ⟨next, hnext, hrest⟩
      obtain ⟨answer, hanswer, rfl⟩ := Option.map_eq_some_iff.mp hnext
      obtain ⟨new, rfl, hnew⟩ := (ih _ _).mp hrest
      exact ⟨answer :: new, by simp, .cons hanswer hnew⟩
    · rintro ⟨new, rfl, hnew⟩
      cases hnew with
      | cons hanswer hnew =>
        rename_i answer new
        refine ⟨answers ++ [answer], Option.map_eq_some_iff.mpr ⟨answer, hanswer, rfl⟩, ?_⟩
        exact (ih _ _).mpr ⟨new, by simp, hnew⟩

/-- **A server survives exactly the requests that are `Served` (proved).** -/
theorem survives_iff (rootDir : DirectoryImage) (requests : List Request) :
    (∃ answers, run (serve rootDir) [] requests = some answers ∧
        List.Forall₂ (AnswerExact rootDir) requests answers) ↔
      ∀ request ∈ requests, Served rootDir request := by
  simp only [run_serve, List.nil_append]
  induction requests with
  | nil => simp
  | cons request requests ih =>
    rw [List.forall_mem_cons, ← ih, ← exists_handle_iff]
    constructor
    · rintro ⟨answers, ⟨_, rfl, hhandle⟩, hexact⟩
      cases hhandle with
      | cons hanswer hrest =>
        cases hexact with
        | cons hfirst hexact =>
          exact ⟨⟨_, hanswer, hfirst⟩, ⟨_, ⟨_, rfl, hrest⟩, hexact⟩⟩
    · rintro ⟨⟨answer, hanswer, hfirst⟩, answers, ⟨_, rfl, hrest⟩, hexact⟩
      exact ⟨answer :: answers, ⟨_, rfl, .cons hanswer hrest⟩, .cons hfirst hexact⟩

/-- The root is asked about as if it were a file. -/
theorem rootChecked_fails :
    let rootDir : DirectoryImage := ⟨[], [], []⟩
    let root : RequestPath := ⟨['/'], by decide, by decide⟩
    run (serve rootDir) [] [.checkFileExists root] = none := by
  decide

end Axle.FileServer
