import Axle.Kernel.ArrayM
import Axle.Lib.StepRun
import Mathlib.Data.BitVec
import Mathlib.Data.Finset.Dedup

/-!
# The cache of DNS records

`programs/subprojects/net/dns.c` keeps the A records it has received in a table of 64 entries and
answers the clients that ask for the address of a domain from it, at once or as soon as a record
arrives that makes the lookup succeed.  A record is filed under its whole name (`strcmp`), but looked
up by the first bytes of a name only (`strncmp`, over the shorter of two lengths), and the length
that the handler of the request passes counts one byte behind the name as well.

* `updateDomainNameWithARecord`, `dnsCacheContainsDomain`, `dnsCopyARecord` — the table;
* `dnsNext` — one event: an A record, or a request of a client;
* `dns_cache_exact_iff` — **PROVED**: along every run the cache is a map by exact name exactly when
  no confused name is filed before the queried one.
-/

namespace Axle.Net.Dns

open Axle.Kernel (ArrayM)
open Axle.Lib.StepRun

abbrev Byte := BitVec 8

/-! ### Names -/

/-- What `_parse_dns_name` leaves in a `dns_name_parse_state_t`: the characters of `name` before the
NUL, and `name_len`.  Trimming the final dot of a name without labels turns the length into 255. -/
structure ParsedName where
  name : List Byte
  nameLen : Byte
  text : 0 ∉ name
  fits : name.length < 256
  len : nameLen.toNat = name.length ∨ name = [] ∧ nameLen = 255
deriving DecidableEq, Repr

/-- An answer of type A. -/
structure ARecord where
  parsedName : ParsedName
  data : List Byte
deriving DecidableEq, Repr

/-- The name a client asks for, and the byte that stands behind it in the message. -/
structure Query where
  name : List Byte
  next : Byte
  text : 0 ∉ name
  short : name.length + 1 < 2 ^ 32
deriving DecidableEq, Repr

/-- `packet.data`, as far as `packet.len + 1` bytes. -/
def Query.buffer (q : Query) : List Byte := q.name ++ [q.next]

/-- `domain_name_len + 1`, as the handler of `NET_RPC_DNS_GET_IPv4` passes it. -/
def Query.domainNameLen (q : Query) : BitVec 32 := BitVec.ofNat 32 (q.name.length + 1)

/-- `!strncmp(s, t, n)`; behind the bytes given stands a NUL. -/
def strncmpEqual (s t : List Byte) : ℕ → Bool
  | 0 => true
  | n + 1 => s.headD 0 == t.headD 0 && (s.headD 0 == 0 || strncmpEqual s.tail t.tail n)

def strndup (s : List Byte) (n : ℕ) : List Byte := (s.take n).takeWhile (· != 0)

/-! ### The table -/

/-- An allocated `dns_domain_t`. -/
structure Domain where
  name : ParsedName
  aRecord : List Byte
deriving DecidableEq, Repr

def dnsDomainRecordsTableSize : ℕ := 64
def ipv4AddrSize : ℕ := 4

/-- `_dns_domain_records`: `none` is an entry that is not allocated. -/
abbrev DomainRecords := List (Option Domain)

/-- The first loop of `_update_domain_name_with_a_record`. -/
def updateExisting (r : ARecord) : DomainRecords → Option DomainRecords
  | [] => none
  | none :: ents => (updateExisting r ents).map (none :: ·)
  | some ent :: ents =>
    if ent.name.name = r.parsedName.name then some (some { ent with aRecord := r.data } :: ents)
    else (updateExisting r ents).map (some ent :: ·)

/-- The second loop; a full table stays as it is. -/
def createNew (r : ARecord) : DomainRecords → DomainRecords
  | [] => []
  | none :: ents => some ⟨r.parsedName, r.data⟩ :: ents
  | some ent :: ents => some ent :: createNew r ents

def updateDomainNameWithARecord (ents : DomainRecords) (r : ARecord) : Option DomainRecords :=
  if r.data.length = ipv4AddrSize then some ((updateExisting r ents).getD (createNew r ents))
  else none

/-- The comparison of both lookups. -/
def Domain.matchesName (domainName : List Byte) (domainNameLen : BitVec 32) (ent : Domain) : Bool :=
  strncmpEqual ent.name.name domainName (min ent.name.nameLen.toNat domainNameLen.toNat)

def dnsCacheContainsDomain (ents : DomainRecords) (domainName : List Byte)
    (domainNameLen : BitVec 32) : Bool :=
  ents.any fun ent => ent.any (Domain.matchesName domainName domainNameLen)

def dnsCopyARecord (ents : DomainRecords) (domainName : List Byte) (domainNameLen : BitVec 32) :
    Option (List Byte) :=
  ents.findSome? fun ent =>
    (ent.filter (Domain.matchesName domainName domainNameLen)).map Domain.aRecord

/-! ### Requests of clients -/

/-- `dns_amc_rpc_info_t`; `query` says what was asked: bookkeeping, not in the code. -/
structure DnsAmcRpcInfo where
  domainName : List Byte
  domainNameLen : BitVec 32
  amcService : String
  query : Query
deriving DecidableEq, Repr

/-- An address sent to a client; `query` and the number of records received before it are
bookkeeping. -/
structure DnsResponse where
  amcService : String
  ipv4 : List Byte
  query : Query
  after : ℕ
deriving DecidableEq, Repr

/-- The state of the resolver; `received` and `responses` are all that came and went so far. -/
structure DnsService where
  domainRecords : DomainRecords
  callbacks : ArrayM DnsAmcRpcInfo
  received : List ARecord
  responses : List DnsResponse
deriving DecidableEq, Repr

def dnsInit : DnsService where
  domainRecords := List.replicate dnsDomainRecordsTableSize none
  callbacks := ArrayM.create 64
  received := []
  responses := []

def dnsIsAmcRpcSatisfied (s : DnsService) (rpc : DnsAmcRpcInfo) : Bool :=
  dnsCacheContainsDomain s.domainRecords rpc.domainName rpc.domainNameLen

def dnsCompleteAmcRpc (s : DnsService) (rpc : DnsAmcRpcInfo) : Option DnsService := do
  let ipv4 ← dnsCopyARecord s.domainRecords rpc.domainName rpc.domainNameLen
  some { s with
    responses := s.responses ++ [⟨rpc.amcService, ipv4, rpc.query, s.received.length⟩] }

/-- The callback at this index is taken out of the list and completed. -/
def dispatchCallback (s : DnsService) (idx : ℕ) : Option DnsService := do
  let rpc ← s.callbacks.lookup idx
  let callbacks ← s.callbacks.remove idx
  dnsCompleteAmcRpc { s with callbacks } rpc

/-- `callback_indexes_to_complete`. -/
def callbackIndexesToComplete (s : DnsService) : List ℕ :=
  (List.range s.callbacks.size).filter fun i =>
    (s.callbacks.lookup i).any (dnsIsAmcRpcSatisfied s)

/-- `callback_list_invoke_ready_callbacks`: from high indexes to low ones. -/
def callbackListInvokeReadyCallbacks (s : DnsService) : Option DnsService :=
  run dispatchCallback s (callbackIndexesToComplete s).reverse

/-- What `dns_perform_amc_rpc__discover_ipv4` keeps of a request. -/
def callbackInfo (sourceService : String) (q : Query) : DnsAmcRpcInfo where
  domainName := strndup q.buffer q.domainNameLen.toNat
  domainNameLen := q.domainNameLen
  amcService := sourceService
  query := q

/-- `dns_perform_amc_rpc__discover_ipv4`, as far as the cache is concerned: a request that cannot
be answered waits. -/
def dnsPerformDiscoverIpv4 (s : DnsService) (sourceService : String) (q : Query) :
    Option DnsService := do
  let rpc := callbackInfo sourceService q
  let callbacks ← s.callbacks.insert rpc
  let s : DnsService := { s with callbacks }
  if dnsIsAmcRpcSatisfied s rpc then dispatchCallback s (callbacks.size - 1) else some s

/-- The arm of `_parse_dns_answer` for A records. -/
def dnsReceiveARecord (s : DnsService) (r : ARecord) : Option DnsService := do
  let ents ← updateDomainNameWithARecord s.domainRecords r
  callbackListInvokeReadyCallbacks
    { s with domainRecords := ents, received := s.received ++ [r] }

inductive DnsEvent where
  | aRecord (r : ARecord)
  | discover (sourceService : String) (q : Query)
deriving DecidableEq, Repr

def dnsNext (s : DnsService) : DnsEvent → Option DnsService
  | .aRecord r => dnsReceiveARecord s r
  | .discover sourceService q => dnsPerformDiscoverIpv4 s sourceService q

/-! ### A map by exact name -/

/-- The data of the last record of this name. -/
def latest (name : List Byte) (received : List ARecord) : Option (List Byte) :=
  (received.reverse.find? fun r => r.parsedName.name = name).map ARecord.data

/-- For the queried name the cache is the map from names to their latest addresses, and whoever asked
for it was answered with the latest address at that time. -/
structure Exact (q : Query) (s : DnsService) : Prop where
  contains : dnsCacheContainsDomain s.domainRecords q.buffer q.domainNameLen = true ↔
    ∃ r ∈ s.received, r.parsedName.name = q.name
  copy : dnsCopyARecord s.domainRecords q.buffer q.domainNameLen = latest q.name s.received
  answered : ∀ a ∈ s.responses, a.query = q →
    latest q.name (s.received.take a.after) = some a.ipv4

/-- The names of the records among these events. -/
def recordNames (es : List DnsEvent) : List (List Byte) :=
  es.filterMap fun
    | .aRecord r => some r.parsedName.name
    | .discover _ _ => none

/-- An entry of this name is taken for the queried one although it is another, or not recognised. -/
def Confused (q : Query) (n : ParsedName) : Prop :=
  if n.name = [] then (if q.name = [] then n.nameLen = 255 ∧ q.next ≠ 0 else n.nameLen = 0)
  else (n.name <+: q.name ∧ n.name ≠ q.name) ∨ q.name ++ [q.next] <+: n.name

instance (q : Query) (n : ParsedName) : Decidable (Confused q n) := by
  unfold Confused
  infer_instance

/-- The record, if it is the first of its name and none of the queried name has come before it, is
not confused with the queried one. -/
def FilesUnconfused (q : Query) (s : DnsService) : DnsEvent → Prop
  | .aRecord r => r.data.length = ipv4AddrSize →
      (∀ r' ∈ s.received, r'.parsedName.name ≠ r.parsedName.name) →
      (∀ r' ∈ s.received, r'.parsedName.name ≠ q.name) → ¬ Confused q r.parsedName
  | .discover _ _ => True

instance (q : Query) (s : DnsService) (e : DnsEvent) : Decidable (FilesUnconfused q s e) := by
  cases e <;> unfold FilesUnconfused <;> infer_instance

/-! ### Comparing names -/

variable {n : ℕ} {ent : Domain} {received : List ARecord} {ds : List Domain} {r : ARecord}
  {q : Query} {s t : DnsService} {names : Finset (List Byte)}

theorem strncmpEqual_iff_prefix {s t : List Byte} (hs : 0 ∉ s) (hn : n ≤ s.length) :
    strncmpEqual s t n = true ↔ s.take n <+: t := by
  induction n generalizing s t with
  | zero => simp [strncmpEqual]
  | succ n ih =>
    cases s with
    | nil => simp at hn
    | cons a s =>
      have ha : a ≠ 0#8 := fun h => hs (h ▸ List.mem_cons_self)
      have hs' : 0 ∉ s := fun h => hs (List.mem_cons_of_mem a h)
      cases t with
      | nil => simp [strncmpEqual, ha]
      | cons b t =>
        simp only [strncmpEqual, List.headD_cons, List.tail_cons, Bool.and_eq_true, beq_iff_eq,
          Bool.or_eq_true, List.take_succ_cons, List.cons_prefix_cons]
        rw [ih hs' (by simpa using hn)]
        exact and_congr_right fun _ => or_iff_right ha

/-- The copy of the first bytes up to a NUL compares as they do. -/
theorem strncmpEqual_strndup (s t : List Byte) {n len : ℕ} (hn : n ≤ len) :
    strncmpEqual s (strndup t len) n = strncmpEqual s t n := by
  induction n generalizing s t len with
  | zero => rfl
  | succ n ih =>
    obtain ⟨len, rfl⟩ : ∃ k, len = k + 1 := ⟨len - 1, by omega⟩
    cases t with
    | nil => simp [strndup]
    | cons b t =>
      by_cases hb : b = 0#8
      · subst hb
        have hnil : strndup (0#8 :: t) (len + 1) = [] := by simp [strndup]
        rw [hnil, strncmpEqual, strncmpEqual]
        simp only [List.headD_nil, List.headD_cons]
        cases h : s.headD 0 == 0 <;> rfl
      · have hcons : strndup (b :: t) (len + 1) = b :: strndup t len := by simp [strndup, hb]
        rw [hcons, strncmpEqual, strncmpEqual, List.headD_cons, List.tail_cons, List.headD_cons,
          List.tail_cons, ih s.tail t (by omega)]

theorem Query.domainNameLen_toNat (q : Query) : q.domainNameLen.toNat = q.name.length + 1 := by
  rw [Query.domainNameLen, BitVec.toNat_ofNat, Nat.mod_eq_of_lt q.short]

/-- An entry with a name matches what starts with its name, or what its name starts with, the byte
behind it included. -/
theorem matchesName_iff_of_ne_nil (q : Query) (hname : ent.name.name ≠ []) :
    ent.matchesName q.buffer q.domainNameLen = true ↔
      ent.name.name <+: q.name ∨ q.name ++ [q.next] <+: ent.name.name := by
  have hlen : ent.name.nameLen.toNat = ent.name.name.length :=
    ent.name.len.resolve_right fun h => hname h.1
  rw [Domain.matchesName, hlen, q.domainNameLen_toNat,
    strncmpEqual_iff_prefix ent.name.text (Nat.min_le_left _ _), Query.buffer]
  rcases Nat.lt_or_ge q.name.length ent.name.name.length with hlt | hge
  · have htake : (ent.name.name.take (q.name.length + 1)).length = (q.name ++ [q.next]).length := by
      rw [List.length_take, Nat.min_eq_left hlt, List.length_append, List.length_singleton]
    rw [Nat.min_eq_right hlt]
    constructor
    · intro h
      rw [← h.eq_of_length htake]
      exact .inr (List.take_prefix _ _)
    · rintro (h | h)
      · exact absurd h.length_le (Nat.not_le.mpr hlt)
      · have heq := List.prefix_iff_eq_take.mp h
        rw [List.length_append, List.length_singleton] at heq
        rw [← heq]
  · rw [Nat.min_eq_left (Nat.le_succ_of_le hge), List.take_length]
    constructor
    · intro h
      exact .inl (List.prefix_of_prefix_length_le h (List.prefix_append _ _) hge)
    · rintro (h | h)
      · exact h.trans (List.prefix_append _ _)
      · have hle := h.length_le
        rw [List.length_append, List.length_singleton] at hle
        omega

/-- An entry without a name matches everything, or only the empty text. -/
theorem matchesName_iff_of_nil (q : Query) (hname : ent.name.name = []) :
    ent.matchesName q.buffer q.domainNameLen = true ↔
      ent.name.nameLen = 0 ∨ q.name = [] ∧ q.next = 0 := by
  rw [Domain.matchesName, q.domainNameLen_toNat, hname]
  rcases ent.name.len with hlen | ⟨_, hlen⟩
  · have hzero : ent.name.nameLen = 0 := by
      rw [hname] at hlen
      exact BitVec.eq_of_toNat_eq hlen
    simp [hzero, strncmpEqual]
  · have hmin : min ent.name.nameLen.toNat (q.name.length + 1) =
        min 254 q.name.length + 1 := by
      rw [hlen]
      have h255 : (255 : Byte).toNat = 255 := rfl
      omega
    rw [hmin, strncmpEqual, hlen, Query.buffer]
    cases hq : q.name with
    | nil =>
      by_cases hnext : q.next = 0#8
      · simp [hnext]
      · simp [hnext, Ne.symm hnext]
    | cons b t =>
      have hb : b ≠ 0#8 := fun h => q.text (by rw [hq, h]; exact List.mem_cons_self)
      simp [Ne.symm hb]

/-- **What the lookup mistakes**: it tells by the name exactly the entries that are not confused. -/
theorem matchesName_exact_iff (q : Query) (ent : Domain) :
    (ent.matchesName q.buffer q.domainNameLen = true ↔ ent.name.name = q.name) ↔
      ¬ Confused q ent.name := by
  unfold Confused
  by_cases hname : ent.name.name = []
  · rw [matchesName_iff_of_nil q hname, if_pos hname, hname]
    have hlens : ent.name.nameLen = 0 ∨ ent.name.nameLen = 255 := by
      rcases ent.name.len with hlen | ⟨_, hlen⟩
      · rw [hname] at hlen
        exact .inl (BitVec.eq_of_toNat_eq hlen)
      · exact .inr hlen
    by_cases hq : q.name = []
    · rcases hlens with h | h <;> simp [h]
    · simp [hq, Ne.symm hq]
  · rw [matchesName_iff_of_ne_nil q hname, if_neg hname]
    constructor
    · rintro h (⟨hpre, hne⟩ | hpre)
      · exact hne (h.mp (.inl hpre))
      · have heq := h.mp (.inr hpre)
        have hle := hpre.length_le
        rw [heq, List.length_append, List.length_singleton] at hle
        omega
    · intro h
      constructor
      · rintro (hpre | hpre)
        · by_contra hne
          exact h (.inl ⟨hpre, hne⟩)
        · exact absurd (.inr hpre) h
      · intro heq
        exact .inl (heq ▸ List.prefix_rfl)

/-- What is kept of a request matches as the request does. -/
theorem matchesName_callbackInfo (service : String) (q : Query) :
    Domain.matchesName (callbackInfo service q).domainName (callbackInfo service q).domainNameLen =
      Domain.matchesName q.buffer q.domainNameLen := by
  funext ent
  exact strncmpEqual_strndup _ _ (Nat.min_le_right _ _)

/-! ### The entries in use -/

theorem latest_append (name : List Byte) (received : List ARecord) (r : ARecord) :
    latest name (received ++ [r]) =
      if r.parsedName.name = name then some r.data else latest name received := by
  rw [latest, List.reverse_append, List.reverse_singleton, List.singleton_append, List.find?_cons]
  split
  · rename_i h
    rw [if_pos (by simpa using h)]
    rfl
  · rename_i h
    rw [if_neg (by simpa using h)]
    rfl

theorem latest_isSome_iff {name : List Byte} :
    (latest name received).isSome = true ↔ ∃ r ∈ received, r.parsedName.name = name := by
  rw [latest, Option.isSome_map, List.find?_isSome]
  simp

/-- The table: the entries in use, then the free ones. -/
def tableOf (ds : List Domain) : DomainRecords :=
  ds.map some ++ List.replicate (dnsDomainRecordsTableSize - ds.length) none

/-- The entry, with the address of the record if it has its name. -/
def Domain.withARecord (r : ARecord) (d : Domain) : Domain :=
  if d.name.name = r.parsedName.name then { d with aRecord := r.data } else d

@[simp] theorem Domain.withARecord_name (r : ARecord) (d : Domain) :
    (d.withARecord r).name = d.name := by
  rw [Domain.withARecord]
  split <;> rfl

theorem dnsCopyARecord_free (k : ℕ) (domainName : List Byte) (domainNameLen : BitVec 32) :
    dnsCopyARecord (List.replicate k none) domainName domainNameLen = none := by
  induction k with
  | zero => rfl
  | succ k ih => exact ih

theorem dnsCopyARecord_tableOf (ds : List Domain) (domainName : List Byte)
    (domainNameLen : BitVec 32) :
    dnsCopyARecord (tableOf ds) domainName domainNameLen =
      (ds.find? (Domain.matchesName domainName domainNameLen)).map Domain.aRecord := by
  rw [tableOf]
  generalize dnsDomainRecordsTableSize - ds.length = k
  induction ds with
  | nil => exact dnsCopyARecord_free k domainName domainNameLen
  | cons d ds ih =>
    rw [dnsCopyARecord] at ih ⊢
    rw [List.map_cons, List.cons_append, List.findSome?_cons, ih, List.find?_cons]
    cases h : d.matchesName domainName domainNameLen <;> simp [Option.filter, h]

theorem dnsCacheContainsDomain_iff (ents : DomainRecords) (domainName : List Byte)
    (domainNameLen : BitVec 32) :
    dnsCacheContainsDomain ents domainName domainNameLen =
      (dnsCopyARecord ents domainName domainNameLen).isSome := by
  induction ents with
  | nil => rfl
  | cons ent ents ih =>
    rw [dnsCacheContainsDomain, dnsCopyARecord] at ih ⊢
    rw [List.any_cons, ih, List.findSome?_cons]
    cases ent with
    | none => rfl
    | some d => cases h : d.matchesName domainName domainNameLen <;> simp [Option.filter, h]

theorem updateExisting_free (r : ARecord) (k : ℕ) :
    updateExisting r (List.replicate k none) = none := by
  induction k with
  | zero => rfl
  | succ k ih => rw [List.replicate_succ, updateExisting, ih, Option.map_none]

theorem updateExisting_of_mem (free : DomainRecords) (hnodup : (ds.map fun d => d.name.name).Nodup)
    (hmem : r.parsedName.name ∈ ds.map fun d => d.name.name) :
    updateExisting r (ds.map some ++ free) = some ((ds.map (·.withARecord r)).map some ++ free) := by
  induction ds with
  | nil => simp at hmem
  | cons d ds ih =>
    rw [List.map_cons, List.nodup_cons] at hnodup
    rw [List.map_cons, List.cons_append, updateExisting]
    split
    · rename_i heq
      have hrest : ds.map (·.withARecord r) = ds := by
        refine (List.map_congr_left fun d' hd' => ?_).trans (List.map_id ds)
        exact if_neg fun h => hnodup.1 (List.mem_map.mpr ⟨d', hd', h.trans heq.symm⟩)
      rw [List.map_cons, hrest, Domain.withARecord, if_pos heq]
      rfl
    · rename_i hne
      have hmem' := (List.mem_cons.mp hmem).resolve_left fun h => hne h.symm
      rw [ih hnodup.2 hmem', List.map_cons, Domain.withARecord, if_neg hne]
      rfl

theorem updateExisting_of_notMem (k : ℕ) (hmem : r.parsedName.name ∉ ds.map fun d => d.name.name) :
    updateExisting r (ds.map some ++ List.replicate k none) = none := by
  induction ds with
  | nil => exact updateExisting_free r k
  | cons d ds ih =>
    rw [List.map_cons, List.mem_cons, not_or] at hmem
    rw [List.map_cons, List.cons_append, updateExisting, if_neg (Ne.symm hmem.1), ih hmem.2,
      Option.map_none]

/-- The entry of a new name. -/
def ARecord.toDomain (r : ARecord) : Domain := ⟨r.parsedName, r.data⟩

@[simp] theorem ARecord.toDomain_name (r : ARecord) : r.toDomain.name = r.parsedName := rfl

theorem createNew_append (r : ARecord) (ds : List Domain) (free : DomainRecords) :
    createNew r (ds.map some ++ none :: free) =
      (ds ++ [r.toDomain]).map some ++ free := by
  induction ds with
  | nil => rfl
  | cons d ds ih =>
    rw [List.map_cons, List.cons_append, createNew, ih]
    rfl

/-- The entries after a record: that of its name gets the address, or a new one is filed. -/
def fileRecord (r : ARecord) (ds : List Domain) : List Domain :=
  if r.parsedName.name ∈ ds.map fun d => d.name.name then ds.map (·.withARecord r)
  else ds ++ [r.toDomain]

theorem updateDomainNameWithARecord_tableOf (hnodup : (ds.map fun d => d.name.name).Nodup)
    (hroom : ds.length < dnsDomainRecordsTableSize) (hdata : r.data.length = ipv4AddrSize) :
    updateDomainNameWithARecord (tableOf ds) r = some (tableOf (fileRecord r ds)) := by
  rw [updateDomainNameWithARecord, if_pos hdata, fileRecord]
  split
  · rename_i hmem
    rw [tableOf, updateExisting_of_mem _ hnodup hmem, Option.getD_some, tableOf, List.length_map]
  · rename_i hmem
    have hfree : List.replicate (dnsDomainRecordsTableSize - ds.length) (none : Option Domain) =
        none :: List.replicate
          (dnsDomainRecordsTableSize - (ds ++ [r.toDomain]).length) none := by
      rw [← List.replicate_succ, List.length_append, List.length_singleton]
      exact congrArg (List.replicate · none) (by omega)
    rw [tableOf, updateExisting_of_notMem _ hmem, Option.getD_none, hfree, createNew_append, tableOf]

theorem fileRecord_nodup (hnodup : (ds.map fun d => d.name.name).Nodup) :
    ((fileRecord r ds).map fun d => d.name.name).Nodup := by
  rw [fileRecord]
  split
  · simpa [List.map_map, Function.comp_def] using hnodup
  · rename_i hmem
    rw [List.map_append, List.nodup_append]
    refine ⟨hnodup, by simp, ?_⟩
    rintro a ha b hb rfl
    have hname : a = r.parsedName.name := List.mem_singleton.mp hb
    exact hmem (hname ▸ ha)

/-- What is asked of names alone is found where it was, or is the new entry. -/
theorem find?_fileRecord {p : Domain → Bool} (hp : ∀ d d' : Domain, d.name = d'.name → p d = p d')
    (r : ARecord) (ds : List Domain) :
    (fileRecord r ds).find? p =
      if r.parsedName.name ∈ ds.map fun d => d.name.name then (ds.find? p).map (·.withARecord r)
      else (ds.find? p).or ([r.toDomain].find? p) := by
  rw [fileRecord]
  split
  · rw [List.find?_map]
    have hcomp : (p ∘ fun d => d.withARecord r) = p :=
      funext fun d => hp _ _ (Domain.withARecord_name r d)
    rw [hcomp]
  · exact List.find?_append

/-! ### The cache against what was received -/

/-- The entries in use: one for each name received, with its latest address. -/
structure Filed (received : List ARecord) (ds : List Domain) : Prop where
  nodup : (ds.map fun d => d.name.name).Nodup
  latest : ∀ name, (ds.find? fun d => d.name.name = name).map Domain.aRecord = latest name received

theorem Filed.mem_iff (h : Filed received ds) (name : List Byte) :
    (name ∈ ds.map fun d => d.name.name) ↔ ∃ r ∈ received, r.parsedName.name = name := by
  rw [← latest_isSome_iff, ← h.latest name, Option.isSome_map, List.find?_isSome, List.mem_map]
  simp

theorem Filed.fileRecord (h : Filed received ds) (r : ARecord) :
    Filed (received ++ [r]) (fileRecord r ds) := by
  refine ⟨fileRecord_nodup h.nodup, fun name => ?_⟩
  rw [find?_fileRecord (fun d d' hname => by rw [hname]), latest_append, ← h.latest name]
  split
  · rename_i hmem
    cases hfind : ds.find? (fun d => decide (d.name.name = name)) with
    | none =>
      rw [if_neg]
      · rfl
      · rintro rfl
        obtain ⟨d, hd, hname⟩ := List.mem_map.mp hmem
        exact List.find?_eq_none.mp hfind d hd (by simpa using hname)
    | some d =>
      have hname : d.name.name = name := by simpa using List.find?_some hfind
      rw [Option.map_some, Option.map_some, Domain.withARecord, hname]
      by_cases heq : r.parsedName.name = name
      · rw [if_pos heq, if_pos heq.symm]
      · rw [if_neg heq, if_neg (Ne.symm heq), Option.map_some]
  · rename_i hmem
    by_cases heq : r.parsedName.name = name
    · have hnone : ds.find? (fun d => decide (d.name.name = name)) = none := by
        refine List.find?_eq_none.mpr fun d hd hname => hmem ?_
        exact List.mem_map.mpr ⟨d, hd, (by simpa using hname : d.name.name = name).trans heq.symm⟩
      rw [hnone, Option.none_or, if_pos heq]
      simp [heq, ARecord.toDomain]
    · simp [heq]

/-- The lookup of the query finds what a lookup by exact name finds. -/
def FindsExactly (q : Query) (ds : List Domain) : Prop :=
  ds.find? (Domain.matchesName q.buffer q.domainNameLen) = ds.find? fun d => d.name.name = q.name

theorem matchesName_congr (domainName : List Byte) (domainNameLen : BitVec 32) (d d' : Domain)
    (hname : d.name = d'.name) :
    d.matchesName domainName domainNameLen = d'.matchesName domainName domainNameLen := by
  rw [Domain.matchesName, Domain.matchesName, hname]

/-- A record that is not confused with the query, or comes too late to be, changes nothing. -/
theorem FindsExactly.fileRecord (h : FindsExactly q ds) (hfiled : Filed received ds)
    (hunconfused : (∀ r' ∈ received, r'.parsedName.name ≠ r.parsedName.name) →
      (∀ r' ∈ received, r'.parsedName.name ≠ q.name) → ¬ Confused q r.parsedName) :
    FindsExactly q (fileRecord r ds) := by
  rw [FindsExactly, find?_fileRecord (matchesName_congr _ _),
    find?_fileRecord (fun d d' hname => by rw [hname]), ← h]
  split
  · rfl
  · rename_i hmem
    have hnew : ∀ r' ∈ received, r'.parsedName.name ≠ r.parsedName.name := fun r' hr' hname =>
      hmem ((hfiled.mem_iff _).mpr ⟨r', hr', hname⟩)
    cases hfind : ds.find? (Domain.matchesName q.buffer q.domainNameLen) with
    | some d => rfl
    | none =>
      have hunasked : ∀ r' ∈ received, r'.parsedName.name ≠ q.name := by
        intro r' hr' hname
        obtain ⟨d, hd, hdname⟩ := List.mem_map.mp ((hfiled.mem_iff q.name).mpr ⟨r', hr', hname⟩)
        exact List.find?_eq_none.mp (h.symm.trans hfind) d hd (by simpa using hdname)
      have hexact := (matchesName_exact_iff q r.toDomain).mpr (hunconfused hnew hunasked)
      have hsame : Domain.matchesName q.buffer q.domainNameLen r.toDomain =
          decide (r.toDomain.name.name = q.name) := by
        rw [Bool.eq_iff_iff, hexact, decide_eq_true_iff]
      rw [Option.none_or, Option.none_or, List.find?_cons, List.find?_cons, hsame]
      rfl

/-- A lookup that was exact and stays so has met no confused name. -/
theorem FindsExactly.unconfused (hfiled : Filed received ds) (h : FindsExactly q ds)
    (hcopy : ((Axle.Net.Dns.fileRecord r ds).find?
        (Domain.matchesName q.buffer q.domainNameLen)).isSome = true ↔
      ∃ r' ∈ received ++ [r], r'.parsedName.name = q.name)
    (hnew : ∀ r' ∈ received, r'.parsedName.name ≠ r.parsedName.name)
    (hunasked : ∀ r' ∈ received, r'.parsedName.name ≠ q.name) : ¬ Confused q r.parsedName := by
  have hmem : r.parsedName.name ∉ ds.map fun d => d.name.name := fun hmem => by
    obtain ⟨r', hr', hname⟩ := (hfiled.mem_iff _).mp hmem
    exact hnew r' hr' hname
  have hnone : ds.find? (Domain.matchesName q.buffer q.domainNameLen) = none := by
    rw [h]
    refine List.find?_eq_none.mpr fun d hd hname => ?_
    obtain ⟨r', hr', hname'⟩ := (hfiled.mem_iff q.name).mp
      (List.mem_map.mpr ⟨d, hd, by simpa using hname⟩)
    exact hunasked r' hr' hname'
  rw [find?_fileRecord (matchesName_congr _ _), if_neg hmem, hnone, Option.none_or,
    List.find?_isSome] at hcopy
  refine (matchesName_exact_iff q r.toDomain).mp (Iff.trans ?_ (hcopy.trans ?_))
  · simp
  · constructor
    · rintro ⟨r', hr', hname⟩
      rcases List.mem_append.mp hr' with hr' | hr'
      · exact absurd hname (hunasked r' hr')
      · exact List.mem_singleton.mp hr' ▸ hname
    · exact fun hname => ⟨r, List.mem_append_right _ List.mem_cons_self, hname⟩

/-! ### Answering clients -/

/-- From `s` to `t` clients have been answered from the table as it is. -/
structure Answers (s t : DnsService) : Prop where
  domainRecords : t.domainRecords = s.domainRecords
  received : t.received = s.received
  callbacks : ∀ rpc ∈ t.callbacks.items, rpc ∈ s.callbacks.items
  responses : ∀ a ∈ t.responses, a ∈ s.responses ∨ ∃ rpc ∈ s.callbacks.items,
    a.query = rpc.query ∧ a.after = s.received.length ∧
      dnsCopyARecord s.domainRecords rpc.domainName rpc.domainNameLen = some a.ipv4

theorem Answers.refl (s : DnsService) : Answers s s :=
  ⟨rfl, rfl, fun _ h => h, fun _ h => .inl h⟩

theorem Answers.trans {s t u : DnsService} (h : Answers s t) (h' : Answers t u) : Answers s u where
  domainRecords := h'.domainRecords.trans h.domainRecords
  received := h'.received.trans h.received
  callbacks rpc hrpc := h.callbacks rpc (h'.callbacks rpc hrpc)
  responses a ha := by
    rcases h'.responses a ha with ha | ⟨rpc, hrpc, hquery, hafter, hcopy⟩
    · exact h.responses a ha
    · rw [h.received] at hafter
      rw [h.domainRecords] at hcopy
      exact .inr ⟨rpc, h.callbacks rpc hrpc, hquery, hafter, hcopy⟩

theorem exists_dispatchCallback {idx : ℕ} {rpc : DnsAmcRpcInfo}
    (hrpc : s.callbacks.items[idx]? = some rpc) (hsat : dnsIsAmcRpcSatisfied s rpc = true) :
    ∃ t, dispatchCallback s idx = some t ∧ Answers s t ∧
      t.callbacks.items = s.callbacks.items.eraseIdx idx := by
  obtain ⟨hlt, -⟩ := List.getElem?_eq_some_iff.mp hrpc
  rw [dnsIsAmcRpcSatisfied, dnsCacheContainsDomain_iff] at hsat
  obtain ⟨ipv4, hcopy⟩ := Option.isSome_iff_exists.mp hsat
  obtain ⟨callbacks, hremove, hitems, -⟩ := ArrayM.exists_remove hlt
  refine ⟨{ s with
    callbacks
    responses := s.responses ++ [⟨rpc.amcService, ipv4, rpc.query, s.received.length⟩] },
    ?_, ⟨rfl, rfl, ?_, ?_⟩, hitems⟩
  · simp only [dispatchCallback, ArrayM.lookup, hrpc, hremove, dnsCompleteAmcRpc, hcopy,
      Option.bind_eq_bind, Option.bind_some]
  · intro rpc' hrpc'
    rw [hitems] at hrpc'
    exact List.mem_of_mem_eraseIdx hrpc'
  · intro a ha
    rcases List.mem_append.mp ha with ha | ha
    · exact .inl ha
    · rw [List.mem_singleton.mp ha]
      exact .inr ⟨rpc, List.mem_of_getElem? hrpc, rfl, rfl, hcopy⟩

/-- Whatever indexes are completed, from high to low: the ones below a completed one stay. -/
theorem exists_dispatchCallbacks : ∀ (indexes : List ℕ) (s : DnsService),
    indexes.Pairwise (· > ·) →
    (∀ i ∈ indexes, ∃ rpc, s.callbacks.items[i]? = some rpc ∧ dnsIsAmcRpcSatisfied s rpc = true) →
    ∃ t, run dispatchCallback s indexes = some t ∧ Answers s t := by
  intro indexes
  induction indexes with
  | nil => exact fun s _ _ => ⟨s, rfl, Answers.refl s⟩
  | cons i indexes ih =>
    intro s hdesc hready
    obtain ⟨hi, hdesc⟩ := List.pairwise_cons.mp hdesc
    obtain ⟨rpc, hrpc, hsat⟩ := hready i List.mem_cons_self
    obtain ⟨u, hu, hanswers, herase⟩ := exists_dispatchCallback hrpc hsat
    obtain ⟨t, ht, hrest⟩ := ih u hdesc fun j hj => by
      obtain ⟨rpc', hrpc', hsat'⟩ := hready j (List.mem_cons_of_mem i hj)
      refine ⟨rpc', ?_, ?_⟩
      · rw [herase, List.getElem?_eraseIdx_of_lt (hi j hj)]
        exact hrpc'
      · rw [dnsIsAmcRpcSatisfied, hanswers.domainRecords]
        exact hsat'
    exact ⟨t, run_cons_eq_some.mpr ⟨u, hu, ht⟩, hanswers.trans hrest⟩

theorem exists_callbackListInvokeReadyCallbacks (s : DnsService) :
    ∃ t, callbackListInvokeReadyCallbacks s = some t ∧ Answers s t := by
  refine exists_dispatchCallbacks _ s ?_ fun i hi => ?_
  · rw [List.pairwise_reverse]
    exact (List.pairwise_lt_range).filter _
  · have hready := (List.mem_filter.mp (List.mem_reverse.mp hi)).2
    simpa [ArrayM.lookup, Option.any_eq_true] using hready

/-! ### Runs -/

/-- What every state has: the table is that of the records received, all of them of the names
`names`, and the requests that wait are as they were made. -/
structure CacheInv (names : Finset (List Byte)) (q : Query) (s : DnsService) : Prop where
  entries : ∃ ds, s.domainRecords = tableOf ds ∧ Filed s.received ds ∧ FindsExactly q ds
  named : ∀ r ∈ s.received, r.parsedName.name ∈ names
  asked : ∀ rpc ∈ s.callbacks.items, ∃ service, rpc = callbackInfo service rpc.query
  responses : ∀ a ∈ s.responses, a.after ≤ s.received.length ∧
    (a.query = q → latest q.name (s.received.take a.after) = some a.ipv4)

theorem CacheInv.copy (h : CacheInv names q s) :
    dnsCopyARecord s.domainRecords q.buffer q.domainNameLen = latest q.name s.received := by
  obtain ⟨ds, htable, hfiled, hfinds⟩ := h.entries
  rw [htable, dnsCopyARecord_tableOf, hfinds, hfiled.latest]

theorem CacheInv.exact (h : CacheInv names q s) : Exact q s where
  contains := by rw [dnsCacheContainsDomain_iff, h.copy, latest_isSome_iff]
  copy := h.copy
  answered a ha := (h.responses a ha).2

theorem dnsInit_cacheInv (names : Finset (List Byte)) (q : Query) : CacheInv names q dnsInit where
  entries := ⟨[], rfl, ⟨List.nodup_nil, fun _ => rfl⟩, rfl⟩
  named r hr := by cases hr
  asked rpc hrpc := by cases hrpc
  responses a ha := by cases ha

theorem CacheInv.answers (h : CacheInv names q s) (hst : Answers s t) : CacheInv names q t where
  entries := by
    rw [hst.domainRecords, hst.received]
    exact h.entries
  named := by
    rw [hst.received]
    exact h.named
  asked rpc hrpc := h.asked rpc (hst.callbacks rpc hrpc)
  responses a ha := by
    rw [hst.received]
    rcases hst.responses a ha with ha | ⟨rpc, hrpc, hquery, hafter, hcopy⟩
    · exact h.responses a ha
    · refine ⟨hafter.le, ?_⟩
      rintro rfl
      obtain ⟨service, hinfo⟩ := h.asked rpc hrpc
      -- The text kept of the request is looked up as the request itself is.
      have hsame : dnsCopyARecord s.domainRecords rpc.domainName rpc.domainNameLen =
          dnsCopyARecord s.domainRecords a.query.buffer a.query.domainNameLen := by
        rw [hinfo, dnsCopyARecord, matchesName_callbackInfo, hquery]
        rfl
      rw [hafter, List.take_length, ← h.copy, ← hsame, hcopy]

theorem Filed.length_le (h : Filed received ds)
    (hnamed : ∀ r ∈ received, r.parsedName.name ∈ names) : ds.length ≤ names.card := by
  have hcard := List.toFinset_card_of_nodup h.nodup
  rw [List.length_map] at hcard
  rw [← hcard]
  refine Finset.card_le_card fun name hname => ?_
  obtain ⟨r, hr, rfl⟩ := (h.mem_iff name).mp (List.mem_toFinset.mp hname)
  exact hnamed r hr

/-- The records among the events have these names. -/
def NamedIn (names : Finset (List Byte)) : DnsEvent → Prop
  | .aRecord r => r.parsedName.name ∈ names
  | .discover _ _ => True

/-- A record of four bytes is filed, and whoever waits for it is answered. -/
theorem exists_dnsReceiveARecord (hroom : names.card < dnsDomainRecordsTableSize)
    (hnamed : ∀ r ∈ s.received, r.parsedName.name ∈ names) (htable : s.domainRecords = tableOf ds)
    (hfiled : Filed s.received ds) (hdata : r.data.length = ipv4AddrSize) :
    ∃ t, dnsReceiveARecord s r = some t ∧
      Answers { s with
        domainRecords := tableOf (fileRecord r ds), received := s.received ++ [r] } t := by
  have hlen : ds.length < dnsDomainRecordsTableSize :=
    Nat.lt_of_le_of_lt (hfiled.length_le hnamed) hroom
  rw [dnsReceiveARecord, htable, updateDomainNameWithARecord_tableOf hfiled.nodup hlen hdata]
  exact exists_callbackListInvokeReadyCallbacks _

theorem CacheInv.receiveARecord (h : CacheInv names q s)
    (hroom : names.card < dnsDomainRecordsTableSize) (hr : r.parsedName.name ∈ names)
    (hunconfused : FilesUnconfused q s (.aRecord r)) (ht : dnsReceiveARecord s r = some t) :
    CacheInv names q t := by
  obtain ⟨ds, htable, hfiled, hfinds⟩ := h.entries
  have hdata : r.data.length = ipv4AddrSize := by
    by_contra hne
    rw [dnsReceiveARecord, updateDomainNameWithARecord, if_neg hne] at ht
    cases ht
  obtain ⟨t', ht', hanswers⟩ := exists_dnsReceiveARecord hroom h.named htable hfiled hdata
  obtain rfl : t' = t := Option.some.inj (ht'.symm.trans ht)
  refine CacheInv.answers ?_ hanswers
  refine ⟨?_, ?_, h.asked, ?_⟩
  · exact ⟨fileRecord r ds, rfl, hfiled.fileRecord r, hfinds.fileRecord hfiled (hunconfused hdata)⟩
  · intro r' hr'
    rcases List.mem_append.mp hr' with hr' | hr'
    · exact h.named r' hr'
    · exact List.mem_singleton.mp hr' ▸ hr
  · intro a ha
    obtain ⟨hle, hanswered⟩ := h.responses a ha
    refine ⟨hle.trans (by simp), ?_⟩
    rw [List.take_append_of_le_length hle]
    exact hanswered

theorem CacheInv.discover {q q' : Query} {service : String} (h : CacheInv names q s)
    (ht : dnsPerformDiscoverIpv4 s service q' = some t) : CacheInv names q t := by
  obtain ⟨callbacks, hinsert, ht⟩ := Option.bind_eq_some_iff.mp ht
  obtain ⟨-, hitems, -⟩ := ArrayM.insert_eq_some.mp hinsert
  have hwait : CacheInv names q { s with callbacks } := by
    refine ⟨h.entries, h.named, fun rpc hrpc => ?_, h.responses⟩
    rw [hitems] at hrpc
    rcases List.mem_append.mp hrpc with hrpc | hrpc
    · exact h.asked rpc hrpc
    · rw [List.mem_singleton.mp hrpc]
      exact ⟨service, rfl⟩
  dsimp only at ht
  split at ht
  · rename_i hsat
    have hlast : callbacks.items[callbacks.size - 1]? = some (callbackInfo service q') := by
      rw [ArrayM.size, hitems, List.length_append, List.length_singleton, Nat.add_sub_cancel]
      exact List.getElem?_concat_length ..
    obtain ⟨t', ht', hanswers, -⟩ := exists_dispatchCallback
      (show ({ s with callbacks } : DnsService).callbacks.items[_]? = _ from hlast) hsat
    obtain rfl : t' = t := Option.some.inj (ht'.symm.trans ht)
    exact hwait.answers hanswers
  · exact Option.some.inj ht ▸ hwait

theorem CacheInv.next {names : Finset (List Byte)} {q : Query} {s t : DnsService} {e : DnsEvent}
    (h : CacheInv names q s) (hroom : names.card < dnsDomainRecordsTableSize)
    (hnamed : NamedIn names e) (hunconfused : FilesUnconfused q s e) (ht : dnsNext s e = some t) :
    CacheInv names q t := by
  cases e with
  | aRecord r => exact h.receiveARecord hroom hnamed hunconfused ht
  | discover service q' => exact h.discover ht

/-- A record after which the cache is still exact was no confused one. -/
theorem CacheInv.filesUnconfused {e : DnsEvent} (h : CacheInv names q s)
    (hroom : names.card < dnsDomainRecordsTableSize)
    (hexact : ∀ t, dnsNext s e = some t → Exact q t) : FilesUnconfused q s e := by
  cases e with
  | discover service q' => trivial
  | aRecord r =>
    intro hdata hnew hunasked
    obtain ⟨ds, htable, hfiled, hfinds⟩ := h.entries
    obtain ⟨t, ht, hanswers⟩ := exists_dnsReceiveARecord hroom h.named htable hfiled hdata
    refine hfinds.unconfused hfiled ?_ hnew hunasked
    have hcontains := (hexact t ht).contains
    rw [hanswers.domainRecords, hanswers.received, dnsCacheContainsDomain_iff,
      dnsCopyARecord_tableOf, Option.isSome_map] at hcontains
    exact hcontains

theorem namedIn_recordNames (es : List DnsEvent) : ∀ e ∈ es, NamedIn (recordNames es).toFinset e := by
  intro e he
  cases e with
  | discover service q => trivial
  | aRecord r => exact List.mem_toFinset.mpr (List.mem_filterMap.mpr ⟨.aRecord r, he, rfl⟩)

/-- **The cache is a map by exact name, up to confused names.**  In every run with records of fewer
names than the table has entries, and for every queried name: in every state passed through the
lookups succeed exactly when a record of that name was received, with the latest address, and the
requests for it were answered with the latest address at the time — exactly when no record that is the
first of its name, and comes before every one of the queried name, has a name confused with it. -/
theorem dns_cache_exact_iff (es : List DnsEvent) (q : Query)
    (hfew : (recordNames es).toFinset.card < dnsDomainRecordsTableSize) :
    (∀ s, Passes dnsNext dnsInit es s → Exact q s) ↔
      Meets dnsNext (FilesUnconfused q) dnsInit es := by
  have hnamed : Meets dnsNext (fun _ e => NamedIn (recordNames es).toFinset e) dnsInit es :=
    Meets.of_forall es dnsInit (namedIn_recordNames es)
  have hinit := dnsInit_cacheInv (recordNames es).toFinset q
  constructor
  · intro hexact
    exact meets_of_passes (fun _ _ _ h hin hok ht => h.next hfew hin hok ht) hinit hnamed hexact
      fun _ _ h _ hgood => h.filesUnconfused hfew hgood
  · intro hmeets s hs
    exact (passes_invariant (fun _ _ _ h hok ht => CacheInv.next h hfew hok.1 hok.2 ht) hinit
      (hnamed.and hmeets) hs).exact

/-- `example.com`, and `example` alone. -/
def exampleCom : List Byte :=
  [0x65, 0x78, 0x61, 0x6d, 0x70, 0x6c, 0x65, 0x2e, 0x63, 0x6f, 0x6d]

def exampleName : ParsedName where
  name := exampleCom.take 7
  nameLen := 7
  text := by decide
  fits := by decide
  len := by decide

def exampleComName : ParsedName where
  name := exampleCom
  nameLen := 11
  text := by decide
  fits := by decide
  len := by decide

/-- A client asks for `example.com`; the byte behind the name in its message is a NUL. -/
def exampleComQuery : Query where
  name := exampleCom
  next := 0
  text := by decide
  short := by decide

/-- A record of `example` before the request for `example.com`. -/
def shorterNameFirst : List DnsEvent :=
  [.aRecord ⟨exampleName, [10, 0, 0, 1]⟩, .discover "com.axle.browser" exampleComQuery]

/-- A record of `example.com` before one of `example`, then a newer one. -/
def longerNameFirst : List DnsEvent :=
  [.discover "com.axle.browser" exampleComQuery, .aRecord ⟨exampleComName, [10, 0, 0, 2]⟩,
    .aRecord ⟨exampleName, [10, 0, 0, 1]⟩, .aRecord ⟨exampleComName, [10, 0, 0, 3]⟩]

theorem dns_cache_exact_longerNameFirst :
    (recordNames longerNameFirst).toFinset.card < dnsDomainRecordsTableSize ∧
      ∀ s, Passes dnsNext dnsInit longerNameFirst s → Exact exampleComQuery s :=
  ⟨by decide, (dns_cache_exact_iff longerNameFirst exampleComQuery (by decide)).mpr (by decide)⟩

/-- The client is sent the address of `example`, although no record of `example.com` has come. -/
theorem answered_with_another_domain :
    (recordNames shorterNameFirst).toFinset.card < dnsDomainRecordsTableSize ∧
      ∃ s, run dnsNext dnsInit shorterNameFirst = some s ∧
        s.responses = [⟨"com.axle.browser", [10, 0, 0, 1], exampleComQuery, 1⟩] ∧
        (∀ r ∈ s.received, r.parsedName.name ≠ exampleCom) ∧ ¬ Exact exampleComQuery s := by
  refine ⟨by decide, (run dnsNext dnsInit shorterNameFirst).get (by decide +kernel), by simp,
    by decide +kernel, by decide +kernel, fun h => ?_⟩
  obtain ⟨r, hr, hname⟩ := h.contains.mp (by decide +kernel)
  revert r
  decide +kernel

end Axle.Net.Dns
