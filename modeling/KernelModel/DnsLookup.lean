import KernelModel.Dns
import KernelModel.Keyring
import KernelModel.Ownership
import Mathlib.Data.List.TakeWhile

/-!
Lookups of the DNS resolver, with the cache and the requests that wait for a reply.

A lookup goes from one lock to the next, and between two of its steps other lookups, replies and
the thread that cleans up the cache take theirs. A string or a request is the number of its
allocation; the network, the clock and the allocators come from outside. An entry of the cache is
its key's, so an allocation of its own is left out.
-/

namespace KernelModel.DnsLookup

open Dns Function Keyrings Ownership

/-- `net_dns_request_t` -/
structure Request where
  name : ℕ
  address : ℕ
  cacheDuration : ℕ

/-- `net_dns_cache_entry_t` -/
structure CacheEntry where
  name : ℕ
  lastValidTime : ℕ
  address : ℕ

/-- Where `net_dns_lookup_name` is. -/
inductive Stage
  | missed
  | asking
  | inserted (id request : ℕ)
  | waiting (id request : ℕ)
  | removed (request : ℕ)
  deriving DecidableEq

namespace Stage

/-- The request of the lookup. -/
def request : Stage → Option ℕ
  | missed | asking => none
  | inserted _ request | waiting _ request | removed request => some request

/-- What the lookup has in the tree. -/
def treeEntry : Stage → Option (ℕ × ℕ)
  | missed | asking | removed _ => none
  | inserted id request | waiting id request => some (id, request)

end Stage

/-- A call of `net_dns_lookup_name`. -/
structure Lookup where
  name : Keyrings.Name
  nonblocking : Bool
  nameString : ℕ
  stage : Stage

structure State where
  strings : ℕ → Option StringT
  requests : ℕ → Option Request
  cacheAddressTree : ℕ → Option CacheEntry
  requestTree : ℕ → Option ℕ
  requestId : ℕ
  lookups : ℕ → Option Lookup
  /-- what the calls have returned -/
  returned : ℕ → ℕ

namespace State

/-- After `MODULE_INIT`. -/
def init : State where
  strings _ := none
  requests _ := none
  cacheAddressTree _ := none
  requestTree _ := none
  requestId := 0
  lookups _ := none
  returned _ := 0

def setLookup (s : State) (t : ℕ) (l : Option Lookup) : State :=
  { s with lookups := update s.lookups t l }

def setEntry (s : State) (key : ℕ) (e : Option CacheEntry) : State :=
  { s with cacheAddressTree := update s.cacheAddressTree key e }

/-- `smm_dealloc` -/
def smmDealloc (s : State) (string : ℕ) : State :=
  { s with strings := update s.strings string none }

def setRequest (s : State) (request : ℕ) (q : Option Request) : State :=
  { s with requests := update s.requests request q }

def setTree (s : State) (id : ℕ) (request : Option ℕ) : State :=
  { s with requestTree := update s.requestTree id request }

/-- The call returns. -/
def leave (s : State) (t out : ℕ) : State :=
  { s.setLookup t none with returned := update s.returned t out }

end State

/-- `key` -/
def key (name : Keyrings.Name) : ℕ :=
  (smmAlloc name).length <<< 32 ||| (smmAlloc name).hash.toNat

/-- The entry is still valid, and is for the same characters. -/
def Valid (s : State) (name : Keyrings.Name) (time : ℕ) (e : CacheEntry) : Prop :=
  ¬e.lastValidTime < time ∧ ∀ i < (smmAlloc name).length,
    ((s.strings e.name).elim [] StringT.data).getD i 0 = name.data.getD i 0

instance (s : State) (name : Keyrings.Name) (time : ℕ) (e : CacheEntry) :
    Decidable (Valid s name time e) := inferInstanceAs (Decidable (_ ∧ _))

/-- `net_dns_lookup_name` up to the end of its first lock. -/
def lookupCache (s : State) (t : ℕ) (name : Keyrings.Name) (nonblocking : Bool)
    (nameString time : ℕ) : Option State :=
  if (s.lookups t).isSome ∨ (s.strings nameString).isSome then none
  else
    let s := { s with strings := update s.strings nameString (some (smmAlloc name)) }
    let missed := some ⟨name, nonblocking, nameString, .missed⟩
    match s.cacheAddressTree (key name) with
    | none => some (s.setLookup t missed)
    | some e =>
      if Valid s name time e then some (s.leave t e.address)
      else some (((s.setEntry (key name) none).smmDealloc e.name).setLookup t missed)

/-- The check for a DNS server. -/
def lookupServer (s : State) (t : ℕ) (dnsEntry : Option ℕ) : Option State :=
  match s.lookups t with
  | some ⟨name, nonblocking, nameString, .missed⟩ =>
    if nonblocking ∨ dnsEntry.isNone then some (s.leave t 0)
    else some (s.setLookup t (some ⟨name, nonblocking, nameString, .asking⟩))
  | _ => none

/-- The second lock, with what a new request has for a duration. -/
def lookupInsert (s : State) (t request duration : ℕ) : Option State :=
  match s.lookups t with
  | some ⟨name, nonblocking, nameString, .asking⟩ =>
    if (s.requests request).isSome then none
    else
      let id := s.requestId
      if (s.requestTree id).isSome then some (s.leave t 0)
      else some ((({ s with requestId := (s.requestId + 1) % 2 ^ 16 }.setRequest request
        (some ⟨nameString, 0, duration⟩)).setTree id (some request)).setLookup t
          (some ⟨name, nonblocking, nameString, .inserted id request⟩))
  | _ => none

/-- The name can be encoded, and the question fits behind it. -/
def Encodable (name : Keyrings.Name) : Prop :=
  let offset := (encodeName name.data (fun _ => 0) (512 - sizeofPacket)).1 % 2 ^ 16
  ¬(offset = 0 ∨ 512 - sizeofPacket - offset < sizeofQuestion)

instance (name : Keyrings.Name) : Decidable (Encodable name) := inferInstanceAs (Decidable (¬_))

/-- The request is sent. -/
def lookupSend (s : State) (t : ℕ) : Option State :=
  match s.lookups t with
  | some ⟨name, nonblocking, nameString, .inserted id request⟩ =>
    if Encodable name then
      some (s.setLookup t (some ⟨name, nonblocking, nameString, .waiting id request⟩))
    else some (s.leave t 0)
  | _ => none

/-- The wait ends, by a reply or by the timer, and the request is taken out of the tree. -/
def lookupWake (s : State) (t : ℕ) : Option State :=
  match s.lookups t with
  | some ⟨name, nonblocking, nameString, .waiting id request⟩ =>
    some ((s.setTree id none).setLookup t (some ⟨name, nonblocking, nameString, .removed request⟩))
  | _ => none

/-- What becomes of the name of a request: it is freed or goes to the cache. -/
def settleName (s : State) (key : ℕ) (q : Request) (time : ℕ) : State :=
  if q.address = 0 ∨ q.cacheDuration = 0 then s.smmDealloc q.name
  else
    let entry := some ⟨q.name, (time + q.cacheDuration * 1000000000) % 2 ^ 64, q.address⟩
    match s.cacheAddressTree key with
    | some e => (s.smmDealloc e.name).setEntry key entry
    | none => s.setEntry key entry

/-- The rest of `net_dns_lookup_name`. -/
def lookupFinish (s : State) (t time : ℕ) : Option State :=
  match s.lookups t with
  | some ⟨name, _, _, .removed request⟩ =>
    (s.requests request).map fun q =>
      ((settleName s (key name) q time).setRequest request none).leave t q.address
  | _ => none

/-- A round of `_rx_thread`. -/
def receive (s : State) (p : Packet) (buffer : Buffer) (fuel : ℕ) : Option State :=
  match handleReply (fun id => (s.requestTree id).isSome) buffer p fuel with
  | some (.ok none) => some s
  | some (.ok (some reply)) =>
    match s.requestTree p.id with
    | some request => some (s.setRequest request ((s.requests request).map fun q =>
        { q with address := reply.address, cacheDuration := reply.cacheDuration }))
    | none => some s
  | _ => none

/-- A round of the loop of `_cache_cleanup_thread`. -/
def cleanup (s : State) (key time : ℕ) : Option State :=
  (s.cacheAddressTree key).map fun e =>
    if e.lastValidTime ≥ time then s else (s.setEntry key none).smmDealloc e.name

inductive Action
  | lookupCache (t : ℕ) (name : Keyrings.Name) (nonblocking : Bool) (nameString time : ℕ)
  | lookupServer (t : ℕ) (dnsEntry : Option ℕ)
  | lookupInsert (t request duration : ℕ)
  | lookupSend (t : ℕ)
  | lookupWake (t : ℕ)
  | lookupFinish (t time : ℕ)
  | receive (p : Packet) (buffer : Buffer) (fuel : ℕ)
  | cleanup (key time : ℕ)

def step (s : State) : Action → Option State
  | .lookupCache t name nonblocking nameString time =>
    DnsLookup.lookupCache s t name nonblocking nameString time
  | .lookupServer t dnsEntry => DnsLookup.lookupServer s t dnsEntry
  | .lookupInsert t request duration => DnsLookup.lookupInsert s t request duration
  | .lookupSend t => DnsLookup.lookupSend s t
  | .lookupWake t => DnsLookup.lookupWake s t
  | .lookupFinish t time => DnsLookup.lookupFinish s t time
  | .receive p buffer fuel => DnsLookup.receive s p buffer fuel
  | .cleanup key time => DnsLookup.cleanup s key time

/-- A run, from the first action to the last. -/
def run (s : State) : List Action → Option State
  | [] => some s
  | a :: actions => (step s a).bind fun s => run s actions

/-! ### Owners -/

/-- Who is to free a string. -/
inductive Owner
  | lookup (t : ℕ)
  | entry (key : ℕ)
  deriving DecidableEq

def nameOf (s : State) : Owner → Option ℕ
  | .lookup t => (s.lookups t).map Lookup.nameString
  | .entry key => (s.cacheAddressTree key).map CacheEntry.name

def requestOf (s : State) (t : ℕ) : Option ℕ := (s.lookups t).bind fun l => l.stage.request

def idOf (s : State) (t : ℕ) : Option ℕ :=
  (s.lookups t).bind fun l => l.stage.treeEntry.map Prod.fst

/-- Nothing is left behind: each string is a lookup's that still runs or an entry's of the cache,
each request is a lookup's that still runs, and so is each id in the tree. -/
structure Clean (s : State) : Prop where
  strings : Exact (nameOf s) s.strings
  requests : Exact (requestOf s) s.requests
  tree : Exact (idOf s) s.requestTree

lemma Clean.id_free {s : State} (h : Clean s) (hidle : ∀ t, s.lookups t = none) (id : ℕ) :
    s.requestTree id = none := by
  by_contra hne
  obtain ⟨t, ht⟩ := (h.tree.owned id).mp hne
  rw [idOf, hidle t, Option.bind_none] at ht
  exact Option.some_ne_none id ht.symm

/-- The step is not one of the early returns. -/
def Meets (s : State) : Action → Prop
  | .lookupCache _ name _ _ time => ∀ e, s.cacheAddressTree (key name) = some e →
    ¬Valid s name time e
  | .lookupServer t dnsEntry => dnsEntry ≠ none ∧ ∀ l, s.lookups t = some l → l.nonblocking = false
  | .lookupInsert _ _ _ => s.requestTree s.requestId = none
  | .lookupSend t => ∀ l, s.lookups t = some l → Encodable l.name
  | _ => True

/-! ### One step -/

section

variable (s : State) (t : ℕ) (o : Option Lookup)

@[simp] lemma lookups_setLookup_self : (s.setLookup t o).lookups t = o := update_self ..

lemma lookups_setLookup_of_ne {t' : ℕ} (h : t' ≠ t) :
    (s.setLookup t o).lookups t' = s.lookups t' := update_of_ne h ..

@[simp] lemma entries_setEntry_self (k : ℕ) (e : Option CacheEntry) :
    (s.setEntry k e).cacheAddressTree k = e := update_self ..

lemma entries_setEntry_of_ne {k k' : ℕ} (h : k' ≠ k) (e : Option CacheEntry) :
    (s.setEntry k e).cacheAddressTree k' = s.cacheAddressTree k' := update_of_ne h ..

lemma nameOf_setLookup :
    nameOf (s.setLookup t o) = update (nameOf s) (.lookup t) (o.map Lookup.nameString) := by
  funext owner
  cases owner with
  | lookup t' =>
    by_cases ht : t' = t
    · rw [ht, update_self, nameOf, lookups_setLookup_self]
    · rw [update_of_ne (fun h => ht (Owner.lookup.inj h)), nameOf, nameOf,
        lookups_setLookup_of_ne _ _ _ ht]
  | entry k => rw [update_of_ne Owner.noConfusion, nameOf, nameOf, State.setLookup]

lemma nameOf_setEntry (k : ℕ) (e : Option CacheEntry) :
    nameOf (s.setEntry k e) = update (nameOf s) (.entry k) (e.map CacheEntry.name) := by
  funext owner
  cases owner with
  | lookup t' => rw [update_of_ne Owner.noConfusion, nameOf, nameOf, State.setEntry]
  | entry k' =>
    by_cases hk : k' = k
    · rw [hk, update_self, nameOf, entries_setEntry_self]
    · rw [update_of_ne (fun h => hk (Owner.entry.inj h)), nameOf, nameOf,
        entries_setEntry_of_ne _ hk]

lemma requestOf_setLookup :
    requestOf (s.setLookup t o) = update (requestOf s) t (o.bind fun l => l.stage.request) := by
  funext t'
  by_cases ht : t' = t
  · rw [ht, update_self, requestOf, lookups_setLookup_self]
  · rw [update_of_ne ht, requestOf, requestOf, lookups_setLookup_of_ne _ _ _ ht]

lemma idOf_setLookup :
    idOf (s.setLookup t o) =
      update (idOf s) t (o.bind fun l => l.stage.treeEntry.map Prod.fst) := by
  funext t'
  by_cases ht : t' = t
  · rw [ht, update_self, idOf, lookups_setLookup_self]
  · rw [update_of_ne ht, idOf, idOf, lookups_setLookup_of_ne _ _ _ ht]

variable {s t o}

lemma exact_nameOf {heap : ℕ → Option StringT} (h : Exact (nameOf s) heap)
    (hname : o.map Lookup.nameString = nameOf s (.lookup t)) :
    Exact (nameOf (s.setLookup t o)) heap := by
  rwa [nameOf_setLookup, hname, update_eq_self]

lemma exact_requestOf {heap : ℕ → Option Request} (h : Exact (requestOf s) heap)
    (hrequest : (o.bind fun l => l.stage.request) = requestOf s t) :
    Exact (requestOf (s.setLookup t o)) heap := by
  rwa [requestOf_setLookup, hrequest, update_eq_self]

lemma exact_idOf {tree : ℕ → Option ℕ} (h : Exact (idOf s) tree)
    (hid : (o.bind fun l => l.stage.treeEntry.map Prod.fst) = idOf s t) :
    Exact (idOf (s.setLookup t o)) tree := by
  rwa [idOf_setLookup, hid, update_eq_self]

end

/-- What the lookup has in the tree and on the heap is there. -/
structure Backed (s : State) (l : Lookup) : Prop where
  entered : ∀ id request, l.stage.treeEntry = some (id, request) →
    s.requestTree id = some request
  named : ∀ request, l.stage.request = some request →
    ∃ q, s.requests request = some q ∧ q.name = l.nameString

structure Inv (s : State) : Prop extends Clean s where
  backed : ∀ t l, s.lookups t = some l → Backed s l

section

variable {s s' : State} {t : ℕ} {l : Lookup}

lemma nameOf_lookup (hl : s.lookups t = some l) : nameOf s (.lookup t) = some l.nameString := by
  rw [nameOf, hl, Option.map_some]

lemma requestOf_lookup (hl : s.lookups t = some l) : requestOf s t = l.stage.request := by
  rw [requestOf, hl, Option.bind_some]

lemma idOf_lookup (hl : s.lookups t = some l) :
    idOf s t = l.stage.treeEntry.map Prod.fst := by
  rw [idOf, hl, Option.bind_some]

lemma not_clean_leave (h : Clean s) (hl : s.lookups t = some l) (out : ℕ) :
    ¬Clean (s.leave t out) := by
  intro hclean
  have hstrings : Exact (nameOf (s.setLookup t none)) s.strings := hclean.strings
  rw [nameOf_setLookup] at hstrings
  exact h.strings.leak (nameOf_lookup hl) hstrings

lemma backed_setLookup {o : Option Lookup} (hself : ∀ l, o = some l → Backed s l)
    (hothers : ∀ t' l, t' ≠ t → s.lookups t' = some l → Backed s l) (t' : ℕ) (l : Lookup)
    (hl : (s.setLookup t o).lookups t' = some l) : Backed (s.setLookup t o) l := by
  have hb : Backed s l := by
    by_cases ht : t' = t
    · rw [ht, lookups_setLookup_self] at hl
      exact hself l hl
    · rw [lookups_setLookup_of_ne _ _ _ ht] at hl
      exact hothers t' l ht hl
  exact ⟨hb.entered, hb.named⟩

lemma Inv.advance (h : Inv s) {name : Keyrings.Name} {nonblocking : Bool} {nameString : ℕ}
    {stage stage' : Stage} (hl : s.lookups t = some ⟨name, nonblocking, nameString, stage⟩)
    (hrequest : stage'.request = stage.request) (htree : stage'.treeEntry = stage.treeEntry) :
    Inv (s.setLookup t (some ⟨name, nonblocking, nameString, stage'⟩)) where
  strings :=
    exact_nameOf h.strings (nameOf_lookup hl).symm
  requests :=
    exact_requestOf h.requests (hrequest.trans (requestOf_lookup hl).symm)
  tree :=
    exact_idOf h.tree (by rw [idOf_lookup hl, Option.bind_some, htree])
  backed := by
    have hb := h.backed t _ hl
    refine backed_setLookup (fun l hself => ?_) fun t' l _ hl => h.backed t' l hl
    obtain rfl := Option.some.inj hself
    exact ⟨fun id request hid => hb.entered id request (htree.symm.trans hid),
      fun request hr => hb.named request (hrequest.symm.trans hr)⟩

lemma Inv.dropEntry (h : Inv s) {k : ℕ} {e : CacheEntry} (he : s.cacheAddressTree k = some e) :
    Inv ((s.setEntry k none).smmDealloc e.name) where
  strings := by
    have hname : nameOf s (.entry k) = some e.name := by rw [nameOf, he, Option.map_some]
    have hfree := h.strings.free hname
    rw [← Option.map_none CacheEntry.name, ← nameOf_setEntry] at hfree
    exact hfree
  requests := h.requests
  tree := h.tree
  backed t l hl := ⟨(h.backed t l hl).entered, (h.backed t l hl).named⟩

lemma Inv.enter (h : Inv s) {p : ℕ} (hl : s.lookups t = none) (hp : s.strings p = none)
    (name : Keyrings.Name) (nonblocking : Bool) :
    Inv ({ s with strings := update s.strings p (some (smmAlloc name)) }.setLookup t
      (some ⟨name, nonblocking, p, .missed⟩)) where
  strings := by
    have hname : nameOf s (.lookup t) = none := by rw [nameOf, hl, Option.map_none]
    rw [nameOf_setLookup]
    exact h.strings.alloc (smmAlloc name) hname hp
  requests := by
    have hrequest : requestOf s t = none := by rw [requestOf, hl, Option.bind_none]
    exact exact_requestOf h.requests hrequest.symm
  tree := by
    have hid : idOf s t = none := by rw [idOf, hl, Option.bind_none]
    exact exact_idOf h.tree hid.symm
  backed := by
    refine backed_setLookup (fun l hself => ?_) fun t' l _ hl =>
      ⟨(h.backed t' l hl).entered, (h.backed t' l hl).named⟩
    obtain rfl := Option.some.inj hself
    exact ⟨fun _ _ hid => absurd hid.symm (Option.some_ne_none _),
      fun _ hr => absurd hr.symm (Option.some_ne_none _)⟩

lemma Inv.insert (h : Inv s) {name : Keyrings.Name} {nonblocking : Bool} {nameString request id : ℕ}
    (hl : s.lookups t = some ⟨name, nonblocking, nameString, .asking⟩)
    (hrequest : s.requests request = none) (hid : s.requestTree id = none) (next duration : ℕ) :
    Inv ((({ s with requestId := next }.setRequest request
      (some ⟨nameString, 0, duration⟩)).setTree id (some request)).setLookup t
        (some ⟨name, nonblocking, nameString, .inserted id request⟩)) where
  strings := exact_nameOf h.strings (nameOf_lookup hl).symm
  requests := by
    rw [requestOf_setLookup]
    exact h.requests.alloc _ (requestOf_lookup hl) hrequest
  tree := by
    rw [idOf_setLookup]
    exact h.tree.alloc _ (idOf_lookup hl) hid
  backed := by
    refine backed_setLookup (fun l hself => ?_) fun t' l _ hl => ?_
    · obtain rfl := Option.some.inj hself
      refine ⟨fun id' request' hid' => ?_, fun request' hr => ?_⟩
      · obtain ⟨rfl, rfl⟩ := Prod.mk.inj (Option.some.inj hid')
        exact update_self ..
      · obtain rfl := Option.some.inj hr
        exact ⟨_, update_self .., rfl⟩
    · have hb := h.backed t' l hl
      refine ⟨fun id' request' hid' => ?_, fun request' hr => ?_⟩
      · have hentered := hb.entered id' request' hid'
        have hne : id' ≠ id := fun he => Option.some_ne_none _ (hentered.symm.trans (he ▸ hid))
        exact (update_of_ne hne ..).trans hentered
      · obtain ⟨q, hq, hname⟩ := hb.named request' hr
        have hne : request' ≠ request :=
          fun he => Option.some_ne_none _ (hq.symm.trans (he ▸ hrequest))
        exact ⟨q, (update_of_ne hne ..).trans hq, hname⟩

lemma Inv.wake (h : Inv s) {name : Keyrings.Name} {nonblocking : Bool} {nameString request id : ℕ}
    (hl : s.lookups t = some ⟨name, nonblocking, nameString, .waiting id request⟩) :
    Inv ((s.setTree id none).setLookup t
      (some ⟨name, nonblocking, nameString, .removed request⟩)) where
  strings := exact_nameOf h.strings (nameOf_lookup hl).symm
  requests := exact_requestOf h.requests (requestOf_lookup hl).symm
  tree := by
    rw [idOf_setLookup]
    exact h.tree.free (idOf_lookup hl)
  backed := by
    refine backed_setLookup (fun l hself => ?_) fun t' l ht hl' => ?_
    · obtain rfl := Option.some.inj hself
      exact ⟨fun _ _ hid' => absurd hid'.symm (Option.some_ne_none _), (h.backed t _ hl).named⟩
    · have hb := h.backed t' l hl'
      refine ⟨fun id' request' hid' => ?_, hb.named⟩
      have hne : id' ≠ id := by
        rintro rfl
        have hown := (idOf_lookup (s := s) hl').trans (congrArg (Option.map Prod.fst) hid')
        exact ht (h.tree.once t' t id' hown (idOf_lookup hl))
      exact (update_of_ne hne ..).trans (hb.entered id' request' hid')

lemma exact_settleName (h : Inv s) {q : Request} (hl : s.lookups t = some l)
    (hq : q.name = l.nameString) (k time : ℕ) :
    Exact (nameOf ((settleName s k q time).setLookup t none)) (settleName s k q time).strings := by
  have hown : nameOf s (.lookup t) = some q.name := by rw [nameOf_lookup hl, hq]
  have hmove : ∀ {own : Owner → Option ℕ} {heap : ℕ → Option StringT}, Exact own heap →
      own (.lookup t) = some q.name → own (.entry k) = none →
        Exact (update (update own (.entry k) (some q.name)) (.lookup t) none) heap := by
    intro own heap hexact ht hk
    rw [update_comm Owner.noConfusion]
    exact hexact.move ht hk
  rw [nameOf_setLookup, settleName]
  split_ifs with hnone
  · exact h.strings.free hown
  · cases he : s.cacheAddressTree k with
    | none =>
      dsimp only
      rw [nameOf_setEntry]
      exact hmove h.strings hown (by rw [nameOf, he, Option.map_none])
    | some e =>
      have hentry : nameOf s (.entry k) = some e.name := by rw [nameOf, he, Option.map_some]
      have hfreed := hmove (h.strings.free hentry) ((update_of_ne Owner.noConfusion ..).trans hown)
        (update_self ..)
      rw [update_idem] at hfreed
      dsimp only
      rw [nameOf_setEntry]
      exact hfreed

lemma settleName_rest (s : State) (k : ℕ) (q : Request) (time : ℕ) :
    (settleName s k q time).lookups = s.lookups ∧ (settleName s k q time).requests = s.requests ∧
      (settleName s k q time).requestTree = s.requestTree := by
  rw [settleName]
  split_ifs
  · exact ⟨rfl, rfl, rfl⟩
  · cases s.cacheAddressTree k <;> exact ⟨rfl, rfl, rfl⟩

lemma Inv.finish (h : Inv s) {name : Keyrings.Name} {nonblocking : Bool} {nameString request : ℕ}
    {q : Request} (hl : s.lookups t = some ⟨name, nonblocking, nameString, .removed request⟩)
    (hq : s.requests request = some q) (k time out : ℕ) :
    Inv (((settleName s k q time).setRequest request none).leave t out) := by
  obtain ⟨hlookups, hrequests, htree⟩ := settleName_rest s k q time
  have hrequest : requestOf s t = some request := requestOf_lookup hl
  have hrequestOf : requestOf (settleName s k q time) = requestOf s := by
    funext t'
    rw [requestOf, requestOf, hlookups]
  have hidOf : idOf (settleName s k q time) = idOf s := by
    funext t'
    rw [idOf, idOf, hlookups]
  obtain ⟨q', hq', hname⟩ := (h.backed t _ hl).named request rfl
  obtain rfl := Option.some.inj (hq.symm.trans hq')
  refine ⟨⟨exact_settleName h hl hname k time, ?_, ?_⟩, ?_⟩
  · show Exact (requestOf ((settleName s k q time).setLookup t none))
      (update (settleName s k q time).requests request none)
    rw [requestOf_setLookup, hrequestOf, hrequests]
    exact h.requests.free hrequest
  · show Exact (idOf ((settleName s k q time).setLookup t none)) (settleName s k q time).requestTree
    refine exact_idOf ?_ ?_
    · rw [hidOf, htree]
      exact h.tree
    · rw [hidOf, idOf_lookup hl]
      rfl
  · intro t' l hl'
    have ht : t' ≠ t := by
      rintro rfl
      exact Option.some_ne_none l (hl'.symm.trans (update_self ..))
    have hl1 : s.lookups t' = some l := by
      rw [← hlookups]
      exact (update_of_ne ht ..).symm.trans hl'
    have hb := h.backed t' l hl1
    refine ⟨fun id request' hid => ?_, fun request' hr => ?_⟩
    · rw [← hb.entered id request' hid]
      exact congrFun htree id
    · obtain ⟨q1, hq1, hname1⟩ := hb.named request' hr
      have hne : request' ≠ request := by
        rintro rfl
        exact ht (h.requests.once t' t _ ((requestOf_lookup hl1).trans hr) hrequest)
      refine ⟨q1, (update_of_ne hne ..).trans ?_, hname1⟩
      rw [hrequests, hq1]

lemma Inv.answer (h : Inv s) {id request : ℕ} (hid : s.requestTree id = some request)
    (reply : Reply) :
    Inv (s.setRequest request ((s.requests request).map fun q =>
      { q with address := reply.address, cacheDuration := reply.cacheDuration })) := by
  obtain ⟨t, ht⟩ := (h.tree.owned id).mp (hid ▸ Option.some_ne_none request)
  obtain ⟨l, hl, hentry⟩ := Option.bind_eq_some_iff.mp ht
  obtain ⟨⟨id', request'⟩, htree, rfl⟩ := Option.map_eq_some_iff.mp hentry
  obtain rfl : request' = request :=
    Option.some.inj (((h.backed t l hl).entered id' request' htree).symm.trans hid)
  have hrequest : l.stage.request = some request' := by
    cases hstage : l.stage <;> rw [hstage] at htree <;> first | cases htree; rfl | cases htree
  obtain ⟨q, hq, -⟩ := (h.backed t l hl).named request' hrequest
  have hthere : s.requests request' ≠ none := by
    rw [hq]
    exact Option.some_ne_none q
  refine ⟨⟨h.strings, h.requests.change hthere ?_, h.tree⟩, fun t1 l1 hl1 => ?_⟩
  · rw [hq]
    exact Option.some_ne_none _
  · have hb := h.backed t1 l1 hl1
    refine ⟨hb.entered, fun request1 hr => ?_⟩
    obtain ⟨q1, hq1, hname⟩ := hb.named request1 hr
    by_cases hsame : request1 = request'
    · rw [hsame] at hq1 ⊢
      exact ⟨_, (update_self ..).trans (congrArg (Option.map _) hq1), hname⟩
    · exact ⟨q1, (update_of_ne hsame ..).trans hq1, hname⟩

lemma valid_update (h : Clean s) {name : Keyrings.Name} {e : CacheEntry} {p time : ℕ}
    (he : s.cacheAddressTree (key name) = some e) (hp : s.strings p = none) :
    Valid { s with strings := update s.strings p (some (smmAlloc name)) } name time e ↔
      Valid s name time e := by
  have hown : nameOf s (.entry (key name)) = some e.name := by rw [nameOf, he, Option.map_some]
  have hne : e.name ≠ p := fun heq => h.strings.not_owned hp (heq ▸ hown)
  dsimp only [Valid]
  rw [update_of_ne hne]

lemma lookupCache_inv {name : Keyrings.Name} {nonblocking : Bool} {p time : ℕ} (h : Inv s)
    (hs : lookupCache s t name nonblocking p time = some s')
    (hmiss : ∀ e, s.cacheAddressTree (key name) = some e → ¬Valid s name time e) : Inv s' := by
  rw [lookupCache] at hs
  split_ifs at hs with hnew
  rw [not_or, Option.not_isSome_iff_eq_none, Option.not_isSome_iff_eq_none] at hnew
  have henter := h.enter hnew.1 hnew.2 name nonblocking
  dsimp only at hs
  split at hs
  · obtain rfl := Option.some.inj hs
    exact henter
  case h_2 e he =>
    rw [if_neg (mt (valid_update h.toClean he hnew.2).mp (hmiss e he))] at hs
    obtain rfl := Option.some.inj hs
    exact henter.dropEntry he

lemma lookupServer_inv {dnsEntry : Option ℕ} (h : Inv s) (hs : lookupServer s t dnsEntry = some s')
    (hserver : dnsEntry ≠ none) (hblocking : ∀ l, s.lookups t = some l → l.nonblocking = false) :
    Inv s' := by
  rw [lookupServer] at hs
  split at hs
  case h_1 name nonblocking p hl =>
    rw [if_neg ?_] at hs
    · obtain rfl := Option.some.inj hs
      exact h.advance hl rfl rfl
    · rintro (hnonblocking | hnone)
      · exact Bool.false_ne_true ((hblocking _ hl).symm.trans hnonblocking)
      · exact hserver (Option.isNone_iff_eq_none.mp hnone)
  case h_2 => cases hs

lemma lookupInsert_inv {request duration : ℕ} (h : Inv s)
    (hs : lookupInsert s t request duration = some s') (hfree : s.requestTree s.requestId = none) :
    Inv s' := by
  rw [lookupInsert] at hs
  split at hs
  case h_1 name nonblocking p hl =>
    split_ifs at hs with hnew
    dsimp only at hs
    rw [if_neg (Option.not_isSome_iff_eq_none.mpr hfree)] at hs
    obtain rfl := Option.some.inj hs
    exact h.insert hl (Option.not_isSome_iff_eq_none.mp hnew) hfree _ duration
  case h_2 => cases hs

lemma lookupSend_inv (h : Inv s) (hs : lookupSend s t = some s')
    (hencodable : ∀ l, s.lookups t = some l → Encodable l.name) : Inv s' := by
  rw [lookupSend] at hs
  split at hs
  case h_1 name nonblocking p id request hl =>
    rw [if_pos (hencodable _ hl)] at hs
    obtain rfl := Option.some.inj hs
    exact h.advance hl rfl rfl
  case h_2 => cases hs

lemma lookupWake_inv (h : Inv s) (hs : lookupWake s t = some s') : Inv s' := by
  rw [lookupWake] at hs
  split at hs
  case h_1 name nonblocking p id request hl =>
    obtain rfl := Option.some.inj hs
    exact h.wake hl
  case h_2 => cases hs

lemma lookupFinish_inv {time : ℕ} (h : Inv s) (hs : lookupFinish s t time = some s') : Inv s' := by
  rw [lookupFinish] at hs
  split at hs
  case h_1 name nonblocking p request hl =>
    obtain ⟨q, hq, rfl⟩ := Option.map_eq_some_iff.mp hs
    exact h.finish hl hq _ time _
  case h_2 => cases hs

lemma receive_inv {p : Packet} {buffer : Buffer} {fuel : ℕ} (h : Inv s)
    (hs : receive s p buffer fuel = some s') : Inv s' := by
  rw [receive] at hs
  split at hs
  · obtain rfl := Option.some.inj hs
    exact h
  case h_2 reply _ =>
    split at hs
    case h_1 request hid =>
      obtain rfl := Option.some.inj hs
      exact h.answer hid reply
    case h_2 =>
      obtain rfl := Option.some.inj hs
      exact h
  case h_3 => cases hs

lemma cleanup_inv {k time : ℕ} (h : Inv s) (hs : cleanup s k time = some s') : Inv s' := by
  obtain ⟨e, he, rfl⟩ := Option.map_eq_some_iff.mp hs
  split_ifs
  · exact h
  · exact h.dropEntry he

lemma step_inv {a : Action} (h : Inv s) (hm : Meets s a) (hs : step s a = some s') : Inv s' := by
  cases a with
  | lookupCache t name nonblocking p time => exact lookupCache_inv h hs hm
  | lookupServer t dnsEntry => exact lookupServer_inv h hs hm.1 hm.2
  | lookupInsert t request duration => exact lookupInsert_inv h hs hm
  | lookupSend t => exact lookupSend_inv h hs hm
  | lookupWake t => exact lookupWake_inv h hs
  | lookupFinish t time => exact lookupFinish_inv h hs
  | receive p buffer fuel => exact receive_inv h hs
  | cleanup k time => exact cleanup_inv h hs

lemma step_leaks {a : Action} (h : Clean s) (hm : ¬Meets s a) (hs : step s a = some s') :
    ¬Clean s' := by
  cases a with
  | lookupCache t name nonblocking p time =>
    rw [Meets] at hm
    push Not at hm
    obtain ⟨e, he, hvalid⟩ := hm
    rw [step, lookupCache] at hs
    split_ifs at hs with hnew
    rw [not_or, Option.not_isSome_iff_eq_none, Option.not_isSome_iff_eq_none] at hnew
    dsimp only at hs
    rw [he] at hs
    dsimp only at hs
    rw [if_pos ((valid_update h he hnew.2).mpr hvalid)] at hs
    obtain rfl := Option.some.inj hs
    intro hclean
    have hnone : nameOf s (.lookup t) = none := by rw [nameOf, hnew.1, Option.map_none]
    have hleak : Exact (nameOf (s.setLookup t none)) _ := hclean.strings
    rw [nameOf_setLookup, Option.map_none, ← hnone, update_eq_self] at hleak
    exact h.strings.leak_alloc _ hnew.2 hleak
  | lookupServer t dnsEntry =>
    rw [step, lookupServer] at hs
    split at hs
    case h_1 name nonblocking p hl =>
      split_ifs at hs with hearly
      · obtain rfl := Option.some.inj hs
        exact not_clean_leave h hl 0
      · rw [not_or, Bool.not_eq_true] at hearly
        refine absurd
          ⟨fun hnone => hearly.2 (Option.isNone_iff_eq_none.mpr hnone), fun l hl' => ?_⟩ hm
        obtain rfl := Option.some.inj (hl.symm.trans hl')
        exact hearly.1
    case h_2 => cases hs
  | lookupInsert t request duration =>
    rw [step, lookupInsert] at hs
    split at hs
    case h_1 name nonblocking p hl =>
      split_ifs at hs
      dsimp only at hs
      rw [if_pos (Option.isSome_iff_ne_none.mpr hm)] at hs
      obtain rfl := Option.some.inj hs
      exact not_clean_leave h hl 0
    case h_2 => cases hs
  | lookupSend t =>
    rw [step, lookupSend] at hs
    split at hs
    case h_1 name nonblocking p id request hl =>
      split_ifs at hs with hencodable
      · refine absurd (fun l hl' => ?_) hm
        obtain rfl := Option.some.inj (hl.symm.trans hl')
        exact hencodable
      · obtain rfl := Option.some.inj hs
        exact not_clean_leave h hl 0
    case h_2 => cases hs
  | lookupWake t => exact absurd trivial hm
  | lookupFinish t time => exact absurd trivial hm
  | receive p buffer fuel => exact absurd trivial hm
  | cleanup k time => exact absurd trivial hm

end

/-! ### Runs -/

lemma inv_init : Inv State.init where
  strings := ⟨fun _ => ⟨fun hne => absurd rfl hne, fun ⟨o, ho⟩ => by cases o <;> cases ho⟩,
    fun o _ _ ho _ => by cases o <;> cases ho⟩
  requests := ⟨fun _ => ⟨fun hne => absurd rfl hne, fun ⟨_, ho⟩ => by cases ho⟩,
    fun _ _ _ ho _ => by cases ho⟩
  tree := ⟨fun _ => ⟨fun hne => absurd rfl hne, fun ⟨_, ho⟩ => by cases ho⟩,
    fun _ _ _ ho _ => by cases ho⟩
  backed _ _ hl := by cases hl

lemma run_append (s : State) (actions : List Action) (a : Action) :
    run s (actions ++ [a]) = (run s actions).bind fun s => step s a := by
  induction actions generalizing s with
  | nil =>
    show (step s a).bind some = step s a
    cases step s a <;> rfl
  | cons b actions ih =>
    rw [List.cons_append, run, run, Option.bind_assoc]
    exact Option.bind_congr fun s1 _ => ih s1

/-- Nothing is left behind in any state of the run. -/
def LeavesNothing (actions : List Action) : Prop :=
  ∀ before, before <+: actions → ∀ s, run State.init before = some s → Clean s

/-- No lookup of the run returns early. -/
def NoneEarly (actions : List Action) : Prop :=
  ∀ before a, before ++ [a] <+: actions → ∀ s, run State.init before = some s →
    (step s a).isSome → Meets s a

lemma inv_run {actions : List Action} (h : NoneEarly actions) {before : List Action}
    (hbefore : before <+: actions) {s : State} (hs : run State.init before = some s) : Inv s := by
  induction before using List.reverseRecOn generalizing s with
  | nil =>
    obtain rfl := Option.some.inj hs
    exact inv_init
  | append_singleton before a ih =>
    rw [run_append] at hs
    obtain ⟨s1, hs1, hstep⟩ := Option.bind_eq_some_iff.mp hs
    have hinv := ih ((List.prefix_append before [a]).trans hbefore) hs1
    exact step_inv hinv (h before a hbefore s1 hs1 (Option.isSome_of_eq_some hstep)) hstep

/-- **Nothing is left behind exactly when no lookup returns early**: each one may block, has a
server to ask, finds no valid entry in the cache and a free id, and has a name that can be
encoded. -/
theorem leavesNothing_iff (actions : List Action) : LeavesNothing actions ↔ NoneEarly actions := by
  constructor
  · intro h before a hbefore s hs hstep
    by_contra hm
    obtain ⟨s', hs'⟩ := Option.isSome_iff_exists.mp hstep
    have hclean := h before ((List.prefix_append before [a]).trans hbefore) s hs
    refine step_leaks hclean hm hs' (h _ hbefore s' ?_)
    rw [run_append, hs]
    exact hs'
  · intro h before hbefore s hs
    exact (inv_run h hbefore hs).toClean

/-- A label of 256 letters. -/
def longLabel : Keyrings.Name where
  data := List.replicate 256 97
  nonzero h := absurd (List.eq_of_mem_replicate h) (by decide)
  length_lt := by rw [List.length_replicate]; decide

lemma not_encodable_longLabel : ¬Encodable longLabel := by
  have hfirst : firstLabel longLabel.data = longLabel.data :=
    List.takeWhile_eq_self_iff.mpr fun c hc => by rw [List.eq_of_mem_replicate hc]; rfl
  have hlength : longLabel.data.length = 256 := List.length_replicate
  have hlong : (encodeName longLabel.data (fun _ => 0) (512 - sizeofPacket)).1 = 0 := by
    rw [encodeName, encodeFrom, hfirst, hlength]
    rfl
  exact fun h => h (Or.inl (congrArg (· % 2 ^ 16) hlong))

/-- A lookup of a name that cannot be encoded. -/
def longLookup : List Action :=
  [.lookupCache 0 longLabel false 0 0, .lookupServer 0 (some 1), .lookupInsert 0 0 0] ++
    [.lookupSend 0]

/-- The lookup is over, and its request is in the tree. -/
theorem leavesNothing_fails : (∃ s, run State.init longLookup = some s ∧
    (∀ t, s.lookups t = none) ∧ s.requestTree 0 = some 0) ∧ ¬LeavesNothing longLookup := by
  have hrun : ∃ s, run State.init longLookup = some s ∧ (∀ t, s.lookups t = none) ∧
      s.requestTree 0 = some 0 := by
    obtain ⟨s, hs, hl, hothers, htree⟩ : ∃ s, run State.init [.lookupCache 0 longLabel false 0 0,
        .lookupServer 0 (some 1), .lookupInsert 0 0 0] = some s ∧
        s.lookups 0 = some ⟨longLabel, false, 0, .inserted 0 0⟩ ∧
        (∀ t ≠ 0, s.lookups t = none) ∧ s.requestTree 0 = some 0 :=
      ⟨_, rfl, rfl, fun t ht => (update_of_ne ht ..).trans ((update_of_ne ht ..).trans
        (update_of_ne ht ..)), rfl⟩
    refine ⟨s.leave 0 0, ?_, fun t => ?_, htree⟩
    · rw [longLookup, run_append, hs, Option.bind_some, step, lookupSend, hl]
      exact if_neg not_encodable_longLabel
    · by_cases ht : t = 0
      · exact ht ▸ update_self ..
      · exact (update_of_ne ht ..).trans (hothers t ht)
  refine ⟨hrun, fun h => ?_⟩
  obtain ⟨s, hs, hidle, htree⟩ := hrun
  have hclean := h longLookup (List.prefix_refl _) s hs
  exact Option.some_ne_none 0 (htree.symm.trans (hclean.id_free hidle 0))

end KernelModel.DnsLookup
