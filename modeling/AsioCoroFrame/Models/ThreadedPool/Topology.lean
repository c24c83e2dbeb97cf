import AsioCoroFrame.Core.Ordered
import AsioCoroFrame.Models.Cluster.SlotHash
import AsioCoroFrame.Models.ThreadedPool.Redirect

/-!
# From the reply to `CLUSTER SLOTS` to the node of a key

The cluster object is built from one reply: each of its elements names a range of
slots and a node, and gets a pool of connections to that node. The pools are never
exchanged afterwards, so a connection taken for a key is one to the node that the
reply has listed for the slot of the key.
-/

namespace AsioCoroFrame.ThreadedPool

open Cluster

/-! ## The code -/

/-- A `redisReply` with the elements of its arrays. -/
inductive SlotsReply where
  | integer (i : Int)
  | string (s : Bytes)
  | error (s : Bytes)
  | array (elements : List SlotsReply)
  /-- `REDIS_REPLY_STATUS` and `REDIS_REPLY_NIL`. -/
  | other

/-- What `init` takes from an element of the reply. -/
structure Entry where
  range : SlotRange
  host : Bytes
  port : Int
  deriving DecidableEq, Repr

/-- The conversion of an integer of a reply to a `SlotIndex`. -/
def slotIndex (i : Int) : Nat := (i % 2 ^ 32).toNat

/-- The test of an element in `init`: at least three elements, the third one with at least two. -/
def entryOf : SlotsReply → Option Entry
  | .array (.integer first :: .integer second :: .array (.string str :: .integer port :: _) :: _) =>
    some ⟨⟨slotIndex first, slotIndex second⟩, cString str, port.bmod (2 ^ 32)⟩
  | _ => none

variable {τ : Type}

/-- `insert(slots, host, port)` with the flag that tells whether it returned. -/
def State.tryInsertSlots (s : State τ) (r : SlotRange) (connect : Nat → ConnectResult) :
    State τ × Bool :=
  (s.register (.slots r)).fillPool s.pools.length (.slots r) connect poolSize

/-- The loop of `init` from the `i`-th element on; `connect i j` is what the `j`-th connect to the
node of that element yields. -/
def initFrom (connect : Nat → Nat → ConnectResult) :
    Nat → List SlotsReply → State τ → State τ × Bool
  | _, [], s => (s, true)
  | i, e :: es, s =>
    match entryOf e with
    | none => (s, false)
    | some entry =>
      match s.tryInsertSlots entry.range (connect i) with
      | (s, false) => (s, false)
      | (s, true) => initFrom connect (i + 1) es s

/-- The cluster object. -/
structure ThreadPoolCluster (τ : Type) where
  /-- `connections_`. -/
  connections : State τ
  /-- `readytouse_`. -/
  readytouse : Bool

/-- `init` in the constructor, on a new container; `none` is its exception. -/
def ThreadPoolCluster.init (connect : Nat → Nat → ConnectResult) :
    SlotsReply → Option (ThreadPoolCluster τ)
  | .array es =>
    match initFrom connect 0 es initial with
    | (s, true) => some ⟨s, true⟩
    | (_, false) => none
  | _ => none

/-- `HiredisCommand::createCluster`: `con` is the first connection and `reply` what it answers. -/
def createCluster (strerror : Bytes) (con : ConnectResult) (reply : Option SlotsReply)
    (connect : Nat → Nat → ConnectResult) : Except ClusterException (ThreadPoolCluster τ) :=
  if con = .ok then
    match reply with
    | none => .error .disconnected
    | some (.error _) => .error (.logicError [])
    | some reply =>
      match ThreadPoolCluster.init connect reply with
      | none => .error (.connectionFailed strerror)
      | some c => .ok c
  else .error (.connectionFailed strerror)

/-- `Cluster::getConnection`. -/
def ThreadPoolCluster.getConnection (c : ThreadPoolCluster τ) (t : τ) (key : Bytes) :
    Except ClusterException (ThreadPoolCluster τ) :=
  if c.readytouse then
    (searchBySlots (slotByKey key) c.connections.nodes).map fun n =>
      { c with connections := c.connections.pullConnection t n.2 (.slots n.1) }
  else .error .notInitialized

/-! ## The search -/

/-- The slot lies in the range. -/
def SlotRange.Covers (r : SlotRange) (slot : Nat) : Prop := r.first ≤ slot ∧ slot ≤ r.second

instance (r : SlotRange) (slot : Nat) : Decidable (r.Covers slot) :=
  inferInstanceAs (Decidable (_ ∧ _))

/-- The search finds the node with the greatest first slot up to the one sought, if it covers
it. -/
theorem searchBySlots_eq_ok {nodes : List (SlotRange × Ptr)} {slot : Nat} {n : SlotRange × Ptr}
    (h : Ordered (·.1.first) nodes) (hslot : slot + 1 < 2 ^ 32) :
    searchBySlots slot nodes = .ok n ↔ n ∈ nodes ∧ n.1.Covers slot ∧
      ∀ m ∈ nodes, m.1.first ≤ slot → m.1.first ≤ n.1.first := by
  have hlast {z : SlotRange × Ptr} :
      (nodes.takeWhile fun n => n.1.first < slot + 1).getLast? = some z ↔
        z ∈ nodes ∧ z.1.first ≤ slot ∧ ∀ m ∈ nodes, m.1.first ≤ slot → m.1.first ≤ z.1.first := by
    rw [h.getLast?_takeWhile_eq_some]
    simp only [Nat.lt_succ_iff]
  rw [searchBySlots, Nat.mod_eq_of_lt hslot]
  constructor
  · intro hsearch
    split at hsearch
    · cases hsearch
    · rename_i m hm
      split at hsearch
      · cases hsearch
      · rename_i hcovers
        cases hsearch
        obtain ⟨hmem, hfirst, hmax⟩ := hlast.mp hm
        rw [not_or, Nat.not_lt, Nat.not_lt] at hcovers
        exact ⟨hmem, hcovers, hmax⟩
  · rintro ⟨hmem, hcovers, hmax⟩
    rw [hlast.mpr ⟨hmem, hcovers.1, hmax⟩]
    refine if_neg ?_
    rw [not_or, Nat.not_lt, Nat.not_lt]
    exact hcovers

/-- A search that fails raises the one exception. -/
theorem searchBySlots_error {nodes : List (SlotRange × Ptr)} {slot : Nat} {e : ClusterException}
    (h : searchBySlots slot nodes = .error e) : e = .nodeSearch := by
  unfold searchBySlots at h
  split at h
  · cases h
    rfl
  · split at h
    · cases h
      rfl
    · cases h

/-! ## The container after the initialisation -/

/-- No range of the reply is empty and no two overlap. -/
structure Apart (entries : List Entry) : Prop where
  nonempty : ∀ e ∈ entries, e.range.first ≤ e.range.second
  pairwise : entries.Pairwise fun a b =>
    a.range.second < b.range.first ∨ b.range.second < a.range.first

/-- Two entries of one position or two positions apart. -/
theorem Apart.eq_or_apart {entries : List Entry} (h : Apart entries) {i j : Nat} {a b : Entry}
    (ha : entries[i]? = some a) (hb : entries[j]? = some b) :
    i = j ∨ a.range.second < b.range.first ∨ b.range.second < a.range.first := by
  obtain ⟨hi, rfl⟩ := List.getElem?_eq_some_iff.mp ha
  obtain ⟨hj, rfl⟩ := List.getElem?_eq_some_iff.mp hb
  have hpairs := List.pairwise_iff_getElem.mp h.pairwise
  obtain hlt | rfl | hgt := Nat.lt_trichotomy i j
  · exact .inr (hpairs i j hi hj hlt)
  · exact .inl rfl
  · exact .inr (hpairs j i hj hi hgt).symm

/-- The nodes are the entries of the reply, each with a pool of its own, and a connection created
for a range is one to the node of its entry. -/
structure Routed (entries : List Entry) (s : State τ) : Prop where
  ordered : Ordered (·.1.first) s.nodes
  nodes : ∀ n, n ∈ s.nodes ↔ ∃ e, entries[n.2]? = some e ∧ e.range = n.1
  created : ∀ e ∈ s.created, ∀ r, e.1 = .slots r →
    ∃ entry, entries[e.2 / poolSize]? = some entry ∧ entry.range = r
  typed : Typed s

/-- The state while the entries are inserted one after the other. -/
structure Loaded (entries : List Entry) (s : State τ) : Prop extends Routed entries s where
  pools : s.pools.length = entries.length
  next : s.next = poolSize * entries.length

theorem loaded_initial : Loaded [] (initial : State τ) where
  ordered := .nil
  nodes := by simp [initial]
  created := by simp [initial]
  typed := typed_initial
  pools := rfl
  next := rfl

/-- An entry with a new first slot gets the next pool and the next connections. -/
theorem Loaded.opened {entries : List Entry} {s : State τ} (h : Loaded entries s) {entry : Entry}
    (hnew : ∀ e ∈ entries, e.range.first ≠ entry.range.first) :
    Loaded (entries ++ [entry]) (s.opened (.slots entry.range) poolSize) := by
  have habsent : ∀ n ∈ s.nodes, n.1.first ≠ entry.range.first := by
    intro n hn
    obtain ⟨e, he, hrange⟩ := (h.nodes n).mp hn
    exact hrange ▸ hnew e (List.mem_of_getElem? he)
  have hnone : s.lookup (.slots entry.range) = none := by
    simpa [State.lookup, List.find?_eq_none] using habsent
  have hnodes := nodes_opened poolSize hnone
  refine ⟨⟨?_, ?_, ?_, h.typed.opened poolSize hnone⟩, ?_, ?_⟩
  · rw [hnodes]
    exact h.ordered.insertBefore (x := (entry.range, s.pools.length)) habsent
  · intro n
    rw [hnodes, mem_insertBefore, h.nodes, List.getElem?_append, h.pools]
    constructor
    · rintro (rfl | ⟨e, he, hrange⟩)
      · exact ⟨entry, by simp, rfl⟩
      · have hlt := (List.getElem?_eq_some_iff.mp he).1
        exact ⟨e, by rw [if_pos hlt, he], hrange⟩
    · rintro ⟨e, he, hrange⟩
      split at he
      · exact .inr ⟨e, he, hrange⟩
      · rename_i hge
        obtain ⟨hzero, rfl⟩ := List.getElem?_eq_some_iff.mp he
        have hpool : n.2 = entries.length := Nat.le_antisymm
          (Nat.le_of_sub_eq_zero (Nat.lt_one_iff.mp hzero)) (Nat.not_lt.mp hge)
        exact .inl (Prod.ext (by simpa using hrange.symm) hpool)
  · intro e he r hr
    obtain he | he := List.mem_append.mp he
    · obtain ⟨e', he', hrange⟩ := h.created e he r hr
      exact ⟨e', by rw [List.getElem?_append_left (List.getElem?_eq_some_iff.mp he').1, he'],
        hrange⟩
    · obtain ⟨c, hc, rfl⟩ := List.mem_map.mp he
      obtain rfl := PoolKey.slots.inj hr
      rw [List.mem_range'_1, h.next] at hc
      have hdiv : c / poolSize = entries.length := Nat.div_eq_of_lt_le
        (by rw [Nat.mul_comm]; exact hc.1) (by rw [Nat.add_mul, Nat.mul_comm]; omega)
      exact ⟨entry, by simp [hdiv], rfl⟩
  · simp [State.opened, h.pools]
  · simp [State.opened, h.next, Nat.mul_add]

/-- An insertion that returns has opened a full pool. -/
theorem State.tryInsertSlots_returns {s s' : State τ} {r : SlotRange}
    {connect : Nat → ConnectResult} (h : s.tryInsertSlots r connect = (s', true)) :
    s' = s.opened (.slots r) poolSize := by
  rw [tryInsertSlots, fillPool_register, Prod.mk.injEq, decide_eq_true_eq] at h
  obtain ⟨rfl, hfilled⟩ := h
  rw [hfilled]

/-- The loop inserts the entries that it reads off the reply, in their order. -/
theorem initFrom_loaded {connect : Nat → Nat → ConnectResult} {i : Nat} {es : List SlotsReply}
    {done entries : List Entry} {s s' : State τ} (hs : Loaded done s)
    (hentries : es.map entryOf = entries.map some)
    (hnew : (done ++ entries).Pairwise fun a b => a.range.first ≠ b.range.first)
    (h : initFrom connect i es s = (s', true)) : Loaded (done ++ entries) s' := by
  induction es generalizing i done entries s with
  | nil =>
    obtain rfl : entries = [] := by simpa using hentries.symm
    cases h
    simpa using hs
  | cons e es ih =>
    cases entries with
    | nil => simp at hentries
    | cons entry entries =>
      obtain ⟨hentry, hrest⟩ : entryOf e = some entry ∧ es.map entryOf = entries.map some := by
        simpa using hentries
      rw [initFrom, hentry] at h
      dsimp only at h
      split at h
      · cases h
      · rename_i s₁ hinsert
        obtain rfl := State.tryInsertSlots_returns hinsert
        have hsplit : done ++ entry :: entries = done ++ [entry] ++ entries := by simp
        rw [hsplit] at hnew ⊢
        refine ih (hs.opened fun e he => ?_) hrest hnew h
        exact (List.pairwise_append.mp (List.pairwise_append.mp hnew).1).2.2 e he entry (by simp)

/-! ## When the object is built -/

/-- The loop returns exactly when every element can be read and every connect succeeds. -/
theorem initFrom_returns {connect : Nat → Nat → ConnectResult} {i : Nat} {es : List SlotsReply}
    {s : State τ} :
    (initFrom connect i es s).2 = true ↔ ∀ k e, es[k]? = some e →
      (entryOf e).isSome ∧ ∀ j < poolSize, connect (i + k) j = .ok := by
  induction es generalizing i s with
  | nil => simp [initFrom]
  | cons e es ih =>
    rw [initFrom]
    cases hentry : entryOf e with
    | none =>
      refine ⟨fun h => (Bool.false_ne_true h).elim, fun h => ?_⟩
      have := (h 0 e rfl).1
      rw [hentry] at this
      cases this
    | some entry =>
      have hinsert : s.tryInsertSlots entry.range (connect i) =
          (s.opened (.slots entry.range) (filled (connect i) poolSize),
            decide (filled (connect i) poolSize = poolSize)) := s.fillPool_register ..
      dsimp only
      rw [hinsert]
      by_cases hfull : filled (connect i) poolSize = poolSize
      · have hfirst := filled_poolSize_iff.mp hfull
        simp only [hfull, decide_true, ih]
        constructor
        · intro h k e' he'
          cases k with
          | zero =>
            obtain rfl : e = e' := by simpa using he'
            exact ⟨by rw [hentry]; rfl, hfirst⟩
          | succ k =>
            rw [Nat.add_comm k, ← Nat.add_assoc]
            exact h k e' (by simpa using he')
        · intro h k e' he'
          rw [Nat.add_assoc, Nat.add_comm 1]
          exact h (k + 1) e' (by simpa using he')
      · simp only [hfull, decide_false]
        refine ⟨fun h => (Bool.false_ne_true h).elim, fun h => ?_⟩
        exact absurd (filled_poolSize_iff.mpr (h 0 e rfl).2) hfull

/-- The cluster object is built exactly when the first connection stands, the reply is an array
whose elements all have the expected form, and every one of the connects of every element succeeds;
else an exception is raised, and no object is left that some ranges are missing from. -/
theorem createCluster_ok_iff {strerror : Bytes} {con : ConnectResult} {reply : Option SlotsReply}
    {connect : Nat → Nat → ConnectResult} :
    (∃ c : ThreadPoolCluster τ, createCluster strerror con reply connect = .ok c) ↔
      con = .ok ∧ ∃ es, reply = some (.array es) ∧ ∀ k e, es[k]? = some e →
        (entryOf e).isSome ∧ ∀ j < poolSize, connect k j = .ok := by
  by_cases hcon : con = .ok
  · cases reply with
    | none => simp [createCluster, hcon]
    | some reply =>
      cases reply with
      | array es =>
        have hloop : (initFrom connect 0 es (initial : State τ)).2 = true ↔
            ∀ k e, es[k]? = some e →
              (entryOf e).isSome ∧ ∀ j < poolSize, connect (0 + k) j = .ok := initFrom_returns
        simp only [Nat.zero_add] at hloop
        simp only [createCluster, hcon, if_true, ThreadPoolCluster.init, true_and,
          Option.some.injEq, SlotsReply.array.injEq, exists_eq_left', ← hloop]
        cases hinit : initFrom connect 0 es initial with
        | mk s returned => cases returned <;> simp
      | integer | string | error | other => simp [createCluster, hcon, ThreadPoolCluster.init]
  · simp [createCluster, hcon]

/-! ## The threads at work -/

/-- No further ranges are inserted once the object is built. -/
def Initialised (_ : State τ) : Action τ → Prop
  | .insertSlots .. => False
  | _ => True

/-- After the initialisation only pools for redirections are opened. -/
def OpensHost (s : State τ) (key : PoolKey) (_ : Nat) : Prop :=
  s.lookup key = none ∧ ∃ h, key = .host h

theorem Initialised.opensHost {s : State τ} {a : Action τ} (h : Initialised s a) {key : PoolKey}
    {k : Nat} (ho : a.Opens s key k) : OpensHost s key k := by
  cases a with
  | insertSlots r connect => exact h.elim
  | insert t host port connect => exact ⟨ho.2.1, _, ho.1⟩
  | getConnection | spurious | recheck | release | notify | fail => exact ho.elim

variable [DecidableEq τ] {s s' : State τ} {entries : List Entry}

theorem Routed.effect {R : State τ → Lease τ → Prop} (h : Routed entries s)
    (he : Effect OpensHost R s s') : Routed entries s' := by
  have htyped := h.typed.effect (fun _ _ ho => ho.1) he
  cases he with
  | @opened key k ho =>
    obtain ⟨_, host, rfl⟩ := ho
    refine ⟨h.ordered, h.nodes, fun e he r hr => ?_, htyped⟩
    obtain he | he := List.mem_append.mp he
    · exact h.created e he r hr
    · obtain ⟨c, _, rfl⟩ := List.mem_map.mp he
      cases hr
  | take => exact ⟨h.ordered, h.nodes, h.created, htyped⟩
  | signal => exact ⟨h.ordered, h.nodes, h.created, htyped⟩
  | put => exact ⟨h.ordered, h.nodes, h.created, htyped⟩
  | fail => exact ⟨h.ordered, h.nodes, h.created, htyped⟩

/-- The nodes stay those of the reply whatever the threads do. -/
theorem Routed.of_run (h : Routed entries s) {as : List (Action τ)}
    (hrun : Run step Initialised s as s') : Routed entries s' :=
  hrun.invariant h fun _ _ _ hs hok hstep =>
    step_invariant (O := OpensHost) (R := fun _ _ => True) (fun _ _ => Routed.effect)
      (fun _ _ => hok.opensHost) (fun _ _ => trivial) hstep hs

omit [DecidableEq τ] in
/-- The search finds the listed node of a slot and nothing else. -/
theorem Routed.search (h : Routed entries s) (hapart : Apart entries) {slot : Nat}
    (hslot : slot + 1 < 2 ^ 32) {n : SlotRange × Ptr} :
    searchBySlots slot s.nodes = .ok n ↔
      ∃ e, entries[n.2]? = some e ∧ e.range = n.1 ∧ e.range.Covers slot := by
  rw [searchBySlots_eq_ok h.ordered hslot, h.nodes]
  constructor
  · rintro ⟨⟨e, he, hrange⟩, hcovers, _⟩
    exact ⟨e, he, hrange, hrange ▸ hcovers⟩
  · rintro ⟨e, he, hrange, hcovers⟩
    refine ⟨⟨e, he, hrange⟩, hrange ▸ hcovers, fun m hm hfirst => ?_⟩
    obtain ⟨e', he', hrange'⟩ := (h.nodes m).mp hm
    have hnonempty := hapart.nonempty e' (List.mem_of_getElem? he')
    rw [← hrange'] at hfirst
    rw [← hrange, ← hrange']
    obtain hsame | hbelow | habove := hapart.eq_or_apart he' he
    · rw [hsame, he] at he'
      exact (Option.some.inj he') ▸ le_rfl
    · exact hnonempty.trans hbelow.le
    · exact absurd (hcovers.2.trans_lt habove) (Nat.not_lt.mpr hfirst)

omit [DecidableEq τ] in
/-- The object that `createCluster` returns holds the entries of the reply. -/
theorem createCluster_routed {strerror : Bytes} {con : ConnectResult} {es : List SlotsReply}
    {connect : Nat → Nat → ConnectResult} {c : ThreadPoolCluster τ}
    (hentries : es.map entryOf = entries.map some) (hapart : Apart entries)
    (h : createCluster strerror con (some (.array es)) connect = .ok c) :
    Routed entries c.connections ∧ c.readytouse = true := by
  unfold createCluster at h
  split at h
  · dsimp only [ThreadPoolCluster.init] at h
    split at h
    · cases h
    · rename_i c' hinit
      cases h
      split at hinit
      · rename_i s hloop
        cases hinit
        refine ⟨(initFrom_loaded loaded_initial hentries ?_ hloop).toRouted, rfl⟩
        rw [List.nil_append]
        refine hapart.pairwise.imp_of_mem fun {a b} ha hb hdisjoint he => ?_
        have ha := hapart.nonempty a ha
        have hb := hapart.nonempty b hb
        omega
      · cases hinit
  · cases h

/-- Two masters, the second one with a replica. -/
def sampleSlots : List SlotsReply :=
  [.array [.integer 8192, .integer 16383,
      .array [.string (ascii "10.0.0.2"), .integer 7001],
      .array [.string (ascii "10.0.0.3"), .integer 7002]],
    .array [.integer 0, .integer 8191, .array [.string (ascii "10.0.0.1"), .integer 7000]]]

/-- What is read off that reply. -/
def sampleEntries : List Entry :=
  [⟨⟨8192, 16383⟩, ascii "10.0.0.2", 7001⟩, ⟨⟨0, 8191⟩, ascii "10.0.0.1", 7000⟩]

end AsioCoroFrame.ThreadedPool
